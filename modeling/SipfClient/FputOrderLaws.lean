import SipfClient.FputRounds
set_option autoImplicit false

namespace SipfClient.Xmodem
open ByteMem HexText Loops Http Command

def Numbered (frames : List (List UInt8)) : Prop :=
  ∀ (i : Nat) (h : i < frames.length), IsFrame (UInt8.ofNat (i + 1)) frames[i]

theorem numbered_snoc {frames : List (List UInt8)} {frame : List UInt8} (h : Numbered frames)
    (hf : IsFrame (UInt8.ofNat frames.length + 1) frame) : Numbered (frames ++ [frame]) := by
  intro i hi
  rcases Nat.lt_or_ge i frames.length with hlt | hge
  · rw [List.getElem_append_left hlt]
    exact h i hlt
  · have he : i = frames.length := by simp at hi; omega
    subst he
    simpa using hf

/-- The frames are on the line, apart from each other and in this order. -/
def Embedded : List (List UInt8) → List RxEvent → Prop
  | [], _ => True
  | frame :: frames, rx => ∃ before rest, rx = before ++ bytes frame ++ rest ∧ Embedded frames rest

theorem Embedded.more {frames : List (List UInt8)} {rx : List RxEvent} (h : Embedded frames rx)
    (seg : List RxEvent) : Embedded frames (rx ++ seg) := by
  induction frames generalizing rx with
  | nil => trivial
  | cons frame frames ih =>
    obtain ⟨before,rest,rfl,h⟩ := h
    exact ⟨before,rest ++ seg,by simp,ih h⟩

theorem Embedded.snoc {frames : List (List UInt8)} {rx : List RxEvent} (h : Embedded frames rx)
    (frame : List UInt8) : Embedded (frames ++ [frame]) (rx ++ bytes frame) := by
  induction frames generalizing rx with
  | nil => exact ⟨rx,[],by simp,trivial⟩
  | cons f frames ih =>
    obtain ⟨before,rest,rfl,h⟩ := h
    exact ⟨before,rest ++ bytes frame,by simp,ih h⟩

def isAck : IoEvent → Bool
  | .put b _ => b = ack
  | _ => false

def isTaken : IoEvent → Bool
  | .send _ (.taken _ _) => true
  | _ => false

def isEot : IoEvent → Bool
  | .header b => b = eot
  | _ => false

/-- At every moment before EOT no more ACKs have been given than blocks were taken by
`send`; an ACK that could not be queued counts as given. -/
def AckBound (trace : List IoEvent) : Prop :=
  ∀ p, p <+: trace → (∀ x ∈ p, isEot x = false) → p.countP isAck ≤ p.countP isTaken

theorem AckBound.append {a b : List IoEvent} (ha : AckBound a) (hb : AckBound b) :
    AckBound (a ++ b) := by
  intro p hp hno
  rcases List.prefix_or_prefix_of_prefix hp (List.prefix_append a b) with hp | ⟨r,rfl⟩
  · exact ha p hp hno
  · have hr := (List.prefix_append_right_inj a).1 hp
    rw [List.countP_append,List.countP_append]
    have h1 := ha a (List.prefix_refl a) fun x hx => hno x (List.mem_append_left r hx)
    have h2 := hb r hr fun x hx => hno x (List.mem_append_right a hx)
    omega

theorem ackBound_none {e : List IoEvent} (h : ∀ x ∈ e, isAck x = false) : AckBound e := by
  intro p hp _
  have hzero : p.countP isAck = 0 := by
    rw [List.countP_eq_zero]
    intro x hx
    simp [h x (hp.subset hx)]
  omega

theorem ackBound_eot {e : List IoEvent} (b : IoEvent) (hb : isEot b = true) (ha : isAck b = false) :
    AckBound (b :: e) := by
  intro p hp hno
  cases p with
  | nil => exact Nat.le_refl _
  | cons x p =>
    obtain ⟨rfl,_⟩ := List.cons_prefix_cons.1 hp
    simp [hb] at hno

/-- The ACK comes behind the `send` that took the block. -/
theorem ackBound_taken (data : List UInt8) {n : Nat} (le : n ≤ 128) (ok : Bool) :
    AckBound [.send data (.taken n le),.put ack ok] := by
  intro p hp _
  rcases List.prefix_cons_iff.1 hp with rfl | ⟨t,rfl,ht⟩
  · exact Nat.le_refl _
  · rcases List.prefix_cons_iff.1 ht with rfl | ⟨u,rfl,hu⟩
    · simp [List.countP_cons,isAck,isTaken]
    · rw [List.prefix_nil.1 hu]
      simp [List.countP_cons,isAck,isTaken]

theorem Refusals.ackBound {e : List IoEvent} (h : Refusals e) : AckBound e := by
  refine ackBound_none fun x hx => ?_
  obtain ⟨b,ok,rfl,hb⟩ := h x hx
  simpa [isAck] using hb

theorem ackBound_roundRecord (frame : List UInt8) {n : Nat} (le : n ≤ 128) (acked : Bool) :
    AckBound (roundRecord frame (.taken n le) acked) := by
  have hsplit : roundRecord frame (.taken n le) acked = [IoEvent.header soh,.received .ok frame] ++
      [.send (frameData frame) (.taken n le),.put ack acked] := rfl
  rw [hsplit]
  exact (ackBound_none (by simp [isAck])).append (ackBound_taken _ le acked)

/-- What holds whenever a reception is about to begin: `rx` has come in and `rest` of
it is still to come. -/
structure InOrder (rx rest : List RxEvent) (trace : List IoEvent) : Prop where
  numbered : Numbered (acceptedFrames trace)
  embedded : ∃ used, rx = used ++ rest ∧ Embedded (acceptedFrames trace) used
  acks : AckBound trace

theorem InOrder.accept {rx rest : List RxEvent} {trace e : List IoEvent} {frame : List UInt8}
    (h : InOrder rx (bytes frame ++ rest) trace)
    (hf : IsFrame (UInt8.ofNat (acceptedFrames trace).length + 1) frame)
    (he : acceptedFrames e = [frame]) (hack : AckBound e) : InOrder rx rest (trace ++ e) := by
  obtain ⟨used,rfl,hemb⟩ := h.embedded
  refine ⟨?_,⟨used ++ bytes frame,by simp,?_⟩,h.acks.append hack⟩
  · rw [acceptedFrames_append,he]
    exact numbered_snoc h.numbered hf
  · rw [acceptedFrames_append,he]
    exact hemb.snoc frame

theorem InOrder.pass {rx rest seg : List RxEvent} {trace e : List IoEvent}
    (h : InOrder rx (seg ++ rest) trace) (he : acceptedFrames e = []) (hack : AckBound e) :
    InOrder rx rest (trace ++ e) := by
  obtain ⟨used,rfl,hemb⟩ := h.embedded
  refine ⟨?_,⟨used ++ seg,by simp,?_⟩,h.acks.append hack⟩
  · rw [acceptedFrames_append,he,List.append_nil]
    exact h.numbered
  · rw [acceptedFrames_append,he,List.append_nil]
    exact hemb.more seg

theorem ackBound_rejected {q e : List IoEvent}
    (hq : q = [] ∨ (∃ b, q = [.header b]) ∨ ∃ ok, q = [.header eot,.put ack ok]) (he : Refusals e)
    (ret : XmodemRecvRet) (frame : List UInt8) : AckBound (q ++ .received ret frame :: e) := by
  have hreceived : AckBound (.received ret frame :: e) := by
    refine ackBound_none fun x hx => ?_
    rcases List.mem_cons.1 hx with rfl | hx
    · rfl
    · obtain ⟨b,ok,rfl,hb⟩ := he x hx
      simpa [isAck] using hb
  refine AckBound.append ?_ hreceived
  rcases hq with rfl | ⟨b,rfl⟩ | ⟨ok,rfl⟩
  · exact ackBound_none (by simp)
  · exact ackBound_none (by simp [isAck])
  · exact ackBound_eot (.header eot) rfl rfl

structure CbInv (rx : List RxEvent) (s : CbState) : Prop where
  order : InOrder rx s.io.rx s.io.trace
  number : s.bn = UInt8.ofNat (acceptedFrames s.io.trace).length
  handed : handed s.io.trace = (acceptedFrames s.io.trace).map frameData

theorem CbInv.accept {rx rest : List RxEvent} {puts puts' : List Bool}
    {sends sends' : List SendRet} {trace e : List IoEvent} {bn : UInt8} {block block' : Mem} {cnt cnt' : Nat} {total total' : Int}
    {frame : List UInt8}
    (h : CbInv rx ⟨⟨bytes frame ++ rest, puts, sends, trace⟩, bn, block, cnt, total⟩)
    (hf : IsFrame (bn + 1) frame) (he : acceptedFrames e = [frame])
    (hh : Xmodem.handed e = [frameData frame]) (hack : AckBound e) :
    CbInv rx ⟨⟨rest, puts', sends', trace ++ e⟩, bn + 1, block', cnt', total'⟩ where
  order := h.order.accept (by rw [← h.number]; exact hf) he hack
  number := by
    have hn : bn = UInt8.ofNat (acceptedFrames trace).length := h.number
    simp only [acceptedFrames_append,he,List.length_append,List.length_singleton,hn]
    simp
  handed := by
    have hold : Xmodem.handed trace = (acceptedFrames trace).map frameData := h.handed
    simp only [handed_append,acceptedFrames_append,he,hh,hold,List.map_append,List.map_cons,
      List.map_nil]

theorem CbInv.pass {rx rest seg : List RxEvent} {puts puts' : List Bool} {sends : List SendRet}
    {trace e : List IoEvent} {bn : UInt8} {block block' : Mem} {cnt cnt' : Nat} {total : Int}
    (h : CbInv rx ⟨⟨seg ++ rest, puts, sends, trace⟩, bn, block, cnt, total⟩)
    (he : acceptedFrames e = []) (hh : Xmodem.handed e = []) (hack : AckBound e) :
    CbInv rx ⟨⟨rest, puts', sends, trace ++ e⟩, bn, block', cnt', total⟩ where
  order := h.order.pass he hack
  number := by
    simp only [acceptedFrames_append,he,List.append_nil]
    exact h.number
  handed := by
    simp only [handed_append,acceptedFrames_append,he,hh,List.append_nil]
    exact h.handed

theorem cbInv_round {rx : List RxEvent} {s : CbState} (h : CbInv rx s) :
    ∃ s' out, fputBody xmodemReceiveBlock s = goOn out s' ∧ CbInv rx s' := by
  obtain ⟨⟨rx',puts,sends,trace⟩,bn,block,cnt,total⟩ := s
  rcases round_cases bn cnt puts rx' with ⟨frame,rest,rfl,hf⟩ |
    ⟨seg,rest,ret,out,cnt',puts',q,e,rfl,hr⟩
  · cases hsend : sends.headD .full with
    | taken n le =>
      obtain ⟨_,ha,hh,_,_⟩ := roundRecord_observed frame (.taken n le) (puts.headD true)
      exact ⟨_,none,round_taken hf hsend _ _ _ _ _ _,
        h.accept hf ha hh (ackBound_roundRecord frame le _)⟩
    | failed errno pos =>
      obtain ⟨puts',e,he,hrun⟩ := round_failed hf hsend puts
      obtain ⟨_,ha,hh,_,_⟩ := he.plain.unobserved
      refine ⟨_,some (some (-errno)),hrun rest trace block cnt total,h.accept hf ?_ ?_ ?_⟩
      · rw [acceptedFrames_append,ha]
        rfl
      · rw [handed_append,hh]
        rfl
      · exact (ackBound_none (by simp [isAck])).append he.ackBound
  · obtain ⟨block',frame,hrun⟩ := hr.run block rest sends trace total id
    obtain ⟨_,ha,hh,_,_⟩ := rejected_observed hr.notOk hr.record hr.refusals frame
    exact ⟨_,out,hrun,h.pass ha hh (ackBound_rejected hr.record hr.refusals ret frame)⟩

theorem cbInv_run {rx : List RxEvent} {n : Nat} {s e : CbState} {out : Option Int} (h : CbInv rx s)
    (hrun : loop (fputBody xmodemReceiveBlock) n s = some (out, e)) : CbInv rx e := by
  refine loop_inv (CbInv rx) (fun r => CbInv rx r.2) ?_ ?_ h hrun
  · intro s s' hs hb
    obtain ⟨s2,out,hround,hinv⟩ := cbInv_round hs
    rw [hround] at hb
    cases out with
    | none =>
      cases hb
      exact hinv
    | some v => cases hb
  · intro s r hs hb
    obtain ⟨s2,out,hround,hinv⟩ := cbInv_round hs
    rw [hround] at hb
    cases out with
    | none => cases hb
    | some v =>
      cases hb
      exact hinv

theorem callback_inOrder {fileSize : UInt32} {rx rest : List RxEvent} {puts : List Bool}
    {sends : List SendRet} {trace : List IoEvent} {block : Mem} {frame : List UInt8}
    {cb : FputCb RxEvent} (h : InOrder rx rest trace) (hone : acceptedFrames trace = [frame])
    (hnone : handed trace = []) (hblock : block.read 3 128 = frameData frame)
    (hrun : cmdFputSendCb fileSize block ⟨rest, puts, sends, trace⟩ = some cb) :
    InOrder rx cb.io.rx cb.io.trace ∧
      handed cb.io.trace = (acceptedFrames cb.io.trace).map frameData := by
  cases hs : sends.headD .full with
  | failed errno pos =>
    rw [callback_failed fileSize block rest puts hs] at hrun
    cases hrun
    refine ⟨@InOrder.pass rx rest [] trace _ h rfl (ackBound_none (by simp [isAck])),?_⟩
    simp only [handed_append,acceptedFrames_append,hone,hnone,hblock]
    rfl
  | taken n le =>
    rw [callback_taken fileSize block rest puts hs] at hrun
    obtain ⟨⟨out,e⟩,hloop,hcb⟩ := Option.map_eq_some_iff.1 hrun
    have hstart : CbInv rx (cbStart block rest puts sends trace) := by
      refine ⟨@InOrder.pass rx rest [] trace _ h rfl ?_,?_,?_⟩
      · rw [firstRecord,hs]
        exact ackBound_taken _ le _
      · simp only [cbStart,acceptedFrames_append,firstRecord_frames,hone]
        rfl
      · simp only [cbStart,handed_append,acceptedFrames_append,firstRecord_handed,firstRecord_frames,
          hone,hnone,hblock]
        rfl
    have hend := cbInv_run hstart hloop
    cases out with
    | some v =>
      cases hcb
      exact ⟨hend.order,hend.handed⟩
    | none =>
      have hcb' : fputFinish fileSize e = cb := hcb
      rw [finish_eq] at hcb'
      split_ifs at hcb'
      · -- the socket is closed
        subst hcb'
        refine ⟨@InOrder.pass rx e.io.rx [] e.io.trace _ hend.order rfl
          (ackBound_none (by simp [isAck])),?_⟩
        simp only [Io.log_trace,handed_append,acceptedFrames_append,hend.handed,List.map_append]
        rfl
      · subst hcb'
        exact ⟨hend.order,hend.handed⟩

theorem firstBody_other {ret : XmodemRecvRet} {bn : UInt8} {block : Mem} {io : Io RxEvent}
    {s : CbState} (h : xmodemReceiveBlock s.bn s.block s.io = ⟨ret, bn, block, io⟩)
    (hok : ret ≠ .ok) (hretry : ret ≠ .retry) : firstBody xmodemReceiveBlock s = .inr (.other ret,
      ⟨io.log (.received ret (block.read 0 132)), bn, block, s.cntRetry, s.totalSent⟩) := by
  simp only [firstBody,receive,h]

theorem firstRound_rejects {bn : UInt8} {puts puts' : List Bool} {seg rest : List RxEvent}
    {ret : XmodemRecvRet} {q : List IoEvent} (h : Rejects bn puts seg rest ret puts' q) (cnt : Nat)
    (block : Mem) (sends : List SendRet) (trace : List IoEvent) (total : Int) :
    ∃ puts'' block' frame e cnt', Refusals e ∧
      let s' : CbState := ⟨⟨rest, puts'', sends, trace ++ (q ++ .received ret frame :: e)⟩, bn,
        block', cnt', total⟩
      (firstBody xmodemReceiveBlock ⟨⟨seg ++ rest, puts, sends, trace⟩, bn, block, cnt, total⟩ =
          .inl s' ∧ cnt' = cnt + 1 ∧ cnt < 10) ∨
        ∃ first, first ≠ .received ∧ firstBody xmodemReceiveBlock
          ⟨⟨seg ++ rest, puts, sends, trace⟩, bn, block, cnt, total⟩ = .inr (first, s') := by
  have hnak : nak ≠ ack := by decide
  obtain ⟨block',hb⟩ := h.run block rest sends trace id
  by_cases hretry : ret = .retry
  · subst hretry
    by_cases hc : cnt < 10
    · refine ⟨puts'.tail,block',block'.read 0 132,[.put nak (puts'.headD true)],cnt + 1,
        refusals_cons hnak _ refusals_nil,.inl ⟨?_,rfl,hc⟩⟩
      simp only [firstBody,receive,hb,Io.log,if_pos hc,xmodemReceiveReqCurrentBlock,xmodemSendNak,
        putByte_eq,List.append_assoc]
      rfl
    · obtain ⟨puts'',e,he,hcancel⟩ := transmitCancel_eq puts'
      refine ⟨puts'',block',block'.read 0 132,e,cnt + 1,he,.inr ⟨.retryOver,by simp,?_⟩⟩
      simp only [firstBody,receive,hb,Io.log,if_neg hc,hcancel,List.append_assoc]
      rfl
  · refine ⟨puts',block',block'.read 0 132,[],cnt,refusals_nil,.inr ⟨.other ret,by simp,?_⟩⟩
    rw [firstBody_other hb h.notOk hretry,Io.log,List.append_assoc]

structure FirstInv (rx : List RxEvent) (s : CbState) : Prop where
  order : InOrder rx s.io.rx s.io.trace
  number : s.bn = 0
  none : acceptedFrames s.io.trace = []
  unhanded : handed s.io.trace = []

structure FirstEnd (rx : List RxEvent) (r : FirstBlock × CbState) : Prop where
  order : InOrder rx r.2.io.rx r.2.io.trace
  unhanded : handed r.2.io.trace = []
  received : r.1 = .received → ∃ frame, acceptedFrames r.2.io.trace = [frame] ∧
    r.2.block.read 3 128 = frameData frame

theorem first_round {rx : List RxEvent} {s : CbState} (h : FirstInv rx s) :
    (∃ s', firstBody xmodemReceiveBlock s = .inl s' ∧ FirstInv rx s' ∧
        s'.cntRetry = s.cntRetry + 1 ∧ s.cntRetry < 10) ∨
      ∃ r, firstBody xmodemReceiveBlock s = .inr r ∧ FirstEnd rx r := by
  obtain ⟨⟨rx',puts,sends,trace⟩,bn,block,cnt,total⟩ := s
  obtain ⟨horder,hbn,hnone,hunhanded⟩ := h
  simp only at horder hbn hnone hunhanded
  subst hbn
  rcases receive_cases 0 puts rx' with ⟨frame,rest,rfl,hf⟩ | ⟨seg,rest,ret,puts',q,rfl,hr⟩
  · refine .inr ⟨_,firstRound_frame hf rest puts sends trace block cnt total,?_,?_,?_⟩
    · refine horder.accept ?_ rfl (ackBound_none (by simp [isAck]))
      rw [hnone]
      exact hf
    · rw [handed_append,hunhanded]
      rfl
    · intro _
      refine ⟨frame,?_,?_⟩
      · rw [acceptedFrames_append,hnone]
        rfl
      · rw [← read_data,read_copy_all block hf.length]
  · obtain ⟨puts'',block',frame,e,cnt',he,hround⟩ := firstRound_rejects hr cnt block sends trace total
    obtain ⟨_,ha,hh,_,_⟩ := rejected_observed hr.notOk hr.record he frame
    have hnew := horder.pass ha (ackBound_rejected hr.record he ret frame)
    have hnone' : acceptedFrames (trace ++ (q ++ .received ret frame :: e)) = [] := by
      rw [acceptedFrames_append,hnone,ha,List.append_nil]
    have hunhanded' : handed (trace ++ (q ++ .received ret frame :: e)) = [] := by
      rw [handed_append,hunhanded,hh,List.append_nil]
    rcases hround with ⟨hb,hcnt,hc⟩ | ⟨first,hfirst,hb⟩
    · exact .inl ⟨_,hb,⟨hnew,rfl,hnone',hunhanded'⟩,hcnt,hc⟩
    · exact .inr ⟨_,hb,⟨hnew,hunhanded',fun h => absurd h hfirst⟩⟩

theorem first_run {rx : List RxEvent} {s : CbState} (h : FirstInv rx s) (hc : s.cntRetry = 0) :
    ∃ r, loop (firstBody xmodemReceiveBlock) 12 s = some r ∧ FirstEnd rx r := by
  have hstep : ∀ s s', FirstInv rx s → firstBody xmodemReceiveBlock s = .inl s' →
      FirstInv rx s' ∧ 11 - s'.cntRetry < 11 - s.cntRetry := by
    intro s s' hs hb
    rcases first_round hs with ⟨s2,hb2,hinv,hcnt,hlt⟩ | ⟨r,hb2,_⟩
    · rw [hb2] at hb
      cases hb
      exact ⟨hinv,by omega⟩
    · rw [hb2] at hb
      cases hb
  obtain ⟨r,hr⟩ := loop_total (FirstInv rx) (fun s => 11 - s.cntRetry) hstep h
    (show 11 - s.cntRetry < 12 by omega)
  refine ⟨r,hr,loop_inv (FirstInv rx) (FirstEnd rx) (fun s s' hs hb => (hstep s s' hs hb).1) ?_ h hr⟩
  intro s r hs hb
  rcases first_round hs with ⟨s2,hb2,_⟩ | ⟨r2,hb2,hend⟩
  · rw [hb2] at hb
    cases hb
  · rw [hb2] at hb
    cases hb
    exact hend

theorem callbackUploadRequest_cases (t : UploadTarget) (course : UploadCourse)
    {payloadCb : Mem → Io RxEvent → Option (FputCb RxEvent)} (size : Int) {block : Mem}
    {io : Io RxEvent} {cb : FputCb RxEvent} (hcb : payloadCb block io = some cb) :
    ∃ up, sipfFileCallbackUploadRequest t course payloadCb size block io = some up ∧
      (up.called = false ∧ up.io = io ∨ up.called = true ∧ up.io = cb.io) := by
  by_cases hcall : course.net.Connects t.tls ∧ course.headSent = true
  · simp only [sipfFileCallbackUploadRequest,if_pos hcall,hcb]
    exact ⟨_,rfl,.inr ⟨rfl,rfl⟩⟩
  · simp only [sipfFileCallbackUploadRequest,if_neg hcall]
    exact ⟨_,rfl,.inl ⟨rfl,rfl⟩⟩

theorem sipfFileUpload_cases (course : UploadCourse)
    {payloadCb : Mem → Io RxEvent → Option (FputCb RxEvent)} (size : Int) {block : Mem}
    {io : Io RxEvent} {cb : FputCb RxEvent} (hcb : payloadCb block io = some cb) :
    ∃ up, sipfFileUpload course payloadCb size block io = some up ∧
      (up.called = false ∧ up.io = io ∨ up.called = true ∧ up.io = cb.io) := by
  simp only [sipfFileUpload]
  cases course.target with
  | error e => exact ⟨_,rfl,.inl ⟨rfl,rfl⟩⟩
  | ok t =>
    obtain ⟨up,hup,hio⟩ := callbackUploadRequest_cases t course size hcb
    simp only [hup,Option.bind_eq_bind,Option.bind_some]
    split_ifs
    · exact ⟨up,rfl,hio⟩
    · exact ⟨_,rfl,hio⟩

def CallbackCalled (run : FputRun RxEvent) : Prop :=
  ∃ up, run.upload = some up ∧ up.called = true

structure SessionInOrder (rx : List RxEvent) (run : FputRun RxEvent) : Prop where
  numbered : Numbered (acceptedFrames run.io.trace)
  embedded : Embedded (acceptedFrames run.io.trace) rx
  acks : AckBound run.io.trace
  handed : CallbackCalled run → handed run.io.trace = (acceptedFrames run.io.trace).map frameData
  unhanded : ¬ CallbackCalled run → Xmodem.handed run.io.trace = []

theorem InOrder.session {rx rest : List RxEvent} {trace : List IoEvent} (h : InOrder rx rest trace)
    {run : FputRun RxEvent} {e : List IoEvent} (hrun : run.io.trace = trace ++ e)
    (he : ∀ x ∈ e, plain x = true ∧ isAck x = false)
    (hcalled : CallbackCalled run → handed trace = (acceptedFrames trace).map frameData)
    (hnot : ¬ CallbackCalled run → handed trace = []) : SessionInOrder rx run := by
  have hplain : Plain e := fun x hx => (he x hx).1
  obtain ⟨_,ha,hh,_,_⟩ := hplain.unobserved
  obtain ⟨used,rfl,hemb⟩ := h.embedded
  have hframes : acceptedFrames run.io.trace = acceptedFrames trace := by
    rw [hrun,acceptedFrames_append,ha,List.append_nil]
  have hhanded : Xmodem.handed run.io.trace = Xmodem.handed trace := by
    rw [hrun,handed_append,hh,List.append_nil]
  exact {
    numbered := hframes ▸ h.numbered
    embedded := hframes ▸ hemb.more rest
    acks := hrun ▸ h.acks.append (ackBound_none fun x hx => (he x hx).2)
    handed := fun hc => by rw [hhanded,hframes]; exact hcalled hc
    unhanded := fun hc => by rw [hhanded]; exact hnot hc }

/-- Every session returns, and its frames are accepted in order and handed to `send`
once each, if the payload callback is called, and not at all if it is not. -/
theorem fputSession_inOrder (args : FputArgs) (course : UploadCourse) (block : Mem)
    (rx : List RxEvent) (puts : List Bool) (sends : List SendRet) :
    ∃ run, fputSession xmodemReceiveBlock args course block ⟨rx, puts, sends, []⟩ = some run ∧
      SessionInOrder rx run := by
  have hstart : InOrder rx rx (startRecord puts) :=
    ⟨fun i h => absurd h (Nat.not_lt_zero i),⟨[],rfl,trivial⟩,
      ackBound_none (by simp [startRecord,isAck,nak,ack])⟩
  have hecho : ∀ x ∈ [IoEvent.echo true], plain x = true ∧ isAck x = false := by simp [plain,isAck]
  cases hput : puts.headD true with
  | false =>
    refine ⟨_,fputSession_noStart args course block rx sends hput,?_⟩
    exact hstart.session (List.append_nil _).symm (by simp) (fun _ => rfl) fun _ => rfl
  | true =>
    obtain ⟨⟨first,s⟩,hloop,hend⟩ := @first_run rx (sessionStart block rx puts sends)
      ⟨hstart,rfl,rfl,rfl⟩ rfl
    by_cases hfirst : first = .received
    · subst hfirst
      obtain ⟨frame,hone,hblock⟩ := hend.received rfl
      obtain ⟨cb,hcb⟩ := cmdFputSendCb_total args.fileSize s.block s.io
      obtain ⟨up,hup,hio⟩ := sipfFileUpload_cases course (int32 args.fileSize.toNat) hcb
      refine ⟨_,fputSession_received args course block rx sends hput hloop hup,?_⟩
      rcases hio with ⟨hcalled,hio⟩ | ⟨hcalled,hio⟩
      · refine hend.order.session ?_ hecho ?_ fun _ => hend.unhanded
        · rw [← hio]
          rfl
        · rintro ⟨up',hup',hc⟩
          cases hup'
          rw [hcalled] at hc
          cases hc
      · obtain ⟨horder,hhanded⟩ := callback_inOrder hend.order hone hend.unhanded hblock hcb
        refine horder.session ?_ hecho (fun _ => hhanded) ?_
        · rw [← hio]
          rfl
        · intro hnot
          exact absurd ⟨up,rfl,hcalled⟩ hnot
    · refine ⟨_,fputSession_refused args course block rx sends hput hloop hfirst,?_⟩
      refine hend.order.session rfl hecho ?_ fun _ => hend.unhanded
      rintro ⟨up,hup,_⟩
      cases hup

/-- The same for the command with its parameters; illegal ones receive nothing. -/
theorem fput_in_order (inBuff : Mem) (inLen : UInt16) (course : List UInt8 → UploadCourse)
    (block : Mem) (rx : List RxEvent) (puts : List Bool) (sends : List SendRet) :
    ∃ run, cmdAsciiCmdFput inBuff inLen course block ⟨rx, puts, sends, []⟩ = some run ∧
      SessionInOrder rx run := by
  cases hargs : fputArgs inBuff inLen with
  | none =>
    refine ⟨⟨.ok cmdCreateResIllParam, none, ⟨rx, puts, sends, []⟩⟩,?_,?_⟩
    · simp only [cmdAsciiCmdFput,hargs]
    · have hstart : InOrder rx rx [] :=
        ⟨fun i h => absurd h (Nat.not_lt_zero i),⟨[],rfl,trivial⟩,ackBound_none (by simp)⟩
      exact hstart.session (List.append_nil _).symm (by simp) (fun _ => rfl) fun _ => rfl
  | some args =>
    obtain ⟨run,hrun,horder⟩ := fputSession_inOrder args (course args.fileId) block rx puts sends
    refine ⟨run,?_,horder⟩
    simp only [cmdAsciiCmdFput,hargs,hrun]

def noUrl : UploadCourse :=
  ⟨.error (-1), ⟨0, 0, 0, 0, 0, ⟨0, [], Mem.zero⟩⟩, .zero, false, 0⟩

theorem fput_accepted_not_handed :
    (cmdAsciiCmdFput (Mem.ofList (ascii " a 00000001")) 11 (fun _ => noUrl) Mem.zero
      ⟨bytes (xmodemFrame 1 [0x41]), [], [], []⟩).map
        (fun run => (acceptedFrames run.io.trace, handed run.io.trace)) =
      some ([xmodemFrame 1 [0x41]], []) := by
  decide +kernel

end SipfClient.Xmodem
