import SipfClient.FputRounds
import SipfClient.ShortWrites
set_option autoImplicit false

/-!
The bytes an upload puts on the socket against the declared file size. The data of
the accepted blocks can be anything, so a run is compared with all runs of the same
results of receptions and sends.
-/

namespace SipfClient.Xmodem
open ByteMem Loops ShortWrites Http

def counts (sends : List SendRet) (n : Nat) : List Nat :=
  (List.range n).map fun i => (sends.getD i .full).count

theorem counts_length (sends : List SendRet) (n : Nat) : (counts sends n).length = n := by
  simp [counts]

theorem counts_succ (sends : List SendRet) (n : Nat) :
    counts sends (n + 1) = (sends.headD .full).count :: counts sends.tail n := by
  cases sends with
  | nil => simp [counts,List.range_succ_eq_map,Function.comp_def]
  | cons r sends => simp [counts,List.range_succ_eq_map,Function.comp_def]

theorem counts_le (sends : List SendRet) (n : Nat) : ∀ t ∈ counts sends n, t ≤ 128 := by
  intro t ht
  obtain ⟨i,_,rfl⟩ := List.mem_map.1 ht
  exact SendRet.count_le _

def acceptedData (trace : List IoEvent) : List (List UInt8) := (acceptedFrames trace).map frameData

def acceptedCount (trace : List IoEvent) : Nat := (outcomes trace).count .ok

theorem acceptedData_append (a b : List IoEvent) :
    acceptedData (a ++ b) = acceptedData a ++ acceptedData b := by
  rw [acceptedData,acceptedFrames_append,List.map_append]
  rfl

theorem acceptedCount_append (a b : List IoEvent) :
    acceptedCount (a ++ b) = acceptedCount a + acceptedCount b := by
  rw [acceptedCount,outcomes_append,List.count_append]
  rfl

theorem roundRecord_count (frame : List UInt8) (ret : SendRet) (acked : Bool) :
    acceptedCount (roundRecord frame ret acked) = 1 := rfl

theorem roundRecord_data (frame : List UInt8) (ret : SendRet) (acked : Bool) :
    acceptedData (roundRecord frame ret acked) = [frameData frame] := rfl

structure Sent (sends : List SendRet) (ev : List IoEvent) : Prop where
  opened : .close ∉ ev
  pieces : Pieces 128 (acceptedCount ev) (acceptedData ev)
  bytes : socketBytes ev = written (counts sends (acceptedCount ev)) (acceptedData ev)

theorem Sent.accepted {sends : List SendRet} {ev : List IoEvent} (h : Sent sends.tail ev)
    {bn : UInt8} {frame : List UInt8} (hf : IsFrame bn frame) (acked : Bool) :
    Sent sends (roundRecord frame (sends.headD .full) acked ++ ev) := by
  obtain ⟨_,_,_,hs,hc⟩ := roundRecord_observed frame (sends.headD .full) acked
  have hcount : acceptedCount (roundRecord frame (sends.headD .full) acked ++ ev) =
      acceptedCount ev + 1 := by
    rw [acceptedCount_append,roundRecord_count,Nat.add_comm]
  have hdata : acceptedData (roundRecord frame (sends.headD .full) acked ++ ev) =
      frameData frame :: acceptedData ev := by
    rw [acceptedData_append,roundRecord_data,List.singleton_append]
  refine ⟨?_,?_,?_⟩
  · rw [List.mem_append,not_or]
    exact ⟨hc,h.opened⟩
  · rw [hcount,hdata]
    exact h.pieces.cons hf.data_length
  · rw [hcount,hdata,counts_succ,written_cons,← h.bytes,← hs,socketBytes_append]

theorem RejectRound.count {bn : UInt8} {cnt cnt' : Nat} {puts puts' : List Bool}
    {seg rest : List RxEvent} {ret : XmodemRecvRet} {out : Option (Option Int)} {q e : List IoEvent}
    (h : RejectRound bn cnt puts seg rest ret out cnt' puts' q e) (frame : List UInt8) :
    acceptedCount (q ++ .received ret frame :: e) = 0 := by
  rw [acceptedCount,(rejected_observed h.notOk h.record h.refusals frame).1]
  simp [h.notOk]

theorem RejectRound.data {bn : UInt8} {cnt cnt' : Nat} {puts puts' : List Bool}
    {seg rest : List RxEvent} {ret : XmodemRecvRet} {out : Option (Option Int)} {q e : List IoEvent}
    (h : RejectRound bn cnt puts seg rest ret out cnt' puts' q e) (frame : List UInt8) :
    acceptedData (q ++ .received ret frame :: e) = [] := by
  rw [acceptedData,(rejected_observed h.notOk h.record h.refusals frame).2.1]
  rfl

theorem Sent.rejected {bn : UInt8} {cnt cnt' : Nat} {puts puts' : List Bool}
    {seg rest : List RxEvent} {ret : XmodemRecvRet} {out : Option (Option Int)} {q e : List IoEvent}
    (hr : RejectRound bn cnt puts seg rest ret out cnt' puts' q e) (frame : List UInt8)
    {sends : List SendRet} {ev : List IoEvent} (h : Sent sends ev) :
    Sent sends ((q ++ .received ret frame :: e) ++ ev) := by
  obtain ⟨_,_,_,hs,hc⟩ := rejected_observed hr.notOk hr.record hr.refusals frame
  refine ⟨?_,?_,?_⟩
  · rw [List.mem_append,not_or]
    exact ⟨hc,h.opened⟩
  · rw [acceptedCount_append,acceptedData_append,hr.count,hr.data,Nat.zero_add]
    exact h.pieces
  · rw [acceptedCount_append,acceptedData_append,hr.count,hr.data,Nat.zero_add,socketBytes_append,hs]
    exact h.bytes

theorem sent_nil (sends : List SendRet) : Sent sends [] :=
  ⟨by simp,⟨rfl,by simp [acceptedData,acceptedFrames]⟩,rfl⟩

/-- The line can deliver any data in the frames accepted in this run, with the same
results and the same answers of the socket. -/
def Replays (n : Nat) (s e : CbState) (ev : List IoEvent) : Prop :=
  ∀ ds, Pieces 128 (acceptedCount ev) ds → ∃ rx', rx'.length = s.io.rx.length ∧
    ∀ (block : Mem) (trace : List IoEvent), ∃ e' ev', loop (fputBody xmodemReceiveBlock) n
      ⟨⟨rx', s.io.puts, s.io.sends, trace⟩, s.bn, block, s.cntRetry, s.totalSent⟩ =
        some (none, e') ∧ e'.io.trace = trace ++ ev' ∧ e'.totalSent = e.totalSent ∧
      outcomes ev' = outcomes ev ∧ acceptedData ev' = ds

section
variable {n cnt cnt' k : Nat} {bn : UInt8} {puts puts' : List Bool} {sends : List SendRet}
  {rest seg : List RxEvent} {trace trace' q e' ev : List IoEvent} {block block' : Mem} {total : Int}
  {e : CbState} {frame : List UInt8} {ret : XmodemRecvRet} {out : Option (Option Int)}

theorem Replays.accepted {le : k ≤ 128} (hf : IsFrame (bn + 1) frame)
    (hsend : sends.headD .full = .taken k le)
    (h : Replays n ⟨⟨rest, puts.tail, sends.tail, trace'⟩, bn + 1, block', 0, int32 (total + k)⟩ e
      ev) :
    Replays (n + 1) ⟨⟨bytes frame ++ rest, puts, sends, trace⟩, bn, block, cnt, total⟩ e
      (roundRecord frame (.taken k le) (puts.headD true) ++ ev) := by
  intro ds hds
  rw [acceptedCount_append,roundRecord_count,Nat.add_comm] at hds
  cases ds with
  | nil => exact absurd hds.count (by simp)
  | cons d ds =>
    obtain ⟨hd,hds⟩ := hds.head
    obtain ⟨rx',hlen,hrun⟩ := h ds hds
    have hf' := isFrame_frame (bn + 1) hd
    refine ⟨bytes (xmodemFrame (bn + 1) d) ++ rx',?_,?_⟩
    · simpa [bytes_length,hf.length,hf'.length] using hlen
    · intro block2 trace2
      obtain ⟨e2,ev2,hloop,htrace,htotal,hout,hdata⟩ := hrun (block2.copy 0
        (xmodemFrame (bn + 1) d)) (trace2 ++ roundRecord (xmodemFrame (bn + 1) d) (.taken k le)
        (puts.headD true))
      refine ⟨e2,_,?_,by rw [htrace,List.append_assoc],htotal,?_,?_⟩
      · rw [loop_next (round_taken hf' hsend _ _ _ _ _ _)]
        exact hloop
      · rw [outcomes_append,outcomes_append,hout]
        rfl
      · rw [acceptedData_append,roundRecord_data,hdata,frameData_frame _ hd,List.singleton_append]

theorem Replays.rejected (hr : RejectRound bn cnt puts seg rest ret none cnt' puts' q e')
    (h : Replays n ⟨⟨rest, puts', sends, trace'⟩, bn, block', cnt', total⟩ e ev) :
    Replays (n + 1) ⟨⟨seg ++ rest, puts, sends, trace⟩, bn, block, cnt, total⟩ e
      ((q ++ .received ret frame :: e') ++ ev) := by
  intro ds hds
  rw [acceptedCount_append,hr.count,Nat.zero_add] at hds
  obtain ⟨rx',hlen,hrun⟩ := h ds hds
  refine ⟨seg ++ rx',by simpa using hlen,?_⟩
  intro block2 trace2
  have hrest : rest = [] → rx' = [] := by
    rintro rfl
    exact List.length_eq_zero_iff.1 hlen
  obtain ⟨block3,frame3,hround⟩ := hr.run block2 rx' sends trace2 total hrest
  obtain ⟨e2,ev2,hloop,htrace,htotal,hout,hdata⟩ := hrun block3
    (trace2 ++ (q ++ .received ret frame3 :: e'))
  refine ⟨e2,_,?_,by rw [htrace,List.append_assoc],htotal,?_,?_⟩
  · rw [loop_next hround]
    exact hloop
  · rw [outcomes_append _ ev2,outcomes_append _ ev,(rejected_observed hr.notOk hr.record hr.refusals frame).1,(rejected_observed hr.notOk hr.record hr.refusals frame3).1,hout]
  · rw [acceptedData_append,hr.data,List.nil_append,hdata]

theorem Replays.last (hr : RejectRound bn cnt puts seg rest ret (some none) cnt' puts' q e')
    (he : e.totalSent = total) :
    Replays (n + 1) ⟨⟨seg ++ rest, puts, sends, trace⟩, bn, block, cnt, total⟩ e
      (q ++ .received ret frame :: e') := by
  intro ds hds
  have hnil : ds = [] := List.length_eq_zero_iff.1 (hds.count.trans (hr.count frame))
  subst hnil
  refine ⟨_,rfl,?_⟩
  intro block2 trace2
  obtain ⟨block3,frame3,hround⟩ := hr.run block2 rest sends trace2 total id
  exact ⟨_,_,loop_exit hround,rfl,he.symm,by rw [(rejected_observed hr.notOk hr.record hr.refusals frame).1,(rejected_observed hr.notOk hr.record hr.refusals frame3).1],
    hr.data frame3⟩

end

theorem callback_run {n : Nat} {s e : CbState}
    (h : loop (fputBody xmodemReceiveBlock) n s = some (none, e)) :
    ∃ ev, e.io.trace = s.io.trace ++ ev ∧ Sent s.io.sends ev ∧ Replays n s e ev ∧
      uint32 e.totalSent =
        (s.totalSent + (counts s.io.sends (acceptedCount ev)).sum) % 2 ^ 32 := by
  induction n generalizing s with
  | zero => simp [loop] at h
  | succ n ih =>
    obtain ⟨⟨rx,puts,sends,trace⟩,bn,block,cnt,total⟩ := s
    rcases round_cases bn cnt puts rx with ⟨frame,rest,rfl,hf⟩ |
      ⟨seg,rest,ret,out,cnt',puts',q,e',rfl,hr⟩
    · cases hsend : sends.headD .full with
      | failed errno pos =>
        obtain ⟨_,_,_,hrun⟩ := round_failed hf hsend puts
        rw [loop_exit (hrun _ _ _ _ _)] at h
        cases h
      | taken k le =>
        rw [loop_next (round_taken hf hsend _ _ _ _ _ _)] at h
        obtain ⟨ev,htrace,hsent,hreplays,htotal⟩ := ih h
        have hnew := hsent.accepted hf (puts.headD true)
        rw [hsend] at hnew
        refine ⟨_,by rw [htrace,List.append_assoc],hnew,hreplays.accepted hf hsend,?_⟩
        have hmod : int32 (total + k) % 2 ^ 32 = (total + k) % 2 ^ 32 := uint32_int32 _
        rw [htotal,acceptedCount_append,roundRecord_count,Nat.add_comm 1,counts_succ,hsend]
        simp only [List.sum_cons,SendRet.count] at hmod ⊢
        push_cast
        omega
    · obtain ⟨block',frame,hrun⟩ := hr.run block rest sends trace total id
      cases out with
      | none =>
        rw [loop_next hrun] at h
        obtain ⟨ev,htrace,hsent,hreplays,htotal⟩ := ih h
        refine ⟨_,by rw [htrace,List.append_assoc],hsent.rejected hr frame,hreplays.rejected hr,?_⟩
        rw [htotal,acceptedCount_append,hr.count,Nat.zero_add]
      | some v =>
        rw [loop_exit hrun] at h
        cases h
        have hsent := (sent_nil sends).rejected hr frame
        rw [List.append_nil] at hsent
        refine ⟨_,rfl,hsent,Replays.last hr rfl,?_⟩
        rw [hr.count]
        simp [counts,uint32]

/-- The request of an upload of this size carries exactly the file, the blocks behind
`block` being those of the record. -/
structure BodyExact (fileSize : UInt32) (block : Mem) (trace : List IoEvent) : Prop where
  body : socketBytes trace =
    ((block.read 3 128 :: acceptedData trace).flatten).take fileSize.toNat
  header : ∀ t : UploadTarget, contentLengthHeader fileSize.toNat ∈
    (uploadRequest t (int32 fileSize.toNat)).headerFields

theorem header_exact {fileSize : UInt32} (h : fileSize.toNat < 2 ^ 31) (t : UploadTarget) :
    contentLengthHeader fileSize.toNat ∈ (uploadRequest t (int32 fileSize.toNat)).headerFields := by
  rw [int32_small h]
  simp [uploadRequest]

theorem finish_open {fileSize : UInt32} {e : CbState} (hret : 0 ≤ (fputFinish fileSize e).ret)
    (hopen : .close ∉ (fputFinish fileSize e).io.trace) : fileSize.toNat < 2 ^ 31 ∧
      (fileSize.toNat : Int) ≤ uint32 e.totalSent ∧ (fputFinish fileSize e).io = e.io := by
  rw [finish_eq] at hret hopen ⊢
  split_ifs at hret hopen ⊢ with hc
  · simp at hopen
  · have hmod : uint32 (int32 e.totalSent) = uint32 e.totalSent := uint32_int32 _
    have h0 : 0 ≤ int32 e.totalSent := hret
    have hle : int32 e.totalSent < (2 ^ 32 + 1) / 2 := Int.bmod_lt (by omega)
    have hu : uint32 (int32 e.totalSent) = int32 e.totalSent := by
      rw [uint32]
      omega
    exact ⟨by omega,by omega,rfl⟩

theorem finish_same {fileSize : UInt32} {e e' : CbState} (ht : e'.totalSent = e.totalSent)
    (hopen : .close ∉ (fputFinish fileSize e).io.trace) :
    fputFinish fileSize e' = ⟨(fputFinish fileSize e).ret, e'.block, e'.io⟩ := by
  rw [finish_eq] at hopen ⊢
  rw [finish_eq,ht]
  split_ifs at hopen ⊢ with hc
  · simp at hopen
  · rfl

section
variable {block : Mem} {sends : List SendRet} {puts : List Bool} {ev : List IoEvent}

theorem firstRecord_data (ev : List IoEvent) :
    acceptedData (firstRecord block sends puts ++ ev) = acceptedData ev := rfl

theorem firstRecord_count (ev : List IoEvent) :
    acceptedCount (firstRecord block sends puts ++ ev) = acceptedCount ev := rfl

theorem Sent.body (h : Sent sends.tail ev) : socketBytes (firstRecord block sends puts ++ ev) =
    written (counts sends (acceptedCount ev + 1)) (block.read 3 128 :: acceptedData ev) := by
  rw [socketBytes_append,counts_succ,written_cons,← h.bytes]
  simp [socketBytes,firstRecord,takenBytes]

theorem Sent.all (h : Sent sends.tail ev) :
    Pieces 128 (counts sends (acceptedCount ev + 1)).length (block.read 3 128 :: acceptedData ev) := by
  rw [counts_length]
  exact h.pieces.cons (by simp)

theorem Sent.open (h : Sent sends.tail ev) : .close ∉ firstRecord block sends puts ++ ev := by
  simpa [firstRecord] using h.opened

end

theorem open_run {fileSize : UInt32} {block : Mem} {rx : List RxEvent} {puts : List Bool}
    {sends : List SendRet} {cb : FputCb RxEvent}
    (h : cmdFputSendCb fileSize block ⟨rx, puts, sends, []⟩ = some cb) (hret : 0 ≤ cb.ret)
    (hopen : .close ∉ cb.io.trace) :
    (∃ errno pos, sends.headD .full = .failed errno pos ∧
        cb.io.trace = [.send (block.read 3 128) (.failed errno pos)]) ∨
      ∃ n le e ev, sends.headD .full = .taken n le ∧ loop (fputBody xmodemReceiveBlock)
          (rx.length + 13) (cbStart block rx puts sends []) = some (none, e) ∧
        cb = fputFinish fileSize e ∧ cb.io.trace = firstRecord block sends puts ++ ev ∧
        Sent sends.tail ev ∧ Replays (rx.length + 13) (cbStart block rx puts sends []) e ev ∧
        fileSize.toNat < 2 ^ 31 ∧
        fileSize.toNat ≤ (counts sends (acceptedCount ev + 1)).sum := by
  cases hs : sends.headD .full with
  | failed errno pos =>
    rw [callback_failed fileSize block rx puts hs] at h
    cases h
    exact .inl ⟨errno,pos,rfl,rfl⟩
  | taken n le =>
    rw [callback_taken fileSize block rx puts hs] at h
    obtain ⟨⟨out,e⟩,hloop,hcb⟩ := Option.map_eq_some_iff.1 h
    cases out with
    | some v =>
      have hneg := callbackLoop_negative hloop
      subst hcb
      simp only [cbEnd] at hret
      omega
    | none =>
      have hcb' : fputFinish fileSize e = cb := hcb
      subst hcb'
      obtain ⟨ev,htrace,hsent,hreplays,htotal⟩ := callback_run hloop
      obtain ⟨hsmall,hsize,hio⟩ := finish_open hret hopen
      refine .inr ⟨n,le,e,ev,rfl,hloop,rfl,by rw [hio,htrace]; rfl,hsent,hreplays,hsmall,?_⟩
      have hn : int32 n = n := int32_small (by omega)
      rw [htotal] at hsize
      simp only [cbStart,hs,SendRet.count,hn] at hsize
      rw [counts_succ,List.sum_cons,hs]
      simp only [SendRet.count]
      omega

instance nontrivialUInt8 : Nontrivial UInt8 := ⟨0,1,by decide⟩

/-- The callback goes the same way over any other data. -/
theorem replayed_run {fileSize : UInt32} {block : Mem} {rx : List RxEvent} {puts : List Bool}
    {sends : List SendRet} {n : Nat} {le : n ≤ 128} {e : CbState} {ev : List IoEvent}
    (hs : sends.headD .full = .taken n le) (hopen : .close ∉ (fputFinish fileSize e).io.trace)
    (hreplays : Replays (rx.length + 13) (cbStart block rx puts sends []) e ev) {d : List UInt8}
    {ds : List (List UInt8)} (hd : d.length = 128) (hds : Pieces 128 (acceptedCount ev) ds) :
    ∃ rx' cb', cmdFputSendCb fileSize (Mem.zero.copy 3 d) ⟨rx', puts, sends, []⟩ = some cb' ∧
      cb'.ret = (fputFinish fileSize e).ret ∧ .close ∉ cb'.io.trace ∧
      outcomes cb'.io.trace = outcomes ev ∧
      (Mem.zero.copy 3 d).read 3 128 :: acceptedData cb'.io.trace = d :: ds ∧
      socketBytes cb'.io.trace = written (counts sends (acceptedCount ev + 1)) (d :: ds) := by
  obtain ⟨rx',hlen,hreplay⟩ := hreplays ds hds
  have hread : (Mem.zero.copy 3 d).read 3 128 = d := hd ▸ Mem.read_copy Mem.zero 3 d
  obtain ⟨e',ev',hloop',htrace',htotal,hout,hdata⟩ := hreplay (Mem.zero.copy 3 d)
    (firstRecord (Mem.zero.copy 3 d) sends puts)
  obtain ⟨ev2,htrace2,hsent2,-⟩ := callback_run hloop'
  have hev : ev2 = ev' := List.append_cancel_left (htrace2.symm.trans htrace')
  subst hev
  have hcb' : cmdFputSendCb fileSize (Mem.zero.copy 3 d) ⟨rx', puts, sends, []⟩ =
      some (fputFinish fileSize e') := by
    have hfuel : rx'.length = rx.length := hlen
    have hstart : loop (fputBody xmodemReceiveBlock) (rx.length + 13)
        (cbStart (Mem.zero.copy 3 d) rx' puts sends []) = some (none, e') := by
      simpa only [cbStart,firstRecord,List.nil_append] using hloop'
    rw [callback_taken fileSize _ rx' puts hs,hfuel,hstart]
    rfl
  rw [finish_same htotal hopen] at hcb'
  have hcount : acceptedCount ev2 = acceptedCount ev := by rw [acceptedCount,hout,acceptedCount]
  have hbody : socketBytes (firstRecord (Mem.zero.copy 3 d) sends puts ++ ev2) =
      written (counts sends (acceptedCount ev2 + 1))
        ((Mem.zero.copy 3 d).read 3 128 :: acceptedData ev2) := hsent2.body
  refine ⟨rx',_,hcb',rfl,by rw [htrace2]; exact hsent2.open,by rw [htrace2]; exact hout,?_,?_⟩
  · rw [htrace2,firstRecord_data,hread,hdata]
  · rw [htrace2,hbody,hread,hdata,hcount]

/-- The body of an upload is the file, in every run with these results of receptions
and sends, exactly if the socket has taken `fileSize` bytes in all, and nothing more
after a block of which it did not take all. -/
theorem fput_body_exact_iff {fileSize : UInt32} {block : Mem} {io : Io RxEvent}
    {cb : FputCb RxEvent} (hnew : io.trace = [])
    (hrun : cmdFputSendCb fileSize block io = some cb) (hret : 0 ≤ cb.ret)
    (hopen : .close ∉ cb.io.trace) :
    (∀ (block' : Mem) (rx' : List RxEvent) (cb' : FputCb RxEvent),
        cmdFputSendCb fileSize block' { io with rx := rx' } = some cb' → 0 ≤ cb'.ret →
        .close ∉ cb'.io.trace → outcomes cb'.io.trace = outcomes cb.io.trace →
        BodyExact fileSize block' cb'.io.trace) ↔
      (counts io.sends (acceptedCount cb.io.trace + 1)).sum = fileSize.toNat ∧
        Gapless 128 (counts io.sends (acceptedCount cb.io.trace + 1)) := by
  obtain ⟨rx,puts,sends,trace⟩ := io
  simp only at hnew
  subst hnew
  constructor
  · intro hall
    have hself := hall block rx cb hrun hret hopen rfl
    rcases open_run hrun hret hopen with ⟨errno,pos,hs,htrace⟩ |
      ⟨n,le,e,ev,hs,hloop,rfl,htrace,hsent,hreplays,-,hsize⟩
    · have hcounts : counts sends (acceptedCount cb.io.trace + 1) = [0] := by
        rw [htrace,counts_succ,hs]
        rfl
      have hlen := congrArg List.length hself.body
      rw [htrace] at hlen
      simp [socketBytes,takenBytes,SendRet.count] at hlen
      rw [hcounts]
      exact ⟨by simp; omega,by decide⟩
    · rw [htrace,firstRecord_count]
      refine (written_exact_iff (α := UInt8) (counts_le _ _) hsize).1 ?_
      intro ds hds
      rw [counts_length] at hds
      cases ds with
      | nil => exact absurd hds.count (by simp)
      | cons d ds =>
        obtain ⟨hd,hds⟩ := hds.head
        obtain ⟨rx',cb',hrun',hret',hopen',hout,hdata,hwritten⟩ :=
          replayed_run hs hopen hreplays hd hds
        have hbody := (hall _ rx' cb' hrun' (by rw [hret']; exact hret) hopen'
          (by rw [htrace]; exact hout)).body
        rw [hdata] at hbody
        exact hwritten.symm.trans hbody
  · rintro ⟨hsum,hgap⟩ block' rx' cb' hrun' hret' hopen' hout
    have hcount : acceptedCount cb'.io.trace = acceptedCount cb.io.trace := by
      rw [acceptedCount,hout,acceptedCount]
    rw [← hcount] at hsum hgap
    rcases open_run hrun' hret' hopen' with ⟨errno,pos,hs,htrace⟩ |
      ⟨n,le,e,ev,hs,hloop,-,htrace,hsent,-,hsmall,-⟩
    · rw [htrace,counts_succ,hs] at hsum
      have hzero : fileSize.toNat = 0 := hsum.symm
      refine ⟨?_,header_exact (by omega)⟩
      rw [htrace,hzero]
      rfl
    · refine ⟨?_,header_exact hsmall⟩
      rw [htrace,firstRecord_data,hsent.body,← hsum,htrace,firstRecord_count]
      rw [htrace,firstRecord_count] at hgap
      exact written_gapless (counts_le _ _) hsent.all hgap

def paddedBlock : Mem := Mem.ofList (xmodemFrame 1 [0x41])

def eotOnly : Io RxEvent := ⟨[.byte eot], [], [], []⟩

theorem fput_sends_padding : ∃ cb, cmdFputSendCb 1 paddedBlock eotOnly = some cb ∧ 0 ≤ cb.ret ∧
    .close ∉ cb.io.trace ∧ ¬ BodyExact 1 paddedBlock cb.io.trace := by
  refine ⟨_,rfl,by decide,by decide +kernel,?_⟩
  intro h
  have hlen := congrArg List.length h.body
  revert hlen
  decide +kernel

theorem fput_body_exact_iff_full : ∃ cb, cmdFputSendCb 128 paddedBlock eotOnly = some cb ∧
    BodyExact 128 paddedBlock cb.io.trace :=
  ⟨_,rfl,(@fput_body_exact_iff 128 paddedBlock eotOnly _ rfl rfl (by decide) (by decide +kernel)).2
    (by decide +kernel) paddedBlock [.byte eot] _ rfl (by decide) (by decide +kernel) rfl⟩

end SipfClient.Xmodem
