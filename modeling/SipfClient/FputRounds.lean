import SipfClient.FputCommand
import SipfClient.Reception
set_option autoImplicit false

namespace SipfClient.Xmodem
open ByteMem Loops Command

def SendRet.count : SendRet → Nat
  | .taken n _ => n
  | .failed _ _ => 0

theorem SendRet.count_le (r : SendRet) : r.count ≤ 128 := by
  cases r with
  | taken n le => exact le
  | failed errno pos => exact Nat.zero_le _

def outcome : IoEvent → Option XmodemRecvRet
  | .received ret _ => some ret
  | _ => none

def outcomes (trace : List IoEvent) : List XmodemRecvRet := trace.filterMap outcome

def acceptedFrame : IoEvent → Option (List UInt8)
  | .received .ok frame => some frame
  | _ => none

def acceptedFrames (trace : List IoEvent) : List (List UInt8) := trace.filterMap acceptedFrame

def handedData : IoEvent → Option (List UInt8)
  | .send data _ => some data
  | _ => none

def handed (trace : List IoEvent) : List (List UInt8) := trace.filterMap handedData

def takenBytes : IoEvent → List UInt8
  | .send data ret => data.take ret.count
  | _ => []

def socketBytes (trace : List IoEvent) : List UInt8 := trace.flatMap takenBytes

theorem outcomes_append (a b : List IoEvent) : outcomes (a ++ b) = outcomes a ++ outcomes b :=
  List.filterMap_append

theorem acceptedFrames_append (a b : List IoEvent) :
    acceptedFrames (a ++ b) = acceptedFrames a ++ acceptedFrames b := List.filterMap_append

theorem handed_append (a b : List IoEvent) : handed (a ++ b) = handed a ++ handed b :=
  List.filterMap_append

theorem socketBytes_append (a b : List IoEvent) :
    socketBytes (a ++ b) = socketBytes a ++ socketBytes b := List.flatMap_append

def Refusals (e : List IoEvent) : Prop := ∀ x ∈ e, ∃ b ok, x = .put b ok ∧ b ≠ ack

def plain : IoEvent → Bool
  | .received _ _ | .send _ _ | .close => false
  | _ => true

def Plain (e : List IoEvent) : Prop := ∀ x ∈ e, plain x = true

theorem Refusals.plain {e : List IoEvent} (h : Refusals e) : Plain e := by
  intro x hx
  obtain ⟨b,ok,rfl,_⟩ := h x hx
  rfl

theorem Plain.unobserved {e : List IoEvent} (h : Plain e) :
    outcomes e = [] ∧ acceptedFrames e = [] ∧ handed e = [] ∧ socketBytes e = [] ∧ .close ∉ e := by
  induction e with
  | nil => simp [outcomes,acceptedFrames,handed,socketBytes]
  | cons x e ih =>
    obtain ⟨ho,ha,hh,hs,hc⟩ := ih fun y hy => h y (List.mem_cons_of_mem x hy)
    have hx := h x List.mem_cons_self
    cases x with
    | received | send | close => cases hx
    | _ => exact ⟨ho,ha,hh,hs,by simpa using hc⟩

theorem refusals_nil : Refusals [] := fun _ h => absurd h List.not_mem_nil

theorem refusals_cons {b : UInt8} (hb : b ≠ ack) (ok : Bool) {e : List IoEvent} (he : Refusals e) :
    Refusals (.put b ok :: e) := by
  intro x hx
  rcases List.mem_cons.1 hx with rfl | hx
  · exact ⟨b,ok,rfl,hb⟩
  · exact he x hx

theorem putByte_eq (b : UInt8) (rx : List RxEvent) (puts : List Bool) (sends : List SendRet)
    (trace : List IoEvent) : uartBrokerPutByte b (⟨rx, puts, sends, trace⟩ : Io RxEvent) =
      (puts.headD true, ⟨rx, puts.tail, sends, trace ++ [IoEvent.put b (puts.headD true)]⟩) := rfl

theorem transmitCancel_eq (puts : List Bool) : ∃ puts' e, Refusals e ∧
    ∀ (rx : List RxEvent) (sends : List SendRet) (trace : List IoEvent),
      (xmodemTransmitCancel ⟨rx, puts, sends, trace⟩).2 = ⟨rx, puts', sends, trace ++ e⟩ := by
  have hcan : can ≠ ack := by decide
  cases hp : puts.headD true with
  | false =>
    refine ⟨puts.tail,[.put can false],refusals_cons hcan _ refusals_nil,?_⟩
    intro rx sends trace
    simp only [xmodemTransmitCancel,putByte_eq,hp]
    rfl
  | true =>
    refine ⟨puts.tail.tail,[.put can true,.put can (puts.tail.headD true)],
      refusals_cons hcan _ (refusals_cons hcan _ refusals_nil),?_⟩
    intro rx sends trace
    simp only [xmodemTransmitCancel,putByte_eq,hp,if_pos,List.append_assoc]
    rfl

def roundRecord (frame : List UInt8) (ret : SendRet) (acked : Bool) : List IoEvent :=
  [.header soh,.received .ok frame,.send (frameData frame) ret,.put ack acked]

theorem roundRecord_observed (frame : List UInt8) (ret : SendRet) (acked : Bool) :
    outcomes (roundRecord frame ret acked) = [.ok] ∧
      acceptedFrames (roundRecord frame ret acked) = [frame] ∧
      handed (roundRecord frame ret acked) = [frameData frame] ∧
      socketBytes (roundRecord frame ret acked) = (frameData frame).take ret.count ∧
      .close ∉ roundRecord frame ret acked :=
  ⟨rfl,rfl,rfl,List.append_nil _,by simp [roundRecord]⟩

abbrev CbState := FputLoop RxEvent

def goOn (out : Option (Option Int)) (s : CbState) : CbState ⊕ (Option Int × CbState) :=
  match out with
  | none => .inl s
  | some v => .inr (v, s)

theorem round_taken {bn : UInt8} {frame : List UInt8} (hf : IsFrame (bn + 1) frame)
    {sends : List SendRet} {n : Nat} {le : n ≤ 128} (hs : sends.headD .full = .taken n le)
    (rest : List RxEvent) (puts : List Bool) (trace : List IoEvent) (block : Mem) (cnt : Nat)
    (total : Int) :
    fputBody xmodemReceiveBlock ⟨⟨bytes frame ++ rest, puts, sends, trace⟩, bn, block, cnt, total⟩ =
      .inl ⟨⟨rest, puts.tail, sends.tail,
        trace ++ roundRecord frame (.taken n le) (puts.headD true)⟩, bn + 1, block.copy 0 frame, 0,
        int32 (total + n)⟩ := by
  have hread := read_copy_all block hf.length
  have hdata : (block.copy 0 frame).read 3 128 = frameData frame := by rw [← read_data,hread]
  have hneg : ¬ ((n : Int) < 0) := by omega
  simp only [fputBody,receive,receive_frame hf,Io.log,hread,sendChunkedData,hs,hdata,SendRet.value,
    if_neg hneg,xmodemReceiveReqNextBlock,xmodemSendAck,putByte_eq,List.append_assoc]
  rfl

theorem round_failed {bn : UInt8} {frame : List UInt8} (hf : IsFrame (bn + 1) frame)
    {sends : List SendRet} {errno : Nat} {pos : 0 < errno}
    (hs : sends.headD .full = .failed errno pos) (puts : List Bool) : ∃ puts' e, Refusals e ∧
      ∀ (rest : List RxEvent) (trace : List IoEvent) (block : Mem) (cnt : Nat) (total : Int),
        fputBody xmodemReceiveBlock ⟨⟨bytes frame ++ rest, puts, sends, trace⟩, bn, block, cnt, total⟩ =
          .inr (some (-errno), ⟨⟨rest, puts', sends.tail, trace ++ ([IoEvent.header soh,
            .received .ok frame,.send (frameData frame) (.failed errno pos)] ++ e)⟩, bn + 1,
            block.copy 0 frame, cnt, total⟩) := by
  obtain ⟨puts',e,he,hcancel⟩ := transmitCancel_eq puts
  refine ⟨puts',e,he,?_⟩
  intro rest trace block cnt total
  have hread := read_copy_all block hf.length
  have hdata : (block.copy 0 frame).read 3 128 = frameData frame := by rw [← read_data,hread]
  have hneg : -(errno : Int) < 0 := by omega
  simp only [fputBody,receive,receive_frame hf,Io.log,hread,sendChunkedData,hs,hdata,SendRet.value,
    if_pos hneg,hcancel,List.append_assoc]
  rfl

theorem rejected_observed {ret : XmodemRecvRet} {q e : List IoEvent} (hret : ret ≠ .ok)
    (hq : q = [] ∨ (∃ b, q = [.header b]) ∨ ∃ ok, q = [.header eot,.put ack ok]) (he : Refusals e)
    (frame : List UInt8) :
    outcomes (q ++ .received ret frame :: e) = [ret] ∧
      acceptedFrames (q ++ .received ret frame :: e) = [] ∧
      handed (q ++ .received ret frame :: e) = [] ∧
      socketBytes (q ++ .received ret frame :: e) = [] ∧ .close ∉ q ++ .received ret frame :: e := by
  have hplain : Plain q := by rcases hq with rfl | ⟨b,rfl⟩ | ⟨ok,rfl⟩ <;> simp [Plain,plain]
  obtain ⟨ho,ha,hh,hs,hc⟩ := hplain.unobserved
  obtain ⟨ho',ha',hh',hs',hc'⟩ := he.plain.unobserved
  have haccept : acceptedFrame (.received ret frame) = none := by
    cases ret with
    | ok => exact absurd rfl hret
    | _ => rfl
  simp only [outcomes,acceptedFrames,handed,socketBytes,List.filterMap_append,List.flatMap_append,
    List.filterMap_cons,List.flatMap_cons,outcome,haccept,handedData,takenBytes] at *
  simp [ho,ha,hh,hs,hc,ho',ha',hh',hs',hc']

/-- A round whose reception rejects `seg`: how it goes on and what it records do not
depend on the block buffer or on the rest of the line. -/
structure RejectRound (bn : UInt8) (cnt : Nat) (puts : List Bool) (seg rest : List RxEvent)
    (ret : XmodemRecvRet) (out : Option (Option Int)) (cnt' : Nat) (puts' : List Bool)
    (q e : List IoEvent) : Prop where
  notOk : ret ≠ .ok
  record : q = [] ∨ (∃ b, q = [.header b]) ∨ ∃ ok, q = [.header eot,.put ack ok]
  refusals : Refusals e
  negative : ∀ v, out = some (some v) → v < 0
  retries : out = none → cnt ≤ 11 → cnt' ≤ 11
  silent : out = none → seg = [] → rest = [] ∧ cnt' = cnt + 1 ∧ cnt ≤ 10
  run : ∀ (block : Mem) (rest' : List RxEvent) (sends : List SendRet) (trace : List IoEvent)
    (total : Int), (rest = [] → rest' = []) → ∃ block' frame, fputBody xmodemReceiveBlock
      ⟨⟨seg ++ rest', puts, sends, trace⟩, bn, block, cnt, total⟩ = goOn out
      ⟨⟨rest', puts', sends, trace ++ (q ++ .received ret frame :: e)⟩, bn, block', cnt', total⟩

theorem round_rejects {bn : UInt8} {puts puts' : List Bool} {seg rest : List RxEvent}
    {ret : XmodemRecvRet} {q : List IoEvent} (h : Rejects bn puts seg rest ret puts' q) (cnt : Nat) :
    ∃ out cnt' puts'' e, RejectRound bn cnt puts seg rest ret out cnt' puts'' q e := by
  have hnak : nak ≠ ack := by decide
  obtain ⟨notOk,silent,record,run⟩ := h
  cases ret with
  | ok => exact absurd rfl notOk
  | retry =>
    by_cases hc : 10 < cnt
    · obtain ⟨puts'',e,he,hcancel⟩ := transmitCancel_eq puts'
      refine ⟨some (some (-1)),cnt + 1,puts'',e,notOk,record,he,by simp,by simp,by simp,?_⟩
      intro block rest' sends trace total hr
      obtain ⟨block',hb⟩ := run block rest' sends trace hr
      refine ⟨block',block'.read 0 132,?_⟩
      simp only [fputBody,receive,hb,Io.log,if_pos hc,hcancel,goOn,List.append_assoc]
      rfl
    · refine ⟨none,cnt + 1,puts'.tail,[.put nak (puts'.headD true)],notOk,record,
        refusals_cons hnak _ refusals_nil,by simp,fun _ _ => by omega,
        fun _ h => ⟨(silent h).1,rfl,by omega⟩,?_⟩
      intro block rest' sends trace total hr
      obtain ⟨block',hb⟩ := run block rest' sends trace hr
      refine ⟨block',block'.read 0 132,?_⟩
      simp only [fputBody,receive,hb,Io.log,if_neg hc,goOn,xmodemReceiveReqCurrentBlock,xmodemSendNak,
        putByte_eq,List.append_assoc]
      rfl
  | finished | canceled =>
    refine ⟨some none,cnt,puts',[],notOk,record,refusals_nil,by simp,by simp,by simp,?_⟩
    intro block rest' sends trace total hr
    obtain ⟨block',hb⟩ := run block rest' sends trace hr
    refine ⟨block',block'.read 0 132,?_⟩
    simp only [fputBody,receive,hb,Io.log,goOn,List.append_assoc]
  | dup | failed | timeout | other =>
    refine ⟨none,cnt,puts',[],notOk,record,refusals_nil,by simp,fun _ h => h,
      fun _ h => absurd (silent h).2 (by simp),?_⟩
    intro block rest' sends trace total hr
    obtain ⟨block',hb⟩ := run block rest' sends trace hr
    refine ⟨block',block'.read 0 132,?_⟩
    simp only [fputBody,receive,hb,Io.log,goOn,List.append_assoc]

theorem round_cases (bn : UInt8) (cnt : Nat) (puts : List Bool) (rx : List RxEvent) :
    (∃ frame rest, rx = bytes frame ++ rest ∧ IsFrame (bn + 1) frame) ∨
      ∃ seg rest ret out cnt' puts' q e, rx = seg ++ rest ∧
        RejectRound bn cnt puts seg rest ret out cnt' puts' q e := by
  rcases receive_cases bn puts rx with h | ⟨seg,rest,ret,puts',q,rfl,h⟩
  · exact .inl h
  · obtain ⟨out,cnt',puts'',e,hr⟩ := round_rejects h cnt
    exact .inr ⟨seg,rest,ret,out,cnt',puts'',q,e,rfl,hr⟩

/-- Every round takes something from the line, or counts one more of the retries. -/
def roundsLeft (s : CbState) : Nat :=
  s.io.rx.length + if s.io.rx = [] then 12 - s.cntRetry else 12

theorem roundsLeft_le (s : CbState) : roundsLeft s ≤ s.io.rx.length + 12 := by
  simp only [roundsLeft]
  split_ifs <;> omega

theorem roundsLeft_taken {s s' : CbState} (seg : List RxEvent) (hseg : seg ≠ [])
    (h : s.io.rx = seg ++ s'.io.rx) : roundsLeft s' < roundsLeft s := by
  have hle := roundsLeft_le s'
  have hpos := List.length_pos_iff.2 hseg
  have hlen : s.io.rx.length = seg.length + s'.io.rx.length := by rw [h,List.length_append]
  have hs : roundsLeft s = s.io.rx.length + 12 := by
    rw [roundsLeft,if_neg (by rw [h]; simp [hseg])]
  omega

theorem isFrame_ne {bn : UInt8} {frame : List UInt8} (h : IsFrame bn frame) : bytes frame ≠ [] := by
  obtain ⟨bs,rfl,_⟩ := isFrame_cons h
  simp [bytes_cons]

theorem fputBody_decreases {s s' : CbState} (hs : s.cntRetry ≤ 11)
    (h : fputBody xmodemReceiveBlock s = .inl s') :
    s'.cntRetry ≤ 11 ∧ roundsLeft s' < roundsLeft s := by
  obtain ⟨⟨rx,puts,sends,trace⟩,bn,block,cnt,total⟩ := s
  rcases round_cases bn cnt puts rx with ⟨frame,rest,rfl,hf⟩ |
    ⟨seg,rest,ret,out,cnt',puts',q,e,rfl,hr⟩
  · cases hsend : sends.headD .full with
    | taken n le =>
      rw [round_taken hf hsend] at h
      cases h
      exact ⟨Nat.zero_le _,roundsLeft_taken (bytes frame) (isFrame_ne hf) rfl⟩
    | failed errno pos =>
      obtain ⟨_,_,_,hrun⟩ := round_failed hf hsend puts
      rw [hrun] at h
      cases h
  · obtain ⟨block',frame,hrun⟩ := hr.run block rest sends trace total id
    rw [hrun] at h
    cases out with
    | some v => cases h
    | none =>
      cases h
      refine ⟨hr.retries rfl hs,?_⟩
      by_cases hseg : seg = []
      · obtain ⟨hrest,hcnt,hc⟩ := hr.silent rfl hseg
        subst hseg hrest hcnt
        simp only [roundsLeft,List.append_nil,List.length_nil,if_pos]
        omega
      · exact roundsLeft_taken seg hseg rfl

theorem callbackLoop_negative {n : Nat} {s e : CbState} {v : Int}
    (h : loop (fputBody xmodemReceiveBlock) n s = some (some v, e)) : v < 0 := by
  refine loop_inv (fun _ => True) (fun r => ∀ v, r.1 = some v → v < 0) (fun _ _ _ _ => trivial) ?_
    trivial h v rfl
  intro s r _ hr v hv
  obtain ⟨⟨rx,puts,sends,trace⟩,bn,block,cnt,total⟩ := s
  rcases round_cases bn cnt puts rx with ⟨frame,rest,rfl,hf⟩ |
    ⟨seg,rest,ret,out,cnt',puts',q,e,rfl,hround⟩
  · cases hsend : sends.headD .full with
    | taken n le =>
      rw [round_taken hf hsend] at hr
      cases hr
    | failed errno pos =>
      obtain ⟨_,_,_,hrun⟩ := round_failed hf hsend puts
      rw [hrun] at hr
      cases hr
      cases hv
      omega
  · obtain ⟨block',frame,hrun⟩ := hround.run block rest sends trace total id
    rw [hrun] at hr
    cases out with
    | none => cases hr
    | some out =>
      cases hr
      exact hround.negative v (by rw [← hv])

theorem callbackLoop_total (io : Io RxEvent) (bn : UInt8) (block : Mem) (total : Int) :
    ∃ r, loop (fputBody xmodemReceiveBlock) (io.rx.length + 13) ⟨io, bn, block, 0, total⟩ = some r :=
  loop_total (fun s : CbState => s.cntRetry ≤ 11) roundsLeft (fun _ _ => fputBody_decreases)
    (Nat.zero_le 11) (Nat.lt_succ_of_le (roundsLeft_le _))

/-- The errno of a first `send` that fails is returned as a positive number. -/
theorem callback_failed (szFputFile : UInt32) (block : Mem) (rx : List RxEvent) (puts : List Bool)
    {sends : List SendRet} {errno : Nat} {pos : 0 < errno}
    (hs : sends.headD .full = .failed errno pos) (trace : List IoEvent) :
    cmdFputSendCb szFputFile block ⟨rx, puts, sends, trace⟩ = some ⟨errno, block,
      ⟨rx, puts, sends.tail, trace ++ [IoEvent.send (block.read 3 128) (.failed errno pos)]⟩⟩ := by
  have hneg : -(errno : Int) < 0 := by omega
  simp only [cmdFputSendCb,cmdFputSendCbWith,sendChunkedData,hs,SendRet.value,if_pos hneg,Int.neg_neg]
  rfl

theorem uint32_int32 (n : Int) : uint32 (int32 n) = n % 2 ^ 32 := by
  simp only [uint32,int32]
  exact Int.bmod_emod

theorem finish_eq (fileSize : UInt32) (e : CbState) : fputFinish fileSize e =
    if uint32 e.totalSent < fileSize.toNat then ⟨int32 e.totalSent, e.block, e.io.log .close⟩
    else ⟨int32 e.totalSent, e.block, e.io⟩ := by
  have hmod : uint32 (int32 e.totalSent) = uint32 e.totalSent := uint32_int32 _
  have hzero : ¬ sendChunkedEnd < 0 := by decide
  have hadd : e.totalSent + sendChunkedEnd = e.totalSent := Int.add_zero _
  simp only [fputFinish,if_neg hzero,hadd,hmod]

def firstRecord (block : Mem) (sends : List SendRet) (puts : List Bool) : List IoEvent :=
  [.send (block.read 3 128) (sends.headD .full),.put ack (puts.headD true)]

theorem firstRecord_handed (block : Mem) (sends : List SendRet) (puts : List Bool) :
    handed (firstRecord block sends puts) = [block.read 3 128] := rfl

theorem firstRecord_frames (block : Mem) (sends : List SendRet) (puts : List Bool) :
    acceptedFrames (firstRecord block sends puts) = [] := rfl

def cbStart (block : Mem) (rx : List RxEvent) (puts : List Bool) (sends : List SendRet)
    (trace : List IoEvent) : CbState :=
  ⟨⟨rx, puts.tail, sends.tail, trace ++ firstRecord block sends puts⟩, 1, block, 0,
    int32 (sends.headD .full).count⟩

def cbEnd (szFputFile : UInt32) (r : Option Int × CbState) : FputCb RxEvent :=
  match r.1 with
  | some ret => ⟨ret, r.2.block, r.2.io⟩
  | none => fputFinish szFputFile r.2

theorem callback_taken (szFputFile : UInt32) (block : Mem) (rx : List RxEvent) (puts : List Bool)
    {sends : List SendRet} {n : Nat} {le : n ≤ 128} (hs : sends.headD .full = .taken n le)
    (trace : List IoEvent) :
    cmdFputSendCb szFputFile block ⟨rx, puts, sends, trace⟩ =
      (loop (fputBody xmodemReceiveBlock) (rx.length + 13) (cbStart block rx puts sends trace)).map
        (cbEnd szFputFile) := by
  have hneg : ¬ ((n : Int) < 0) := by omega
  simp only [cbStart,firstRecord,hs]
  simp only [cmdFputSendCb,cmdFputSendCbWith,sendChunkedData,hs,SendRet.value,if_neg hneg,
    xmodemReceiveReqNextBlock,xmodemSendAck,Io.log,putByte_eq,List.append_assoc,List.singleton_append,
    SendRet.count]
  rw [Option.map_eq_bind]
  congr 1
  funext r
  obtain ⟨out,s⟩ := r
  cases out <;> rfl

theorem cbStart_total (block : Mem) (rx : List RxEvent) (puts : List Bool) (sends : List SendRet)
    (trace : List IoEvent) : ∃ r, loop (fputBody xmodemReceiveBlock) (rx.length + 13)
      (cbStart block rx puts sends trace) = some r :=
  callbackLoop_total ⟨rx, puts.tail, sends.tail, _⟩ 1 block _

theorem cmdFputSendCb_total (szFputFile : UInt32) (block : Mem) (io : Io RxEvent) :
    ∃ cb, cmdFputSendCb szFputFile block io = some cb := by
  obtain ⟨rx,puts,sends,trace⟩ := io
  cases hs : sends.headD .full with
  | failed errno pos => exact ⟨_,callback_failed szFputFile block rx puts hs trace⟩
  | taken n le =>
    obtain ⟨r,hr⟩ := cbStart_total block rx puts sends trace
    rw [callback_taken szFputFile block rx puts hs trace,hr]
    exact ⟨_,rfl⟩

/-- The first block is left in the buffer for the payload callback. -/
theorem firstRound_frame {frame : List UInt8} {bn : UInt8} (hf : IsFrame (bn + 1) frame)
    (rest : List RxEvent) (puts : List Bool) (sends : List SendRet) (trace : List IoEvent)
    (block : Mem) (cnt : Nat) (total : Int) :
    firstBody xmodemReceiveBlock ⟨⟨bytes frame ++ rest, puts, sends, trace⟩, bn, block, cnt, total⟩ =
      .inr (.received, ⟨⟨rest, puts, sends, trace ++ [IoEvent.header soh,.received .ok frame]⟩, bn + 1,
        block.copy 0 frame, cnt, total⟩) := by
  simp only [firstBody,receive,receive_frame hf,Io.log,read_copy_all block hf.length,
    List.append_assoc]
  rfl

def startRecord (puts : List Bool) : List IoEvent :=
  [.echo false,.clearReceiveQueue,.put nak (puts.headD true)]

def sessionStart (block : Mem) (rx : List RxEvent) (puts : List Bool) (sends : List SendRet) :
    CbState := ⟨⟨rx, puts.tail, sends, startRecord puts⟩, 0, block, 0, 0⟩

section
variable (args : FputArgs) (course : UploadCourse) (block : Mem) (rx : List RxEvent)
  {puts : List Bool} (sends : List SendRet)

theorem fputSession_noStart (h : puts.headD true = false) :
    fputSession xmodemReceiveBlock args course block ⟨rx, puts, sends, []⟩ =
      some ⟨.error (-1), none, ⟨rx, puts.tail, sends, startRecord puts⟩⟩ := by
  simp only [fputSession,xmodemReceiveStart,xmodemSendNak,xmodemBegin,uartBrokerSetEcho,
    uartBrokerClearReceiveQueue,Io.log,putByte_eq,startRecord,h]
  rfl

theorem fputSession_refused (h : puts.headD true = true) {first : FirstBlock} {s : CbState}
    (hloop : loop (firstBody xmodemReceiveBlock) 12 (sessionStart block rx puts sends) =
      some (first, s)) (hfirst : first ≠ .received) :
    fputSession xmodemReceiveBlock args course block ⟨rx, puts, sends, []⟩ =
      some ⟨.ok cmdCreateResNg, none, xmodemEnd s.io⟩ := by
  rw [sessionStart,startRecord] at hloop
  have hret : ¬ ((0 : Int) < 0) := by omega
  simp only [fputSession,xmodemReceiveStart,xmodemSendNak,xmodemBegin,uartBrokerSetEcho,
    uartBrokerClearReceiveQueue,Io.log,putByte_eq,h,if_pos,if_neg hret,List.nil_append,
    List.cons_append] at hloop ⊢
  rw [hloop]
  cases first with
  | received => exact absurd rfl hfirst
  | _ => rfl

theorem fputSession_received (h : puts.headD true = true) {s : CbState}
    (hloop : loop (firstBody xmodemReceiveBlock) 12 (sessionStart block rx puts sends) =
      some (.received, s)) {up : Upload RxEvent}
    (hup : sipfFileUpload course (cmdFputSendCb args.fileSize) (int32 args.fileSize.toNat) s.block
      s.io = some up) :
    fputSession xmodemReceiveBlock args course block ⟨rx, puts, sends, []⟩ =
      some ⟨.ok (if up.ret < 0 then cmdCreateResNg else cmdFputOkRes args.fileSize), some up,
        xmodemEnd up.io⟩ := by
  rw [sessionStart,startRecord] at hloop
  have hret : ¬ ((0 : Int) < 0) := by omega
  have hcb : cmdFputSendCbWith xmodemReceiveBlock args.fileSize = cmdFputSendCb args.fileSize := rfl
  simp only [fputSession,xmodemReceiveStart,xmodemSendNak,xmodemBegin,uartBrokerSetEcho,
    uartBrokerClearReceiveQueue,Io.log,putByte_eq,h,if_pos,if_neg hret,List.nil_append,
    List.cons_append] at hloop ⊢
  rw [hloop]
  simp only [Option.bind_eq_bind,Option.bind_some,hcb,hup]

end

end SipfClient.Xmodem
