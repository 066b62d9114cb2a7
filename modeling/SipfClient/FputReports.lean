import SipfClient.SocketRelease
set_option autoImplicit false

/-!
What the payload callback of `$$FPUT` tells the HTTP client. The client takes any result
that is not negative for a success, so a failure has to come back negative.
-/

namespace SipfClient.Xmodem
open ByteMem

structure Complete (fileSize : UInt32) (ev : List IoEvent) : Prop where
  sends : ∀ ret ∈ sendResults ev, ret = .full
  eot : (outcomes ev).getLast? = some .finished
  size : fileSize.toNat ≤ (socketBytes ev).length

/-- A CAN, a short write, or fewer bytes than the file has. -/
def Faulty (fileSize : UInt32) (sends : List SendRet) (results : List XmodemRecvRet) : Prop :=
  results.getLast? = some .canceled ∨ (∃ c ∈ counts sends (results.count .ok + 1), c < 128) ∨
    takenTotal sends results < fileSize.toNat

/-- The failures that come back as a success: of the first `send`, whose errno is negated
twice, and of a transfer the peer has ended, if the sum of its bytes is no negative `int`. -/
def Unreported (fileSize : UInt32) (sends : List SendRet) (results : List XmodemRecvRet) : Prop :=
  (∃ errno pos, sends.headD .full = .failed errno pos) ∨
    PeerEnds results ∧ 0 ≤ int32 (takenTotal sends results) ∧ Faulty fileSize sends results

theorem full_iff (ret : SendRet) : ret = .full ↔ ret.count = 128 := by
  cases ret with
  | taken n le => simp [SendRet.full,SendRet.count]
  | failed errno pos => simp [SendRet.full,SendRet.count]

theorem taken_not_failed {sends : List SendRet} {n : Nat} {le : n ≤ 128}
    (h : sends.headD .full = .taken n le) :
    ¬ ∃ errno pos, sends.headD .full = .failed errno pos := by
  rintro ⟨errno,pos,hs⟩
  rw [h] at hs
  cases hs

theorem not_faulty_iff {fileSize : UInt32} {sends : List SendRet} {results : List XmodemRecvRet}
    (h : PeerEnds results) : ¬ Faulty fileSize sends results ↔
      (∀ c ∈ counts sends (results.count .ok + 1), c = 128) ∧
        results.getLast? = some .finished ∧ fileSize.toNat ≤ takenTotal sends results := by
  constructor
  · intro hnot
    refine ⟨fun c hc => ?_,h.resolve_right fun hcan => hnot (.inl hcan),?_⟩
    · have hle := counts_le sends _ c hc
      have hge : ¬ c < 128 := fun hlt => hnot (.inr (.inl ⟨c,hc,hlt⟩))
      omega
    · exact not_lt.1 fun hlt => hnot (.inr (.inr hlt))
  · rintro ⟨hcounts,heot,hsize⟩ (hcan | ⟨c,hc,hlt⟩ | hlt)
    · rw [heot] at hcan
      cases hcan
    · have := hcounts c hc
      omega
    · omega

section Ends

variable {fileSize : UInt32} {sends : List SendRet} {n : Nat} {le : n ≤ 128} {data : List UInt8}
  {ev e : List IoEvent}

theorem ends_sends (ok : Bool) (hs : sends.headD .full = .taken n le) (h : Ended sends.tail ev)
    (he : sendResults e = []) :
    (sendResults (.send data (.taken n le) :: .put ack ok :: ev ++ e)).map SendRet.count =
      counts sends ((outcomes ev).count .ok + 1) := by
  rw [sendResults_append,he,List.append_nil,counts_succ,hs]
  exact congrArg (List.cons n) h.sends

theorem complete_iff {trace : List IoEvent} (hends : PeerEnds (outcomes trace))
    (hsends : (sendResults trace).map SendRet.count =
      counts sends ((outcomes trace).count .ok + 1))
    (hbytes : (socketBytes trace).length = takenTotal sends (outcomes trace)) :
    Complete fileSize trace ↔ ¬ Faulty fileSize sends (outcomes trace) := by
  rw [not_faulty_iff hends,← hsends,← hbytes,List.forall_mem_map]
  constructor
  · intro h
    exact ⟨fun ret hret => (full_iff ret).1 (h.sends ret hret),h.eot,h.size⟩
  · rintro ⟨hcounts,heot,hsize⟩
    exact ⟨fun ret hret => (full_iff ret).2 (hcounts ret hret),heot,hsize⟩

end Ends

theorem cbCourse_reports {fileSize : UInt32} {sends : List SendRet} {ret : Int}
    {ev : List IoEvent} (h : CbCourse fileSize sends ret ev) :
    (0 ≤ ret → Complete fileSize ev) ↔ ¬ Unreported fileSize sends (outcomes ev) := by
  cases h with
  | @firstFails errno pos data hs =>
    have hnot : ¬ Complete fileSize [.send data (.failed errno pos)] := by
      intro h
      cases h.sends (.failed errno pos) (by simp [sendResults,sendResult])
    exact ⟨fun h => absurd (h (Int.natCast_nonneg errno)) hnot,
      fun h => absurd (.inl ⟨errno,pos,hs⟩) h⟩
  | @leaves n le data v ev ok hs hev h =>
    have hneg := h.negative
    refine ⟨fun _ => ?_,fun _ hret => absurd hret (not_le.2 hneg)⟩
    rintro (hfailed | ⟨hends,-⟩)
    · exact taken_not_failed hs hfailed
    · exact h.not_peerEnds hends
  | @ends n le data ev ok hs hev h hbytes =>
    have hout := outcomes_ends data (.taken n le) ok
      (takenTotal sends (outcomes ev) % 2 ^ 32 < fileSize.toNat) ev
    have htail : ∀ short : Prop, [Decidable short] →
        sendResults (if short then [IoEvent.close] else []) = [] ∧
          socketBytes (if short then [IoEvent.close] else []) = [] := by
      intro short _
      split_ifs <;> exact ⟨rfl,rfl⟩
    obtain ⟨hsend,hbyte⟩ := htail (takenTotal sends (outcomes ev) % 2 ^ 32 < fileSize.toNat)
    have hcomplete := @complete_iff fileSize sends (.send data (.taken n le) :: .put ack ok :: ev ++
        if takenTotal sends (outcomes ev) % 2 ^ 32 < fileSize.toNat then [IoEvent.close] else [])
      (by rw [hout]; exact h.peerEnds) (by rw [hout]; exact ends_sends ok hs h hsend)
      (by rw [hout,socketBytes_append,hbyte,List.append_nil]; exact hbytes)
    rw [hcomplete,Unreported,not_or,hout]
    constructor
    · intro hfault
      exact ⟨taken_not_failed hs,fun hends => hfault hends.2.1 hends.2.2⟩
    · intro hnot hret hf
      exact hnot.2 ⟨h.peerEnds,hret,hf⟩

/-- The callback reports a transfer that is not whole as a failure exactly if its first
`send` has not failed and the peer has not ended it otherwise than whole. -/
theorem callback_reports_failures_iff (fileSize : UInt32) (block : Mem) (io : Io RxEvent) :
    ∃ cb ev, cmdFputSendCb fileSize block io = some cb ∧ cb.io.trace = io.trace ++ ev ∧
      ((0 ≤ cb.ret → Complete fileSize ev) ↔ ¬ Unreported fileSize io.sends (outcomes ev)) := by
  obtain ⟨cb,ev,hcb,hext,hcourse⟩ := callback_course fileSize block io
  exact ⟨cb,ev,hcb,hext.trace,cbCourse_reports hcourse⟩

/-- The first `send` fails with errno 104, and the callback returns 104. -/
theorem failed_first_send_succeeds : ∃ cb ev,
    cmdFputSendCb 128 paddedBlock ⟨[], [], [.failed 104 (by decide)], []⟩ = some cb ∧
      cb.io.trace = [] ++ ev ∧ cb.ret = 104 ∧ ¬ (0 ≤ cb.ret → Complete 128 ev) := by
  refine ⟨_,_,rfl,rfl,rfl,fun h => ?_⟩
  have hsends := (h (by decide)).sends (.failed 104 (by decide)) (by decide)
  cases hsends

end SipfClient.Xmodem
