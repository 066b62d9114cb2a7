import SipfClient.FgetLaws
set_option autoImplicit false

namespace SipfClient.Xmodem

def queuedByte : IoEvent → Option UInt8
  | .put b true => some b
  | _ => none

def queuedBytes (trace : List IoEvent) : List UInt8 := trace.filterMap queuedByte

theorem queuedBytes_append (a b : List IoEvent) :
    queuedBytes (a ++ b) = queuedBytes a ++ queuedBytes b := List.filterMap_append

section Put

variable {ρ : Type}

theorem put_taken {b : UInt8} {io : Io ρ} (h : (uartBrokerPutByte b io).1 = true) (bs : List UInt8) :
    uartBrokerPut (b :: bs) io = ((uartBrokerPut bs (uartBrokerPutByte b io).2).1 + 1,
      (uartBrokerPut bs (uartBrokerPutByte b io).2).2) := by
  simp only [uartBrokerPut,h,if_true]

theorem put_refused {b : UInt8} {io : Io ρ} (h : (uartBrokerPutByte b io).1 = false)
    (bs : List UInt8) : uartBrokerPut (b :: bs) io = (0, (uartBrokerPutByte b io).2) := by
  simp only [uartBrokerPut,h,Bool.false_eq_true,if_false]

theorem putByte_trace (b : UInt8) (io : Io ρ) : (uartBrokerPutByte b io).2.trace =
    io.trace ++ [IoEvent.put b (uartBrokerPutByte b io).1] := rfl

theorem puts_taken {puts : List Bool} (h : puts.headD true = true) (n : Nat) :
    false ∉ puts.take (n + 1) ↔ false ∉ puts.tail.take n := by
  cases puts with
  | nil => simp
  | cons ok puts =>
    obtain rfl : ok = true := h
    simp

theorem puts_refused {puts : List Bool} (h : puts.headD true = false) (n : Nat) :
    false ∈ puts.take (n + 1) := by
  cases puts with
  | nil => cases h
  | cons ok puts =>
    obtain rfl : ok = false := h
    simp

theorem put_whole_iff (bs : List UInt8) (io : Io ρ) :
    (uartBrokerPut bs io).1 = bs.length ↔ false ∉ io.puts.take bs.length := by
  induction bs generalizing io with
  | nil => simp [uartBrokerPut]
  | cons b bs ih =>
    rw [List.length_cons]
    cases hok : (uartBrokerPutByte b io).1 with
    | false =>
      rw [put_refused hok]
      exact iff_of_false (Nat.succ_ne_zero _).symm (not_not.2 (puts_refused hok _))
    | true =>
      rw [put_taken hok,Nat.add_right_cancel_iff,puts_taken hok]
      exact ih (uartBrokerPutByte b io).2

theorem put_queues (bs : List UInt8) (io : Io ρ) : ∃ ev,
    (uartBrokerPut bs io).2.trace = io.trace ++ ev ∧
      queuedBytes ev = bs.take (uartBrokerPut bs io).1 ∧ (uartBrokerPut bs io).2.rx = io.rx := by
  induction bs generalizing io with
  | nil => exact ⟨[],(List.append_nil _).symm,rfl,rfl⟩
  | cons b bs ih =>
    have hone := putByte_trace b io
    cases hok : (uartBrokerPutByte b io).1 with
    | false =>
      rw [put_refused hok]
      rw [hok] at hone
      exact ⟨[.put b false],hone,rfl,rfl⟩
    | true =>
      obtain ⟨ev,htrace,hqueued,hrx⟩ := ih (uartBrokerPutByte b io).2
      rw [put_taken hok]
      rw [hok] at hone
      refine ⟨.put b true :: ev,?_,?_,hrx⟩
      · rw [htrace,hone,List.append_assoc]
        rfl
      · rw [List.take_succ_cons,← hqueued]
        rfl

end Put

theorem sendRet_failed_iff (reply : RxEvent) : sendRet reply = .failed ↔ Refused reply := by
  constructor
  · exact sendRet_means
  · rintro ⟨htm,hack,hnak,hcan⟩
    cases hret : sendRet reply with
    | failed => rfl
    | ok => exact absurd (sendRet_means hret) hack
    | retry => exact absurd (sendRet_means hret) hnak
    | canceled => exact absurd (sendRet_means hret) hcan
    | timeout => exact absurd (sendRet_means hret) htm

/-- OK is given only for a frame that was queued as a whole, and a part of a frame is a
failure. -/
def NoticesPartial (bn : UInt8) (payload : List UInt8) (io : Io RxEvent) : Prop :=
  ∃ ev, (xmodemSendBlock bn payload io).2.trace = io.trace ++ ev ∧
    ((xmodemSendBlock bn payload io).1 = .ok → queuedBytes ev = xmodemFrame bn payload) ∧
    (queuedBytes ev ≠ xmodemFrame bn payload → (xmodemSendBlock bn payload io).1 = .failed)

section Send

variable {bn : UInt8} {payload : List UInt8} {io : Io RxEvent}

theorem sendBlock_long (h : xmodemSzBlock < payload.length) :
    xmodemSendBlock bn payload io = (.failed, io) := by
  rw [xmodemSendBlock,if_pos h]

theorem sendBlock_queues (h : payload.length ≤ xmodemSzBlock) : ∃ ev,
    (xmodemSendBlock bn payload io).2.trace = io.trace ++ ev ∧
      (xmodemSendBlock bn payload io).1 = sendRet (io.rx.headD .timeout) ∧
      (queuedBytes ev = xmodemFrame bn payload ↔ false ∉ io.puts.take 132) := by
  obtain ⟨ev,htrace,hqueued,hrx⟩ := put_queues (xmodemFrame bn payload) io
  have hwhole := put_whole_iff (xmodemFrame bn payload) io
  rw [frame_length bn h] at hwhole
  refine ⟨ev ++ [.sent (xmodemFrame bn payload) (uartBrokerPut (xmodemFrame bn payload) io).1
    (io.rx.headD .timeout)],?_,?_,?_⟩
  · simp only [xmodemSendBlock,if_neg (Nat.not_lt.2 h),Io.log_trace,uartBrokerGetByteTm,hrx,htrace,
      List.append_assoc]
  · simp only [xmodemSendBlock,if_neg (Nat.not_lt.2 h),uartBrokerGetByteTm,hrx]
  · rw [queuedBytes_append,hqueued,← hwhole,← frame_length bn h]
    have hsent : ∀ q r, queuedBytes [.sent (xmodemFrame bn payload) q r] = [] := fun _ _ => rfl
    rw [hsent,List.append_nil,List.take_eq_self_iff]
    have hle := (uartBrokerPut_quiet (xmodemFrame bn payload) io).1
    omega

end Send

/-- A partial frame is noticed exactly if there is none, or if the reply that waits in the
receive queue is a failure of its own. -/
theorem partial_noticed_iff (bn : UInt8) (payload : List UInt8) (io : Io RxEvent) :
    NoticesPartial bn payload io ↔
      128 < payload.length ∨ false ∉ io.puts.take 132 ∨ Refused (io.rx.headD .timeout) := by
  rcases Nat.lt_or_ge 128 payload.length with hlong | hshort
  · refine iff_of_true ⟨[],?_,?_,?_⟩ (.inl hlong)
    · rw [sendBlock_long hlong,List.append_nil]
    · rw [sendBlock_long hlong]
      exact fun h => by cases h
    · rw [sendBlock_long hlong]
      exact fun _ => rfl
  · obtain ⟨ev,htrace,hret,hwhole⟩ := @sendBlock_queues bn payload io hshort
    constructor
    · rintro ⟨ev',htrace',-,hfailed⟩
      obtain rfl := List.append_cancel_left (htrace.symm.trans htrace')
      by_cases hputs : false ∉ io.puts.take 132
      · exact .inr (.inl hputs)
      · have hpart := hfailed fun h => hputs (hwhole.1 h)
        rw [hret,sendRet_failed_iff] at hpart
        exact .inr (.inr hpart)
    · rintro (h | hputs | hreply)
      · exact absurd h (Nat.not_lt.2 hshort)
      · have hall := hwhole.2 hputs
        exact ⟨ev,htrace,fun _ => hall,fun hne => absurd hall hne⟩
      · have hfailed := (sendRet_failed_iff _).2 hreply
        refine ⟨ev,htrace,?_,fun _ => hret.trans hfailed⟩
        rw [hret,hfailed]
        exact fun h => by cases h

/-- Not one byte is queued, and the ACK that waits is taken for the answer. -/
theorem partial_unnoticed :
    (xmodemSendBlock 1 [0x41] ⟨[.byte ack], [false], [], []⟩).1 = .ok ∧
      queuedBytes (xmodemSendBlock 1 [0x41] ⟨[.byte ack], [false], [], []⟩).2.trace = [] ∧
      ¬ NoticesPartial 1 [0x41] ⟨[.byte ack], [false], [], []⟩ := by
  refine ⟨by decide +kernel,by decide +kernel,?_⟩
  rintro ⟨ev,htrace,hok,-⟩
  have hall := hok (by decide +kernel)
  rw [List.nil_append] at htrace
  rw [← htrace] at hall
  exact absurd hall (by decide +kernel)

end SipfClient.Xmodem
