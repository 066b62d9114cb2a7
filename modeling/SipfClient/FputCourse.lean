import SipfClient.FputBodyLaws
import SipfClient.FputOrderLaws
set_option autoImplicit false

/-!
The records a `$$FPUT` can leave. Each receiving loop has a grammar of what its rounds
record, however the puts, the receptions and the sends come out; the laws about the
socket, the result and the peer of a transfer are read off it.
-/

namespace SipfClient.Xmodem
open ByteMem Loops ShortWrites Http Command

def AllQueued (puts : List Bool) : Prop := ∀ ok ∈ puts, ok = true

theorem AllQueued.head {puts : List Bool} (h : AllQueued puts) : puts.headD true = true := by
  cases puts with
  | nil => rfl
  | cons ok puts => exact h ok List.mem_cons_self

theorem AllQueued.tail {puts : List Bool} (h : AllQueued puts) : AllQueued puts.tail :=
  fun ok hok => h ok (List.mem_of_mem_tail hok)

def NoneLost (ev : List IoEvent) : Prop := ∀ b ok, IoEvent.put b ok ∈ ev → ok = true

theorem NoneLost.append {a b : List IoEvent} (ha : NoneLost a) (hb : NoneLost b) :
    NoneLost (a ++ b) := by
  intro c ok h
  rcases List.mem_append.1 h with h | h
  · exact ha c ok h
  · exact hb c ok h

structure Extends {ρ : Type} (io io' : Io ρ) (ev : List IoEvent) : Prop where
  trace : io'.trace = io.trace ++ ev
  queued : AllQueued io.puts → AllQueued io'.puts ∧ NoneLost ev

section Extensions

variable {ρ : Type}

theorem Extends.refl (io : Io ρ) : Extends io io [] :=
  ⟨(List.append_nil _).symm,fun h => ⟨h,fun _ _ hmem => absurd hmem List.not_mem_nil⟩⟩

theorem Extends.trans {io io' io'' : Io ρ} {a b : List IoEvent} (h : Extends io io' a)
    (h' : Extends io' io'' b) : Extends io io'' (a ++ b) := by
  refine ⟨by rw [h'.trace,h.trace,List.append_assoc],fun hall => ?_⟩
  obtain ⟨hputs,ha⟩ := h.queued hall
  obtain ⟨hputs',hb⟩ := h'.queued hputs
  exact ⟨hputs',ha.append hb⟩

theorem extends_log (io : Io ρ) {x : IoEvent} (hx : ∀ b ok, x ≠ .put b ok) :
    Extends io (io.log x) [x] := by
  refine ⟨rfl,fun h => ⟨h,fun b ok hmem => ?_⟩⟩
  exact absurd (List.mem_singleton.1 hmem).symm (hx b ok)

theorem extends_put (b : UInt8) (io : Io ρ) :
    Extends io (uartBrokerPutByte b io).2 [.put b (io.puts.headD true)] := by
  refine ⟨rfl,fun h => ⟨h.tail,fun c ok hmem => ?_⟩⟩
  cases List.mem_singleton.1 hmem
  exact h.head

def cancelRecord (puts : List Bool) : List IoEvent :=
  if puts.headD true then [.put can true,.put can (puts.tail.headD true)] else [.put can false]

theorem transmitCancel_puts (io : Io ρ) : (xmodemTransmitCancel io).2 =
    if io.puts.headD true then (uartBrokerPutByte can (uartBrokerPutByte can io).2).2
    else (uartBrokerPutByte can io).2 := by
  obtain ⟨rx,puts,sends,trace⟩ := io
  cases puts with
  | nil => rfl
  | cons ok puts => cases ok <;> rfl

theorem extends_cancel (io : Io ρ) :
    Extends io (xmodemTransmitCancel io).2 (cancelRecord io.puts) := by
  have hfirst := extends_put can io
  rw [transmitCancel_puts,cancelRecord]
  cases hp : io.puts.headD true with
  | false =>
    rw [hp] at hfirst
    exact hfirst
  | true =>
    rw [hp] at hfirst
    exact hfirst.trans (extends_put can _)

theorem cancel_sends (io : Io ρ) : (xmodemTransmitCancel io).2.sends = io.sends := by
  rw [transmitCancel_puts]
  split_ifs <;> rfl

end Extensions

section Receptions

def listening : IoEvent → Bool
  | .header _ => true
  | .put b _ => b = ack
  | _ => false

def Listening (q : List IoEvent) : Prop := ∀ x ∈ q, listening x = true

theorem Listening.not_mem {q : List IoEvent} (h : Listening q) {x : IoEvent}
    (hx : listening x = false) : x ∉ q :=
  fun hmem => absurd (h x hmem) (by rw [hx]; decide)

def EndedBy (ret : XmodemRecvRet) (q : List IoEvent) : Prop :=
  ret = .finished ∧ .header eot ∈ q ∨ ret = .canceled ∧ .header can ∈ q

structure Heard (io : Io RxEvent) (r : Recv RxEvent) (q : List IoEvent) : Prop where
  extend : Extends io r.io q
  sends : r.io.sends = io.sends
  listening : Listening q
  ended : r.ret = .finished ∨ r.ret = .canceled → EndedBy r.ret q

theorem heard_open {io : Io RxEvent} {r : Recv RxEvent} {q : List IoEvent}
    (extend : Extends io r.io q) (sends : r.io.sends = io.sends) (listening : Listening q)
    (hfin : r.ret ≠ .finished) (hcan : r.ret ≠ .canceled) : Heard io r q :=
  ⟨extend,sends,listening,fun h => h.elim (absurd · hfin) (absurd · hcan)⟩

theorem listening_header (b : UInt8) : Listening [.header b] :=
  fun _ hx => List.mem_singleton.1 hx ▸ rfl

theorem extends_header (rx rx' : List RxEvent) (puts : List Bool) (sends : List SendRet)
    (trace : List IoEvent) (b : UInt8) :
    Extends (⟨rx, puts, sends, trace⟩ : Io RxEvent) ⟨rx', puts, sends, trace ++ [IoEvent.header b]⟩
      [.header b] :=
  ⟨rfl,fun h => ⟨h,fun _ _ hmem => nomatch List.mem_singleton.1 hmem⟩⟩

theorem acceptBlock_heard (bn : UInt8) (block : Mem) (io : Io RxEvent) :
    (acceptBlock bn block io).io = io ∧ (acceptBlock bn block io).ret ≠ .finished ∧
      (acceptBlock bn block io).ret ≠ .canceled := by
  simp only [acceptBlock]
  split_ifs <;> simp

section Bytes

variable (bn : UInt8) (block : Mem) (rx : List RxEvent) (puts : List Bool) (sends : List SendRet)
  (trace : List IoEvent)

theorem heard_soh : Heard ⟨.byte soh :: rx, puts, sends, trace⟩
    (xmodemReceiveBlock bn block ⟨.byte soh :: rx, puts, sends, trace⟩) [.header soh] := by
  obtain ⟨bs,tail,rfl,hbs | ⟨hbs,hstop⟩⟩ := rx_split 131 rx
  · have hwhole := receive_whole bn block hbs tail puts sends trace
    rw [bytes_cons,List.cons_append] at hwhole
    rw [hwhole]
    obtain ⟨hio,hfin,hcan⟩ := acceptBlock_heard bn (block.copy 0 (soh :: bs))
      ⟨tail, puts, sends, trace ++ [IoEvent.header soh]⟩
    exact heard_open (by rw [hio]; exact extends_header _ _ _ _ _ _) (by rw [hio])
      (listening_header soh) hfin hcan
  · have hcut := receive_cut bn block hbs hstop puts sends trace
    rw [bytes_cons,List.cons_append] at hcut
    rw [hcut]
    exact heard_open (extends_header _ _ _ _ _ _) rfl (listening_header soh) (by simp) (by simp)

/-- An EOT whose ACK cannot be queued has not ended the transfer. -/
theorem heard_eot : Heard ⟨.byte eot :: rx, puts, sends, trace⟩
    (xmodemReceiveBlock bn block ⟨.byte eot :: rx, puts, sends, trace⟩)
    [.header eot,.put ack (puts.headD true)] := by
  rw [receive_eot]
  refine ⟨⟨rfl,fun h => ⟨AllQueued.tail h,fun c ok hmem => ?_⟩⟩,rfl,by simp [Listening,listening],
    fun h => ?_⟩
  · rw [AllQueued.head h] at hmem
    simp at hmem
    exact hmem.2
  · by_cases hp : puts.headD true = true
    · exact .inl ⟨if_pos hp,List.mem_cons_self⟩
    · rw [if_neg hp] at h
      simp at h

theorem heard_noise {b : UInt8} (hsoh : b ≠ soh) (heot : b ≠ eot) :
    Heard ⟨.byte b :: rx, puts, sends, trace⟩
      (xmodemReceiveBlock bn block ⟨.byte b :: rx, puts, sends, trace⟩) [.header b] := by
  rw [receive_noise bn hsoh heot]
  refine ⟨extends_header _ _ _ _ _ _,rfl,listening_header b,fun h => ?_⟩
  by_cases hc : b = can
  · exact .inr ⟨by simp [hc],by simp [hc]⟩
  · simp [hc] at h

end Bytes

theorem receiveBlock_heard (bn : UInt8) (block : Mem) (io : Io RxEvent) :
    ∃ q, Heard io (xmodemReceiveBlock bn block io) q := by
  obtain ⟨rx,puts,sends,trace⟩ := io
  have hnone : Listening [] := fun _ hx => absurd hx List.not_mem_nil
  have hsilent : ∀ rx' : List RxEvent, Extends (⟨rx, puts, sends, trace⟩ : Io RxEvent)
      ⟨rx', puts, sends, trace⟩ [] := fun rx' => ⟨(Extends.refl _).trace,(Extends.refl ⟨rx', puts,
        sends, trace⟩).queued⟩
  cases rx with
  | nil => exact ⟨[],heard_open (hsilent []) rfl hnone (by simp [xmodemReceiveBlock,
      uartBrokerGetByteTm]) (by simp [xmodemReceiveBlock,uartBrokerGetByteTm])⟩
  | cons e rx =>
    cases e with
    | timeout =>
      rw [receive_timeout]
      exact ⟨[],heard_open (hsilent rx) rfl hnone (by simp) (by simp)⟩
    | fail errno ne => exact ⟨[],heard_open (hsilent rx) rfl hnone (by simp [xmodemReceiveBlock,
        uartBrokerGetByteTm]) (by simp [xmodemReceiveBlock,uartBrokerGetByteTm])⟩
    | byte b =>
      by_cases hsoh : b = soh
      · subst hsoh
        exact ⟨_,heard_soh bn block rx puts sends trace⟩
      by_cases heot : b = eot
      · subst heot
        exact ⟨_,heard_eot bn block rx puts sends trace⟩
      · exact ⟨_,heard_noise bn block rx puts sends trace hsoh heot⟩

end Receptions

section Loops

def ending (ret : XmodemRecvRet) (frame : List UInt8) (e : List IoEvent) : List IoEvent :=
  .received ret frame :: e

/-- What the loop of the payload callback records from a round on, with these results of
`send` to come and this way out of the loop. -/
inductive Course : List SendRet → Option Int → List IoEvent → Prop
  | ended {sends : List SendRet} {q : List IoEvent} {ret : XmodemRecvRet} (frame : List UInt8)
      (hq : Listening q) (hret : EndedBy ret q) : Course sends none (q ++ ending ret frame [])
  | sendFails {sends : List SendRet} {q : List IoEvent} {errno : Nat} {pos : 0 < errno}
      (frame data : List UInt8) (puts : List Bool) (hq : Listening q)
      (hs : sends.headD .full = .failed errno pos) : Course sends (some (-errno))
        (q ++ ending .ok frame (.send data (.failed errno pos) :: cancelRecord puts))
  | retryOver {sends : List SendRet} {q : List IoEvent} (frame : List UInt8) (puts : List Bool)
      (hq : Listening q) : Course sends (some (-1)) (q ++ ending .retry frame (cancelRecord puts))
  | taken {sends : List SendRet} {q ev : List IoEvent} {n : Nat} {le : n ≤ 128}
      {out : Option Int} {data : List UInt8} (frame : List UInt8) (ok : Bool) (hq : Listening q)
      (hs : sends.headD .full = .taken n le) (h : Course sends.tail out ev) :
      Course sends out (q ++ ending .ok frame (.send data (.taken n le) :: .put ack ok :: ev))
  | again {sends : List SendRet} {q ev : List IoEvent} {out : Option Int} (frame : List UInt8)
      (ok : Bool) (hq : Listening q) (h : Course sends out ev) :
      Course sends out (q ++ ending .retry frame (.put nak ok :: ev))
  | passed {sends : List SendRet} {q ev : List IoEvent} {ret : XmodemRecvRet} {out : Option Int}
      (frame : List UInt8) (hq : Listening q) (hok : ret ≠ .ok) (h : Course sends out ev) :
      Course sends out (q ++ ending ret frame ev)

theorem ending_append (q e e' : List IoEvent) (ret : XmodemRecvRet) (frame : List UInt8) :
    q ++ ending ret frame e ++ e' = q ++ ending ret frame (e ++ e') := by
  simp [ending]

theorem receive_extends {io : Io RxEvent} {bn : UInt8} {block : Mem} {q : List IoEvent}
    (h : Heard io (xmodemReceiveBlock bn block io) q) :
    ∃ frame, Extends io (receive xmodemReceiveBlock bn block io).io
      (q ++ ending (receive xmodemReceiveBlock bn block io).ret frame []) :=
  ⟨_,h.extend.trans (extends_log _ (by simp))⟩

theorem extends_send (block : Mem) (io : Io RxEvent) : Extends io (sendChunkedData block io).2
    [.send (block.read 3 128) (io.sends.headD .full)] :=
  ⟨rfl,(extends_log io (x := .send (block.read 3 128) (io.sends.headD .full)) (by simp)).queued⟩

theorem Extends.ending {io io' io'' : Io RxEvent} {q e : List IoEvent} {ret : XmodemRecvRet}
    {frame : List UInt8} (h : Extends io io' (q ++ Xmodem.ending ret frame []))
    (h' : Extends io' io'' e) : Extends io io'' (q ++ Xmodem.ending ret frame e) := by
  have := h.trans h'
  rwa [ending_append] at this

theorem fputBody_course (s : CbState) :
    (∃ s' ev, fputBody xmodemReceiveBlock s = .inl s' ∧ Extends s.io s'.io ev ∧
      ∀ out ev', Course s'.io.sends out ev' → Course s.io.sends out (ev ++ ev')) ∨
    ∃ out e ev, fputBody xmodemReceiveBlock s = .inr (out, e) ∧ Extends s.io e.io ev ∧
      Course s.io.sends out ev := by
  obtain ⟨q,hheard⟩ := receiveBlock_heard s.bn s.block s.io
  obtain ⟨frame,hext⟩ := receive_extends hheard
  have hsends : (receive xmodemReceiveBlock s.bn s.block s.io).io.sends = s.io.sends := hheard.sends
  have hended : (receive xmodemReceiveBlock s.bn s.block s.io).ret = .finished ∨
    (receive xmodemReceiveBlock s.bn s.block s.io).ret = .canceled →
      EndedBy (receive xmodemReceiveBlock s.bn s.block s.io).ret q := hheard.ended
  have hq := hheard.listening
  simp only [fputBody]
  rw [← hsends]
  generalize receive xmodemReceiveBlock s.bn s.block s.io = r at hext hended ⊢
  obtain ⟨ret,bn,block,io⟩ := r
  simp only at hext hended ⊢
  cases ret with
  | ok =>
    have hsend := extends_send block io
    cases hs : io.sends.headD .full with
    | taken n le =>
      rw [hs] at hsend
      have hneg : ¬ ((n : Int) < 0) := by omega
      refine .inl ⟨⟨(xmodemReceiveReqNextBlock (sendChunkedData block io).2).2, bn, block, 0,
        int32 (s.totalSent + n)⟩,_,?_,hext.ending (hsend.trans (extends_put ack _)),?_⟩
      · simp only [sendChunkedData,hs,SendRet.value,if_neg hneg]
      · intro out ev' h
        rw [ending_append]
        exact .taken frame _ hq hs h
    | failed errno pos =>
      rw [hs] at hsend
      have hneg : -(errno : Int) < 0 := by omega
      refine .inr ⟨some (-errno),⟨(xmodemTransmitCancel (sendChunkedData block io).2).2, bn, block,
        s.cntRetry, s.totalSent⟩,_,?_,hext.ending (hsend.trans (extends_cancel _)),?_⟩
      · simp only [sendChunkedData,hs,SendRet.value,if_pos hneg]
      · exact .sendFails frame _ _ hq hs
  | retry =>
    by_cases hc : 10 < s.cntRetry
    · rw [if_pos hc]
      exact .inr ⟨_,_,_,rfl,hext.ending (extends_cancel _),.retryOver frame _ hq⟩
    · rw [if_neg hc]
      refine .inl ⟨_,_,rfl,hext.ending (extends_put nak _),fun out ev' h => ?_⟩
      rw [ending_append]
      exact .again frame _ hq h
  | finished => exact .inr ⟨_,_,_,rfl,hext,.ended frame hq (hended (.inl rfl))⟩
  | canceled => exact .inr ⟨_,_,_,rfl,hext,.ended frame hq (hended (.inr rfl))⟩
  | dup | failed | timeout | other =>
    refine .inl ⟨_,_,rfl,hext,fun out ev' h => ?_⟩
    rw [ending_append]
    exact .passed frame hq (by simp) h

theorem course_run {n : Nat} {s e : CbState} {out : Option Int}
    (h : loop (fputBody xmodemReceiveBlock) n s = some (out, e)) :
    ∃ ev, Extends s.io e.io ev ∧ Course s.io.sends out ev := by
  induction n generalizing s with
  | zero => simp [loop] at h
  | succ n ih =>
    rcases fputBody_course s with ⟨s',ev,hbody,hext,hcourse⟩ | ⟨out',e',ev,hbody,hext,hcourse⟩
    · rw [loop_next hbody] at h
      obtain ⟨ev',hext',hcourse'⟩ := ih h
      exact ⟨_,hext.trans hext',hcourse out ev' hcourse'⟩
    · rw [loop_exit hbody] at h
      cases h
      exact ⟨ev,hext,hcourse⟩

theorem Listening.outcomes {q : List IoEvent} (h : Listening q) : outcomes q = [] := by
  refine List.filterMap_eq_nil_iff.2 fun x hx => ?_
  have hmark := h x hx
  cases x <;> first | rfl | cases hmark

theorem outcomes_ending {q : List IoEvent} (hq : Listening q) (ret : XmodemRecvRet)
    (frame : List UInt8) (e : List IoEvent) :
    outcomes (q ++ ending ret frame e) = ret :: outcomes e := by
  rw [outcomes_append,hq.outcomes]
  rfl

def sendResult : IoEvent → Option SendRet
  | .send _ ret => some ret
  | _ => none

def sendResults (trace : List IoEvent) : List SendRet := trace.filterMap sendResult

theorem sendResults_append (a b : List IoEvent) :
    sendResults (a ++ b) = sendResults a ++ sendResults b := List.filterMap_append

theorem sendResults_ending {q : List IoEvent} (hq : Listening q) (ret : XmodemRecvRet)
    (frame : List UInt8) (e : List IoEvent) :
    sendResults (q ++ ending ret frame e) = sendResults e := by
  have hnone : sendResults q = [] := by
    refine List.filterMap_eq_nil_iff.2 fun x hx => ?_
    have hmark := hq x hx
    cases x <;> first | rfl | cases hmark
  rw [sendResults_append,hnone]
  rfl

theorem cancelRecord_cans (puts : List Bool) :
    ∀ x ∈ cancelRecord puts, ∃ ok, x = .put can ok := by
  intro x hx
  rw [cancelRecord] at hx
  split_ifs at hx <;> simp at hx
  · rcases hx with rfl | rfl
    · exact ⟨_,rfl⟩
    · exact ⟨_,rfl⟩
  · exact ⟨_,hx⟩

theorem cancelRecord_outcomes (puts : List Bool) : outcomes (cancelRecord puts) = [] := by
  rw [cancelRecord]
  split_ifs <;> rfl

def ofCallback : IoEvent → Bool
  | .close | .echo _ | .clearReceiveQueue | .sent _ _ _ => false
  | _ => true

def OfCallback (ev : List IoEvent) : Prop := ∀ x ∈ ev, ofCallback x = true

theorem OfCallback.not_mem {ev : List IoEvent} (h : OfCallback ev) {x : IoEvent}
    (hx : ofCallback x = false) : x ∉ ev :=
  fun hmem => absurd (h x hmem) (by rw [hx]; decide)

theorem ofCallback_ending {q e : List IoEvent} (hq : Listening q) (he : OfCallback e)
    (ret : XmodemRecvRet) (frame : List UInt8) : OfCallback (q ++ ending ret frame e) := by
  intro x hx
  rcases List.mem_append.1 hx with hx | hx
  · have hmark := hq x hx
    cases x <;> first | rfl | cases hmark
  · rcases List.mem_cons.1 hx with rfl | hx
    · rfl
    · exact he x hx

theorem ofCallback_cancel (puts : List Bool) : OfCallback (cancelRecord puts) := by
  intro x hx
  obtain ⟨ok,rfl⟩ := cancelRecord_cans puts x hx
  rfl

theorem ofCallback_cons {x : IoEvent} (hx : ofCallback x = true) {ev : List IoEvent}
    (h : OfCallback ev) : OfCallback (x :: ev) := by
  intro y hy
  rcases List.mem_cons.1 hy with rfl | hy
  · exact hx
  · exact h y hy

theorem ofCallback_nil : OfCallback [] := fun _ h => absurd h List.not_mem_nil

theorem Course.ofCallback {sends : List SendRet} {out : Option Int} {ev : List IoEvent}
    (h : Course sends out ev) : OfCallback ev := by
  induction h with
  | ended frame hq _ => exact ofCallback_ending hq ofCallback_nil _ frame
  | sendFails frame data puts hq _ =>
    exact ofCallback_ending hq (ofCallback_cons rfl (ofCallback_cancel puts)) _ frame
  | retryOver frame puts hq => exact ofCallback_ending hq (ofCallback_cancel puts) _ frame
  | taken frame ok hq _ _ ih =>
    exact ofCallback_ending hq (ofCallback_cons rfl (ofCallback_cons rfl ih)) _ frame
  | again frame ok hq _ ih => exact ofCallback_ending hq (ofCallback_cons rfl ih) _ frame
  | passed frame hq _ _ ih => exact ofCallback_ending hq ih _ frame

def NoCan (ev : List IoEvent) : Prop := ∀ ok, IoEvent.put can ok ∉ ev

theorem noCan_ending {q e : List IoEvent} (hq : Listening q) (he : NoCan e) (ret : XmodemRecvRet)
    (frame : List UInt8) : NoCan (q ++ ending ret frame e) := by
  intro ok hmem
  rcases List.mem_append.1 hmem with hmem | hmem
  · exact hq.not_mem rfl hmem
  · rcases List.mem_cons.1 hmem with hmem | hmem
    · cases hmem
    · exact he ok hmem

theorem noCan_cons {x : IoEvent} (hx : ∀ ok, x ≠ .put can ok) {ev : List IoEvent} (h : NoCan ev) :
    NoCan (x :: ev) := by
  intro ok hmem
  rcases List.mem_cons.1 hmem with hmem | hmem
  · exact hx ok hmem.symm
  · exact h ok hmem

theorem noCan_nil : NoCan [] := fun _ h => absurd h List.not_mem_nil

def EndsWithCancel (ev : List IoEvent) : Prop := ∃ pre puts, ev = pre ++ cancelRecord puts

theorem EndsWithCancel.behind {ev : List IoEvent} (h : EndsWithCancel ev) (pre : List IoEvent) :
    EndsWithCancel (pre ++ ev) := by
  obtain ⟨pre',puts,rfl⟩ := h
  exact ⟨pre ++ pre',puts,(List.append_assoc _ _ _).symm⟩

theorem last_cons {α : Type} {l : List α} {r : α} (a : α) (h : l.getLast? = some r) :
    (a :: l).getLast? = some r := by
  rw [List.getLast?_cons,h]
  rfl

/-- A loop that is left by `return` has ended with a cancel, behind an accepted block or a
retry. -/
structure Canceled (v : Int) (ev : List IoEvent) : Prop where
  negative : v < 0
  cancel : EndsWithCancel ev
  last : (outcomes ev).getLast? = some .ok ∨ (outcomes ev).getLast? = some .retry

theorem Canceled.behind {v : Int} {q e ev : List IoEvent} (h : Canceled v ev) (hq : Listening q)
    (ret : XmodemRecvRet) (frame : List UInt8) (he : outcomes e = []) :
    Canceled v (q ++ ending ret frame (e ++ ev)) := by
  refine ⟨h.negative,?_,?_⟩
  · rw [← ending_append]
    exact h.cancel.behind _
  · rw [outcomes_ending hq,outcomes_append,he,List.nil_append]
    exact h.last.imp (last_cons ret) (last_cons ret)

theorem Course.canceled {sends : List SendRet} {out : Option Int} {ev : List IoEvent} {v : Int}
    (h : Course sends out ev) (hout : out = some v) : Canceled v ev := by
  induction h with
  | ended => cases hout
  | @sendFails sends q errno pos frame data puts hq hs =>
    cases hout
    refine ⟨by omega,⟨q ++ ending .ok frame [.send data (.failed errno pos)],puts,
      by simp [ending]⟩,.inl ?_⟩
    rw [outcomes_ending hq]
    exact congrArg (fun l => (XmodemRecvRet.ok :: l).getLast?) (cancelRecord_outcomes puts)
  | @retryOver sends q frame puts hq =>
    cases hout
    refine ⟨by decide,⟨q ++ ending .retry frame [],puts,by simp [ending]⟩,.inr ?_⟩
    rw [outcomes_ending hq,cancelRecord_outcomes]
    rfl
  | @taken sends q ev n le out data frame ok hq _ _ ih =>
    exact (ih hout).behind hq .ok frame (e := [.send data (.taken n le),.put ack ok]) rfl
  | again frame ok hq _ ih => exact (ih hout).behind hq .retry frame (e := [.put nak ok]) rfl
  | @passed sends q ev ret out frame hq hok _ ih => exact (ih hout).behind hq ret frame (e := []) rfl

/-- A loop that is left by `break` has ended with EOT or CAN of the peer; each accepted block
has had its `send`. -/
structure Ended (sends : List SendRet) (ev : List IoEvent) : Prop where
  noCan : NoCan ev
  last : ∃ ret, (outcomes ev).getLast? = some ret ∧ EndedBy ret ev
  sends : (sendResults ev).map SendRet.count = counts sends (acceptedCount ev)

theorem EndedBy.mono {ret : XmodemRecvRet} {q ev : List IoEvent} (h : EndedBy ret q) (hq : q ⊆ ev) :
    EndedBy ret ev :=
  h.imp (fun h => ⟨h.1,hq h.2⟩) (fun h => ⟨h.1,hq h.2⟩)

theorem Ended.behind {sends : List SendRet} {q e ev : List IoEvent} (h : Ended sends ev)
    (hq : Listening q) {ret : XmodemRecvRet} (hret : ret ≠ .ok) (frame : List UInt8)
    (he : outcomes e = []) (hsend : sendResults e = []) (hcan : NoCan e) :
    Ended sends (q ++ ending ret frame (e ++ ev)) := by
  obtain ⟨r,hlast,hended⟩ := h.last
  refine ⟨noCan_ending hq ?_ ret frame,⟨r,?_,hended.mono ?_⟩,?_⟩
  · intro ok hmem
    exact (List.mem_append.1 hmem).elim (hcan ok) (h.noCan ok)
  · rw [outcomes_ending hq,outcomes_append,he]
    exact last_cons ret hlast
  · exact fun x hx => List.mem_append_right _ (List.mem_cons_of_mem _ (List.mem_append_right _ hx))
  · have hcount : acceptedCount (q ++ ending ret frame (e ++ ev)) = acceptedCount ev := by
      simp [acceptedCount,outcomes_ending hq,outcomes_append,he,hret]
    rw [hcount,sendResults_ending hq,sendResults_append,hsend]
    exact h.sends

def PeerEnds (results : List XmodemRecvRet) : Prop :=
  results.getLast? = some .finished ∨ results.getLast? = some .canceled

theorem not_peerEnds_nil : ¬ PeerEnds [] := by simp [PeerEnds]

theorem Canceled.not_peerEnds {v : Int} {ev : List IoEvent} (h : Canceled v ev) :
    ¬ PeerEnds (outcomes ev) := by
  rintro (hpeer | hpeer) <;> rcases h.last with h | h <;> rw [h] at hpeer <;> cases hpeer

theorem Ended.peerEnds {sends : List SendRet} {ev : List IoEvent} (h : Ended sends ev) :
    PeerEnds (outcomes ev) := by
  obtain ⟨r,hlast,hended⟩ := h.last
  rw [PeerEnds,hlast]
  exact hended.imp (fun h => congrArg some h.1) (fun h => congrArg some h.1)

theorem Course.broken {sends : List SendRet} {out : Option Int} {ev : List IoEvent}
    (h : Course sends out ev) (hout : out = none) : Ended sends ev := by
  induction h with
  | @ended sends q ret frame hq hret =>
    have hlast : outcomes (q ++ ending ret frame []) = [ret] := outcomes_ending hq ret frame []
    have hok : ret ≠ .ok := by rcases hret with ⟨rfl,-⟩ | ⟨rfl,-⟩ <;> simp
    refine ⟨noCan_ending hq noCan_nil _ frame,⟨ret,by rw [hlast]; rfl,
      hret.mono (List.subset_append_left _ _)⟩,?_⟩
    rw [sendResults_ending hq,acceptedCount,hlast,List.count_singleton]
    simp [hok,counts,sendResults]
  | sendFails => cases hout
  | retryOver => cases hout
  | @taken sends q ev n le out data frame ok hq hs _ ih =>
    obtain ⟨hcan,⟨r,hlast,hended⟩,hsends⟩ := ih hout
    refine ⟨noCan_ending hq (noCan_cons (by simp) (noCan_cons (by simp [ack,can]) hcan)) .ok frame,
      ⟨r,?_,hended.mono ?_⟩,?_⟩
    · rw [outcomes_ending hq]
      exact last_cons .ok hlast
    · exact fun x hx => List.mem_append_right _ (by simp [ending,hx])
    · have hcount : acceptedCount (q ++ ending .ok frame (.send data (.taken n le) :: .put ack ok ::
          ev)) = acceptedCount ev + 1 := by
        rw [acceptedCount,outcomes_ending hq]
        exact List.count_cons_self
      rw [hcount,counts_succ,hs,sendResults_ending hq]
      exact congrArg (List.cons n) hsends
  | @again sends q ev out frame ok hq _ ih =>
    exact (ih hout).behind hq (by simp) frame (e := [.put nak ok]) rfl rfl
      (noCan_cons (by simp [nak,can]) noCan_nil)
  | @passed sends q ev ret out frame hq hok _ ih =>
    exact (ih hout).behind hq hok frame (e := []) rfl rfl noCan_nil

end Loops

section Callback

def takenTotal (sends : List SendRet) (results : List XmodemRecvRet) : Nat :=
  (counts sends (results.count .ok + 1)).sum

theorem int32_mod (n : Int) : (n % 2 ^ 32).bmod (2 ^ 32) = int32 n := by
  rw [int32]
  exact Int.emod_bmod n (2 ^ 32)

theorem int32_add_mod (a b : Int) : (int32 a + b) % 2 ^ 32 = (a + b) % 2 ^ 32 := by
  have ha := uint32_int32 a
  rw [uint32] at ha
  rw [Int.add_emod,ha,← Int.add_emod]

theorem finish_total {fileSize : UInt32} {e : CbState} {total : Nat}
    (h : uint32 e.totalSent = (total : Int) % 2 ^ 32) : fputFinish fileSize e =
      ⟨int32 total, e.block,
        if total % 2 ^ 32 < fileSize.toNat then e.io.log .close else e.io⟩ := by
  have hret : int32 e.totalSent = int32 total := by
    rw [← int32_mod,← int32_mod total]
    exact congrArg (fun x : Int => x.bmod (2 ^ 32)) h
  have hlt : uint32 e.totalSent < fileSize.toNat ↔ total % 2 ^ 32 < fileSize.toNat := by
    rw [h]
    exact_mod_cast Iff.rfl
  rw [finish_eq,hret]
  split_ifs with h1 h2 h2
  · rfl
  · exact absurd (hlt.1 h1) h2
  · exact absurd (hlt.2 h2) h1
  · rfl

inductive CbCourse (fileSize : UInt32) (sends : List SendRet) : Int → List IoEvent → Prop
  | firstFails {errno : Nat} {pos : 0 < errno} (data : List UInt8)
      (hs : sends.headD .full = .failed errno pos) :
      CbCourse fileSize sends errno [.send data (.failed errno pos)]
  | leaves {n : Nat} {le : n ≤ 128} {data : List UInt8} {v : Int} {ev : List IoEvent} (ok : Bool)
      (hs : sends.headD .full = .taken n le) (hev : OfCallback ev) (h : Canceled v ev) :
      CbCourse fileSize sends v (.send data (.taken n le) :: .put ack ok :: ev)
  | ends {n : Nat} {le : n ≤ 128} {data : List UInt8} {ev : List IoEvent} (ok : Bool)
      (hs : sends.headD .full = .taken n le) (hev : OfCallback ev) (h : Ended sends.tail ev)
      (hbytes : (socketBytes (.send data (.taken n le) :: .put ack ok :: ev)).length =
        takenTotal sends (outcomes ev)) :
      CbCourse fileSize sends (int32 (takenTotal sends (outcomes ev))) (.send data (.taken n le) ::
        .put ack ok :: ev ++ if takenTotal sends (outcomes ev) % 2 ^ 32 < fileSize.toNat then [.close] else [])

theorem extends_cbStart (block : Mem) (rx : List RxEvent) (puts : List Bool) (sends : List SendRet)
    (trace : List IoEvent) : Extends (⟨rx, puts, sends, trace⟩ : Io RxEvent)
      (cbStart block rx puts sends trace).io (firstRecord block sends puts) := by
  refine ⟨rfl,fun h => ⟨AllQueued.tail h,?_⟩⟩
  simpa [NoneLost,firstRecord] using AllQueued.head h

theorem taken_total {sends : List SendRet} {n : Nat} {le : n ≤ 128}
    (hs : sends.headD .full = .taken n le) {e : CbState} {rs : List XmodemRecvRet}
    (h : uint32 e.totalSent =
      (int32 (sends.headD .full).count + (counts sends.tail (rs.count .ok)).sum) % 2 ^ 32) :
    uint32 e.totalSent = (takenTotal sends rs : Int) % 2 ^ 32 := by
  rw [h,int32_add_mod,takenTotal,counts_succ,List.sum_cons,hs,Nat.cast_add]

theorem callback_course (fileSize : UInt32) (block : Mem) (io : Io RxEvent) : ∃ cb ev,
    cmdFputSendCb fileSize block io = some cb ∧ Extends io cb.io ev ∧
      CbCourse fileSize io.sends cb.ret ev := by
  obtain ⟨rx,puts,sends,trace⟩ := io
  cases hs : sends.headD .full with
  | failed errno pos =>
    refine ⟨_,_,callback_failed fileSize block rx puts hs trace,⟨rfl,?_⟩,.firstFails _ hs⟩
    exact fun h => ⟨h,by simp [NoneLost]⟩
  | taken n le =>
    obtain ⟨⟨out,e⟩,hloop⟩ := cbStart_total block rx puts sends trace
    have hrun := callback_taken fileSize block rx puts hs trace
    rw [hloop] at hrun
    have hstart := extends_cbStart block rx puts sends trace
    obtain ⟨ev,hext,hcourse⟩ := course_run hloop
    have hsends : (cbStart block rx puts sends trace).io.sends = sends.tail := rfl
    have hrecord : firstRecord block sends puts = [.send (block.read 3 128) (.taken n le),
        .put ack (puts.headD true)] := by rw [firstRecord,hs]
    rw [hsends] at hcourse
    cases out with
    | some v =>
      refine ⟨_,_,hrun,hstart.trans hext,?_⟩
      rw [hrecord]
      exact .leaves _ hs hcourse.ofCallback (hcourse.canceled rfl)
    | none =>
      obtain ⟨ev',htrace,hsent,-,htotal⟩ := callback_run hloop
      have hev : ev' = ev := List.append_cancel_left (htrace.symm.trans hext.trace)
      subst hev
      have hfirst : (cbStart block rx puts sends trace).totalSent =
        int32 (sends.headD .full).count := by simp only [cbStart]
      rw [hsends,hfirst] at htotal
      have hmod := @taken_total sends n le hs e (outcomes ev') htotal
      have hbytes : (socketBytes (firstRecord block sends puts ++ ev')).length =
          takenTotal sends (outcomes ev') := by
        rw [hsent.body,written_length (counts_le _ _) hsent.all]
        rfl
      rw [hrecord] at hbytes
      have hcb : cbEnd fileSize (none, e) = _ := finish_total hmod
      rw [Option.map_some,hcb] at hrun
      have hends := @CbCourse.ends fileSize sends n le (block.read 3 128) ev' (puts.headD true) hs
        hcourse.ofCallback (hcourse.broken rfl) hbytes
      refine ⟨_,.send (block.read 3 128) (.taken n le) :: .put ack (puts.headD true) :: ev' ++
        (if takenTotal sends (outcomes ev') % 2 ^ 32 < fileSize.toNat then [IoEvent.close] else []),
        hrun,?_,?_⟩
      · rw [hrecord] at hstart
        simp only
        split_ifs
        · exact (hstart.trans hext).trans (extends_log _ (by simp))
        · rw [List.append_nil]
          exact hstart.trans hext
      · simp only
        exact hends

theorem outcomes_ends (data : List UInt8) (ret : SendRet) (b : Bool) (short : Prop)
    [Decidable short] (ev : List IoEvent) :
    outcomes (.send data ret :: .put ack b :: ev ++ if short then [IoEvent.close] else []) =
      outcomes ev := by
  rw [outcomes_append]
  split_ifs <;> exact List.append_nil _

end Callback

section Sessions

inductive FirstCourse : FirstBlock → List IoEvent → Prop
  | received {q : List IoEvent} (frame : List UInt8) (hq : Listening q) :
      FirstCourse .received (q ++ ending .ok frame [])
  | retryOver {q : List IoEvent} (frame : List UInt8) (puts : List Bool) (hq : Listening q) :
      FirstCourse .retryOver (q ++ ending .retry frame (cancelRecord puts))
  | other {q : List IoEvent} {ret : XmodemRecvRet} (frame : List UInt8) (hq : Listening q)
      (hok : ret ≠ .ok) (hretry : ret ≠ .retry) :
      FirstCourse (.other ret) (q ++ ending ret frame [])
  | again {q ev : List IoEvent} {first : FirstBlock} (frame : List UInt8) (ok : Bool)
      (hq : Listening q) (h : FirstCourse first ev) :
      FirstCourse first (q ++ ending .retry frame (.put nak ok :: ev))

theorem firstBody_course (s : CbState) :
    (∃ s' ev, firstBody xmodemReceiveBlock s = .inl s' ∧ Extends s.io s'.io ev ∧
      s'.io.sends = s.io.sends ∧ ∀ first ev', FirstCourse first ev' → FirstCourse first (ev ++ ev')) ∨
    ∃ first e ev, firstBody xmodemReceiveBlock s = .inr (first, e) ∧ Extends s.io e.io ev ∧
      e.io.sends = s.io.sends ∧ FirstCourse first ev := by
  obtain ⟨q,hheard⟩ := receiveBlock_heard s.bn s.block s.io
  obtain ⟨frame,hext⟩ := receive_extends hheard
  have hsends : (receive xmodemReceiveBlock s.bn s.block s.io).io.sends = s.io.sends := hheard.sends
  have hq := hheard.listening
  simp only [firstBody]
  generalize receive xmodemReceiveBlock s.bn s.block s.io = r at hext hsends ⊢
  obtain ⟨ret,bn,block,io⟩ := r
  simp only at hext hsends ⊢
  cases ret with
  | ok => exact .inr ⟨_,_,_,rfl,hext,hsends,.received frame hq⟩
  | retry =>
    by_cases hc : s.cntRetry < 10
    · rw [if_pos hc]
      refine .inl ⟨_,_,rfl,hext.ending (extends_put nak _),hsends,fun first ev' h => ?_⟩
      rw [ending_append]
      exact .again frame _ hq h
    · rw [if_neg hc]
      exact .inr ⟨_,_,_,rfl,hext.ending (extends_cancel _),(cancel_sends io).trans hsends,
        .retryOver frame _ hq⟩
  | finished | canceled | dup | failed | timeout | other =>
    exact .inr ⟨_,_,_,rfl,hext,hsends,.other frame hq (by simp) (by simp)⟩

theorem first_course {n : Nat} {s e : CbState} {first : FirstBlock}
    (h : loop (firstBody xmodemReceiveBlock) n s = some (first, e)) :
    ∃ ev, Extends s.io e.io ev ∧ e.io.sends = s.io.sends ∧ FirstCourse first ev := by
  induction n generalizing s with
  | zero => simp [loop] at h
  | succ n ih =>
    rcases firstBody_course s with ⟨s',ev,hbody,hext,hsends,hcourse⟩ |
      ⟨first',e',ev,hbody,hext,hsends,hcourse⟩
    · rw [loop_next hbody] at h
      obtain ⟨ev',hext',hsends',hcourse'⟩ := ih h
      exact ⟨_,hext.trans hext',hsends'.trans hsends,hcourse first ev' hcourse'⟩
    · rw [loop_exit hbody] at h
      cases h
      exact ⟨ev,hext,hsends,hcourse⟩

def Reaches (course : UploadCourse) : Prop :=
  ∃ t, course.target = .ok t ∧ course.net.Connects t.tls ∧ course.headSent = true

inductive UploadCourses (fileSize : UInt32) (course : UploadCourse) (sends : List SendRet) :
    List IoEvent → Prop
  | unreached (h : ¬ Reaches course) : UploadCourses fileSize course sends []
  | reached {ret : Int} {ev : List IoEvent} (h : Reaches course)
      (hcb : CbCourse fileSize sends ret ev) : UploadCourses fileSize course sends ev

theorem upload_course (fileSize : UInt32) (course : UploadCourse) (size : Int) (block : Mem)
    (io : Io RxEvent) : ∃ up ev,
    sipfFileUpload course (cmdFputSendCb fileSize) size block io = some up ∧
      Extends io up.io ev ∧ UploadCourses fileSize course io.sends ev := by
  obtain ⟨cb,ev,hcb,hext,hcourse⟩ := callback_course fileSize block io
  simp only [sipfFileUpload]
  cases htarget : course.target with
  | error e =>
    refine ⟨_,[],rfl,Extends.refl io,.unreached ?_⟩
    rintro ⟨t,ht,-⟩
    rw [htarget] at ht
    cases ht
  | ok t =>
    by_cases hcall : course.net.Connects t.tls ∧ course.headSent = true
    · simp only [sipfFileCallbackUploadRequest,if_pos hcall,hcb,Option.bind_eq_bind,Option.bind_some]
      split_ifs <;> exact ⟨_,ev,rfl,hext,.reached ⟨t,htarget,hcall⟩ hcourse⟩
    · simp only [sipfFileCallbackUploadRequest,if_neg hcall,Option.bind_eq_bind,Option.bind_some]
      have hnot : ¬ Reaches course := by
        rintro ⟨t',ht',hc⟩
        rw [htarget] at ht'
        cases ht'
        exact hcall hc
      split_ifs <;> exact ⟨_,[],rfl,Extends.refl io,.unreached hnot⟩

inductive SessionCourse (fileSize : UInt32) (course : UploadCourse) (puts : List Bool)
    (sends : List SendRet) : Except Int (List UInt8) → List IoEvent → Prop
  | noStart (h : puts.headD true = false) :
      SessionCourse fileSize course puts sends (.error (-1)) (startRecord puts)
  | refused {first : FirstBlock} {ev : List IoEvent} (h : puts.headD true = true)
      (hfirst : first ≠ .received) (hev : FirstCourse first ev) :
      SessionCourse fileSize course puts sends (.ok cmdCreateResNg)
        (startRecord puts ++ (ev ++ [IoEvent.echo true]))
  | uploaded {ret : Except Int (List UInt8)} {ev ev' : List IoEvent} (h : puts.headD true = true)
      (hev : FirstCourse .received ev) (hup : UploadCourses fileSize course sends ev') :
      SessionCourse fileSize course puts sends ret
        (startRecord puts ++ (ev ++ (ev' ++ [IoEvent.echo true])))

theorem extends_start (rx : List RxEvent) (puts : List Bool) (sends : List SendRet) :
    Extends (⟨rx, puts, sends, []⟩ : Io RxEvent) ⟨rx, puts.tail, sends, startRecord puts⟩
      (startRecord puts) := by
  refine ⟨rfl,fun h => ⟨AllQueued.tail h,?_⟩⟩
  simpa [NoneLost,startRecord] using AllQueued.head h

theorem session_course (args : FputArgs) (course : UploadCourse) (block : Mem) (rx : List RxEvent)
    (puts : List Bool) (sends : List SendRet) : ∃ run ev,
    fputSession xmodemReceiveBlock args course block ⟨rx, puts, sends, []⟩ = some run ∧
      Extends (⟨rx, puts, sends, []⟩ : Io RxEvent) run.io ev ∧
      SessionCourse args.fileSize course puts sends run.ret ev := by
  have hstart := extends_start rx puts sends
  have hecho : ∀ io : Io RxEvent, Extends io (xmodemEnd io) [.echo true] :=
    fun io => extends_log io (by simp)
  cases hput : puts.headD true with
  | false =>
    exact ⟨_,_,fputSession_noStart args course block rx sends hput,hstart,.noStart hput⟩
  | true =>
    have hinv : FirstInv rx (sessionStart block rx puts sends) := by
      refine ⟨⟨fun i h => absurd h (Nat.not_lt_zero i),⟨[],rfl,trivial⟩,?_⟩,rfl,rfl,rfl⟩
      exact ackBound_none (by simp [sessionStart,startRecord,isAck,nak,ack])
    obtain ⟨⟨first,s⟩,hloop,-⟩ := first_run hinv rfl
    obtain ⟨ev,hext,hsends,hfirst⟩ := first_course hloop
    by_cases hrec : first = .received
    · subst hrec
      obtain ⟨up,ev',hup,hext',hcourse⟩ := upload_course args.fileSize course
        (int32 args.fileSize.toNat) s.block s.io
      rw [hsends] at hcourse
      exact ⟨_,_,fputSession_received args course block rx sends hput hloop hup,
        hstart.trans (hext.trans (hext'.trans (hecho up.io))),.uploaded hput hfirst hcourse⟩
    · exact ⟨_,_,fputSession_refused args course block rx sends hput hloop hrec,
        hstart.trans (hext.trans (hecho s.io)),.refused hput hrec hfirst⟩

end Sessions

end SipfClient.Xmodem
