import SipfClient.BrokerThreads
import Mathlib.Data.List.Induction
set_option autoImplicit false

namespace SipfClient.Broker
open BoundedQueues Runs

variable {ι : Type}

def queuedBytes : BrokerEvent ι → List (ι × UInt8)
  | .queued i b => [(i, b)]
  | _ => []

def sentBytes : BrokerEvent ι → List (ι × UInt8)
  | .sent i b => [(i, b)]
  | _ => []

def arrivedBytes : BrokerEvent ι → List UInt8
  | .arrived b _ => [b]
  | _ => []

def keptBytes : BrokerEvent ι → List UInt8
  | .arrived b true => [b]
  | _ => []

def removedBytes : BrokerEvent ι → List UInt8
  | .got b => [b]
  | .cleared bs => bs
  | _ => []

def echoedBytes : BrokerEvent ι → List UInt8
  | .echoed b => [b]
  | _ => []

def wireBytes : BrokerEvent ι → List UInt8
  | .echoed b => [b]
  | .sent _ b => [b]
  | _ => []

def returnedBytes [DecidableEq ι] (i : ι) : BrokerEvent ι → List UInt8
  | .returned j data cnt => if j = i then data.take cnt else []
  | _ => []

def bytesOf [DecidableEq ι] (i : ι) : ι × UInt8 → List UInt8
  | (j, b) => if j = i then [b] else []

def callBytes : Option PutCall → List UInt8
  | some c => c.data.take c.cnt
  | none => []

abbrev Log (ι : Type) := List (BrokerEvent ι)

def echoOn : Bool → Log ι → Bool
  | e, [] => e
  | _, .echoSet e :: log => echoOn e log
  | e, _ :: log => echoOn e log

def dueEchoes : Bool → Log ι → List UInt8
  | _, [] => []
  | _, .echoSet e :: log => dueEchoes e log
  | true, .arrived b _ :: log => b :: dueEchoes true log
  | e, _ :: log => dueEchoes e log

theorem echoOn_append (e : Bool) (log log' : Log ι) :
    echoOn e (log ++ log') = echoOn (echoOn e log) log' := by
  induction log generalizing e with
  | nil => rfl
  | cons x log ih => cases x <;> simp only [List.cons_append,echoOn,ih]

theorem dueEchoes_append (e : Bool) (log log' : Log ι) :
    dueEchoes e (log ++ log') = dueEchoes e log ++ dueEchoes (echoOn e log) log' := by
  induction log generalizing e with
  | nil => rfl
  | cons x log ih => cases x <;> cases e <;> simp only [List.cons_append,echoOn,dueEchoes,ih]

namespace BrokerState

@[simp] theorem record_log (s : BrokerState ι) (es : List (BrokerEvent ι)) :
    (s.record es).log = s.log ++ es := rfl

@[simp] theorem record_msgqTx (s : BrokerState ι) (es : List (BrokerEvent ι)) :
    (s.record es).msgqTx = s.msgqTx := rfl

@[simp] theorem record_msgqRx (s : BrokerState ι) (es : List (BrokerEvent ι)) :
    (s.record es).msgqRx = s.msgqRx := rfl

@[simp] theorem record_isEcho (s : BrokerState ι) (es : List (BrokerEvent ι)) :
    (s.record es).isEcho = s.isEcho := rfl

@[simp] theorem record_held (s : BrokerState ι) (es : List (BrokerEvent ι)) :
    (s.record es).held = s.held := rfl

@[simp] theorem record_calls (s : BrokerState ι) (es : List (BrokerEvent ι)) :
    (s.record es).calls = s.calls := rfl

def echo (s : BrokerState ι) (b : UInt8) : Log ι := if s.isEcho then [.echoed b] else []

theorem receive_kept {s : BrokerState ι} {b : UInt8} {q : Queue UInt8 uartRxBufSz}
    (h : s.msgqRx.put b = some q) :
    s.receive b = { s with msgqRx := q }.record [.arrived b true] := by
  simp [receive,h]

theorem receive_dropped {s : BrokerState ι} {b : UInt8} (h : s.msgqRx.put b = none) :
    s.receive b = s.record [.arrived b false] := by
  simp [receive,h]

end BrokerState

inductive Transition [DecidableEq ι] (s : BrokerState ι) : BrokerState ι → Prop
  | idle : Transition s s
  | kept (b : UInt8) (q : Queue UInt8 uartRxBufSz) (put : s.msgqRx.put b = some q) :
      Transition s ({ s with msgqRx := q }.record (.arrived b true :: s.echo b))
  | dropped (b : UInt8) (full : s.msgqRx.Full) :
      Transition s (s.record (.arrived b false :: s.echo b))
  | taken (x : ι × UInt8) (q : Queue (ι × UInt8) uartTxBufSz) (held : s.held = none)
      (get : s.msgqTx.get = some (x, q)) : Transition s { s with msgqTx := q, held := some x }
  | sent (i : ι) (b : UInt8) (held : s.held = some (i, b)) :
      Transition s ({ s with held := none }.record [.sent i b])
  | called (i : ι) (data : List UInt8) (idle : s.calls i = none) :
      Transition s (s.setCall i (some ⟨data, 0, Nat.zero_le _⟩) |>.record [.called i data])
  | queued (i : ι) (c : PutCall) (h : c.cnt < c.data.length) (q : Queue (ι × UInt8) uartTxBufSz)
      (call : s.calls i = some c) (put : s.msgqTx.put (i, c.data[c.cnt]) = some q) :
      Transition s ({ s with msgqTx := q }.setCall i (some { c with cnt := c.cnt + 1, le := h })
        |>.record [.queued i c.data[c.cnt]])
  | returned (i : ι) (c : PutCall) (call : s.calls i = some c)
      (full : c.cnt < c.data.length → s.msgqTx.Full) : Transition s (s.putReturn i c)
  | got (b : UInt8) (q : Queue UInt8 uartRxBufSz) (get : s.msgqRx.get = some (b, q)) :
      Transition s ({ s with msgqRx := q }.record [.got b])
  | getTimeout (empty : s.msgqRx.items = []) : Transition s (s.record [.getTimeout])
  | cleared : Transition s s.uartBrokerClearReceiveQueue
  | echoSet (echo : Bool) : Transition s (s.uartBrokerSetEcho echo)

section Step

variable [DecidableEq ι]

theorem fifoCb_transition (s : BrokerState ι) (irqUpdate rxReady : Bool) (b : UInt8) :
    Transition s (s.uartBrokerFifoCb irqUpdate rxReady b) := by
  unfold BrokerState.uartBrokerFifoCb
  cases irqUpdate with
  | false => exact .idle
  | true =>
    cases rxReady with
    | false => exact .idle
    | true =>
      simp only [Bool.not_true, Bool.false_eq_true, if_false, if_true]
      cases hp : s.msgqRx.put b with
      | none =>
        have h := Transition.dropped b (Queue.put_isNone.1 hp)
        rw [BrokerState.receive_dropped hp]
        cases he : s.isEcho <;> simpa [BrokerState.echo,he,BrokerState.record] using h
      | some q =>
        have h := Transition.kept b q hp
        rw [BrokerState.receive_kept hp]
        cases he : s.isEcho <;> simpa [BrokerState.echo,he,BrokerState.record] using h

theorem thread_transition (s : BrokerState ι) : Transition s s.uartBrokerThread := by
  unfold BrokerState.uartBrokerThread
  cases hh : s.held with
  | some x => exact .sent x.1 x.2 hh
  | none =>
    cases hg : s.msgqTx.get with
    | none => exact .idle
    | some r => exact .taken r.1 r.2 hh hg

theorem put_transition {s s' : BrokerState ι} {i : ι} (h : s.uartBrokerPut i = some s') :
    Transition s s' := by
  unfold BrokerState.uartBrokerPut at h
  cases hc : s.calls i with
  | none => simp [hc] at h
  | some c =>
    simp only [hc] at h
    split at h
    · rename_i hlt
      cases hp : s.msgqTx.put (i, c.data[c.cnt]) with
      | none => simp [hp] at h
      | some q =>
        simp only [hp, Option.some.injEq] at h
        subst h
        exact .queued i c hlt q hc hp
    · rename_i hge
      cases h
      exact .returned i c hc fun hlt => absurd hlt hge

theorem putTimeout_transition {s s' : BrokerState ι} {i : ι} (h : s.putTimeout i = some s') :
    Transition s s' := by
  unfold BrokerState.putTimeout at h
  cases hc : s.calls i with
  | none => simp [hc] at h
  | some c =>
    simp only [hc] at h
    split at h
    · rename_i hfull
      cases h
      exact .returned i c hc fun _ => hfull.2
    · cases h

theorem step_transition {s s' : BrokerState ι} {m : BrokerMove ι} (h : s.step m = some s') :
    Transition s s' := by
  cases m with
  | irq irqUpdate rxReady b =>
    cases h
    exact fifoCb_transition s irqUpdate rxReady b
  | thread =>
    cases h
    exact thread_transition s
  | call i data =>
    simp only [BrokerState.step] at h
    cases hc : s.calls i with
    | none =>
      simp only [hc, Option.some.injEq] at h
      subst h
      exact .called i data hc
    | some c => simp [hc] at h
  | put i => exact put_transition h
  | putTimeout i => exact putTimeout_transition h
  | get =>
    simp only [BrokerState.step, BrokerState.uartBrokerGetByteTm] at h
    cases hg : s.msgqRx.get with
    | none => simp [hg] at h
    | some r =>
      simp only [hg, Option.some.injEq] at h
      subst h
      exact .got r.1 r.2 hg
  | getTimeout =>
    simp only [BrokerState.step, BrokerState.getTimeout] at h
    cases hg : s.msgqRx.get with
    | none =>
      simp only [hg, Option.some.injEq] at h
      subst h
      exact .getTimeout (Queue.get_isNone.1 hg)
    | some r => simp [hg] at h
  | clear =>
    cases h
    exact .cleared
  | setEcho echo =>
    cases h
    exact .echoSet echo

end Step

attribute [simp] queuedBytes sentBytes arrivedBytes keptBytes removedBytes echoedBytes wireBytes
  returnedBytes bytesOf callBytes

theorem flatMap_echo {β : Type} {f : BrokerEvent ι → List β} (s : BrokerState ι) (b : UInt8)
    (hf : f (.echoed b) = []) : (s.echo b).flatMap f = [] := by
  unfold BrokerState.echo
  split <;> simp [hf]

section Echo

variable (s : BrokerState ι) (b : UInt8)

@[simp] theorem queuedBytes_echo : (s.echo b).flatMap queuedBytes = [] := flatMap_echo s b rfl

@[simp] theorem sentBytes_echo : (s.echo b).flatMap sentBytes = [] := flatMap_echo s b rfl

@[simp] theorem arrivedBytes_echo : (s.echo b).flatMap arrivedBytes = [] := flatMap_echo s b rfl

@[simp] theorem keptBytes_echo : (s.echo b).flatMap keptBytes = [] := flatMap_echo s b rfl

@[simp] theorem removedBytes_echo : (s.echo b).flatMap removedBytes = [] := flatMap_echo s b rfl

@[simp] theorem returnedBytes_echo [DecidableEq ι] (i : ι) :
    (s.echo b).flatMap (returnedBytes i) = [] :=
  flatMap_echo s b rfl

@[simp] theorem echoOn_echo (e : Bool) : echoOn e (s.echo b) = e := by
  unfold BrokerState.echo
  split <;> rfl

end Echo

section Invariants

variable [DecidableEq ι]

def TxConserved (s : BrokerState ι) : Prop :=
  s.log.flatMap queuedBytes = s.log.flatMap sentBytes ++ (s.held.toList ++ s.msgqTx.items)

theorem txConserved_step {s s' : BrokerState ι} (h : Transition s s') (hi : TxConserved s) :
    TxConserved s' := by
  unfold TxConserved at hi ⊢
  cases h with
  | taken x q held get =>
    rw [hi,held,Queue.get_items get]
    rfl
  | sent i b held => simp [hi,held]
  | queued i c h q call put => simp [hi,Queue.put_items put,BrokerState.setCall]
  | kept b q put => simpa using hi
  | dropped b full => simpa using hi
  | called i data idle => simpa [BrokerState.setCall] using hi
  | returned i c call full => simpa [BrokerState.setCall,BrokerState.putReturn] using hi
  | cleared => simpa [BrokerState.uartBrokerClearReceiveQueue] using hi
  | echoSet echo => simpa [BrokerState.uartBrokerSetEcho] using hi
  | idle => exact hi
  | got b q get => simpa using hi
  | getTimeout empty => simpa using hi

def CallsConserved (i : ι) (s : BrokerState ι) : Prop :=
  (s.log.flatMap queuedBytes).flatMap (bytesOf i) =
    s.log.flatMap (returnedBytes i) ++ callBytes (s.calls i)

theorem callsConserved_step {i : ι} {s s' : BrokerState ι} (h : Transition s s')
    (hi : CallsConserved i s) : CallsConserved i s' := by
  unfold CallsConserved at hi ⊢
  cases h with
  | called j data idle =>
    by_cases hj : j = i
    · subst hj
      simpa [BrokerState.setCall,idle] using hi
    · simpa [BrokerState.setCall,Ne.symm hj] using hi
  | queued j c h q call put =>
    by_cases hj : j = i
    · subst hj
      rw [call] at hi
      simp [BrokerState.setCall,hi,List.take_append_getElem]
    · simpa [BrokerState.setCall,hj,Ne.symm hj] using hi
  | returned j c call full =>
    by_cases hj : j = i
    · subst hj
      rw [call] at hi
      simpa [BrokerState.setCall,BrokerState.putReturn] using hi
    · simpa [BrokerState.setCall,BrokerState.putReturn,hj,Ne.symm hj] using hi
  | kept b q put => simpa using hi
  | dropped b full => simpa using hi
  | taken x q held get => exact hi
  | sent j b held => simpa using hi
  | cleared => simpa [BrokerState.uartBrokerClearReceiveQueue] using hi
  | echoSet echo => simpa [BrokerState.uartBrokerSetEcho] using hi
  | idle => exact hi
  | got b q get => simpa using hi
  | getTimeout empty => simpa using hi

def RxConserved (s : BrokerState ι) : Prop :=
  Conserved s.msgqRx (s.log.flatMap keptBytes) (s.log.flatMap removedBytes)

theorem rxConserved_step {s s' : BrokerState ι} (h : Transition s s') (hi : RxConserved s) :
    RxConserved s' := by
  unfold RxConserved at hi ⊢
  cases h with
  | kept b q put => simpa using hi.put put
  | got b q get => simpa using hi.get get
  | cleared => simpa [BrokerState.uartBrokerClearReceiveQueue] using hi.purge
  | dropped b full => simpa using hi
  | taken x q held get => exact hi
  | sent j b held => simpa using hi
  | called i data idle => simpa [BrokerState.setCall] using hi
  | queued i c h q call put => simpa [BrokerState.setCall] using hi
  | returned i c call full => simpa [BrokerState.setCall,BrokerState.putReturn] using hi
  | echoSet echo => simpa [BrokerState.uartBrokerSetEcho] using hi
  | idle => exact hi
  | getTimeout empty => simpa using hi

def EchoKept (s : BrokerState ι) : Prop :=
  s.isEcho = echoOn true s.log ∧ s.log.flatMap echoedBytes = dueEchoes true s.log

omit [DecidableEq ι] in
theorem dueEchoes_echo (s : BrokerState ι) (b : UInt8) (kept : Bool) :
    dueEchoes s.isEcho (.arrived b kept :: s.echo b) = (s.echo b).flatMap echoedBytes := by
  unfold BrokerState.echo
  cases s.isEcho <;> rfl

omit [DecidableEq ι] in
theorem echoKept_arrived {s : BrokerState ι} {b : UInt8} {kept : Bool} (hi : EchoKept s) :
    s.isEcho = echoOn true (s.log ++ .arrived b kept :: s.echo b) ∧
      (s.log ++ .arrived b kept :: s.echo b).flatMap echoedBytes =
        dueEchoes true (s.log ++ .arrived b kept :: s.echo b) := by
  obtain ⟨hflag,hdue⟩ := hi
  rw [echoOn_append,dueEchoes_append,← hflag,dueEchoes_echo,← hdue]
  exact ⟨by simp [echoOn],by simp⟩

theorem echoKept_step {s s' : BrokerState ι} (h : Transition s s') (hi : EchoKept s) :
    EchoKept s' := by
  cases h with
  | kept b q put => exact echoKept_arrived hi
  | dropped b full => exact echoKept_arrived hi
  | idle => exact hi
  | taken x q held get => exact hi
  | echoSet echo =>
    simpa [EchoKept,BrokerState.uartBrokerSetEcho,echoOn_append,dueEchoes_append,echoOn,
      dueEchoes] using hi.2
  | cleared =>
    simpa [EchoKept,BrokerState.uartBrokerClearReceiveQueue,echoOn_append,dueEchoes_append,
      echoOn,dueEchoes] using hi
  | _ =>
    simpa [EchoKept,echoOn_append,dueEchoes_append,echoOn,dueEchoes,BrokerState.setCall,
      BrokerState.putReturn] using hi

/-- A byte is kept where the receive queue has room and echoed where the echo is on, a call
is cut short where the transmit queue is full, and a reader has waited in vain where nothing
is left to read. -/
def Accounted (before : Log ι) : BrokerEvent ι → Prop
  | .arrived _ kept =>
    kept = true ↔
      (before.flatMap keptBytes).length < (before.flatMap removedBytes).length + uartRxBufSz
  | .echoed _ => echoOn true before = true
  | .returned _ data cnt =>
    cnt ≤ data.length ∧ (cnt < data.length →
      (before.flatMap sentBytes).length + uartTxBufSz ≤ (before.flatMap queuedBytes).length)
  | .getTimeout => before.flatMap keptBytes = before.flatMap removedBytes
  | _ => True

omit [DecidableEq ι] in
theorem justified_echo {s : BrokerState ι} {b : UInt8} {kept : Bool} (he : EchoKept s)
    (h : Justified Accounted s.log) (hx : Accounted s.log (.arrived b kept)) :
    Justified Accounted (s.log ++ .arrived b kept :: s.echo b) := by
  obtain ⟨hflag,-⟩ := he
  unfold BrokerState.echo
  cases hs : s.isEcho with
  | false => exact justified_snoc h hx
  | true =>
    have hsplit :
        s.log ++ [.arrived b kept,.echoed b] = (s.log ++ [.arrived b kept]) ++ [.echoed b] := by
      simp
    have hon : echoOn true (s.log ++ [.arrived b kept]) = true := by
      rw [echoOn_append,← hflag,hs]
      rfl
    rw [if_pos rfl,hsplit]
    exact justified_snoc (justified_snoc h hx) hon

theorem justified_step {s s' : BrokerState ι} (h : Transition s s') (htx : TxConserved s)
    (hrx : RxConserved s) (he : EchoKept s) (hj : Justified Accounted s.log) :
    Justified Accounted s'.log := by
  have hrlen := Conserved.length hrx
  cases h with
  | kept b q put =>
    refine justified_echo he hj (iff_of_true rfl ?_)
    have hle := q.le
    rw [Queue.put_items put,List.length_append,List.length_singleton] at hle
    change (s.log.flatMap keptBytes).length < (s.log.flatMap removedBytes).length + uartRxBufSz
    omega
  | dropped b full =>
    refine justified_echo he hj (iff_of_false Bool.false_ne_true ?_)
    rw [hrlen,full]
    exact Nat.lt_irrefl _
  | returned i c call full =>
    refine justified_snoc hj ⟨c.le,fun hlt => ?_⟩
    have hfull := full hlt
    unfold TxConserved at htx
    unfold Queue.Full at hfull
    rw [htx,List.length_append,List.length_append,hfull]
    omega
  | getTimeout empty =>
    refine justified_snoc hj ?_
    unfold RxConserved Conserved at hrx
    rw [empty,List.append_nil] at hrx
    exact hrx
  | idle => exact hj
  | taken x q held get => exact hj
  | _ => exact justified_snoc hj trivial

structure Inv (s : BrokerState ι) : Prop where
  tx : TxConserved s
  calls : ∀ i, CallsConserved i s
  rx : RxConserved s
  echo : EchoKept s
  log : Justified Accounted s.log

theorem inv_init : Inv (.init : BrokerState ι) :=
  ⟨rfl,fun _ => rfl,conserved_empty,⟨rfl,rfl⟩,justified_nil _⟩

theorem inv_step {s s' : BrokerState ι} (hi : Inv s) (h : Transition s s') : Inv s' :=
  ⟨txConserved_step h hi.tx,fun i => callsConserved_step h (hi.calls i),rxConserved_step h hi.rx,
    echoKept_step h hi.echo,justified_step h hi.tx hi.rx hi.echo hi.log⟩

theorem inv_run {moves : List (BrokerMove ι)} {s : BrokerState ι}
    (h : run BrokerState.step .init moves = some s) : Inv s :=
  run_inv Inv (fun _ _ _ hi hstep => inv_step hi (step_transition hstep)) inv_init h

/-- The wire carries what was queued, in its order and without a gap, and of the bytes of
each party those that its calls have queued. -/
def TransmitsInOrder (s : BrokerState ι) : Prop :=
  s.log.flatMap sentBytes <+: s.log.flatMap queuedBytes ∧
  (s.log.flatMap queuedBytes).length ≤ (s.log.flatMap sentBytes).length + (uartTxBufSz + 1) ∧
  ∀ i, (s.log.flatMap queuedBytes).flatMap (bytesOf i) =
    s.log.flatMap (returnedBytes i) ++ callBytes (s.calls i)

theorem transmits_in_order {moves : List (BrokerMove ι)} {s : BrokerState ι}
    (h : run BrokerState.step .init moves = some s) : TransmitsInOrder s := by
  have hi := inv_run h
  have htx := hi.tx
  refine ⟨⟨_,htx.symm⟩,?_,hi.calls⟩
  have hheld : s.held.toList.length ≤ 1 := by cases s.held <;> simp
  have hitems := s.msgqTx.le
  unfold TxConserved at htx
  rw [htx,List.length_append,List.length_append]
  omega

def sharedLine : List (BrokerMove Bool) :=
  [.call true [1,2],.call false [9],.put true,.irq true true 65,.put false,.thread,.thread,
    .put true,.get,.getTimeout,.thread,.setEcho false,.irq true true 66,.irq false true 67,
    .thread,.put false,.clear,.put true]

theorem sharedLine_runs : (run BrokerState.step .init sharedLine).isSome := by decide +kernel

theorem transmits_sharedLine :
    (run BrokerState.step .init sharedLine).map (fun s => s.log.flatMap sentBytes) =
      some [(true, 1),(false, 9)] ∧
    TransmitsInOrder ((run BrokerState.step .init sharedLine).get sharedLine_runs) :=
  ⟨by decide +kernel,transmits_in_order (Option.some_get sharedLine_runs).symm⟩

theorem waits_justified {moves : List (BrokerMove ι)} {s : BrokerState ι}
    (h : run BrokerState.step .init moves = some s) : Justified Accounted s.log :=
  (inv_run h).log

theorem waits_sharedLine :
    (run BrokerState.step .init sharedLine).map (fun s => s.log.take 11) =
      some [.called true [1,2],.called false [9],.queued true 1,.arrived 65 true,.echoed 65,
        .queued false 9,.sent true 1,.queued true 2,.got 65,.getTimeout,.echoSet false] ∧
    Justified Accounted ((run BrokerState.step .init sharedLine).get sharedLine_runs).log :=
  ⟨by decide +kernel,waits_justified (Option.some_get sharedLine_runs).symm⟩

omit [DecidableEq ι] in
theorem echoOn_off {log : Log ι} (h : ∀ x ∈ log, x ≠ .echoSet true) : echoOn false log = false := by
  induction log with
  | nil => rfl
  | cons x log ih =>
    have hrest := ih fun y hy => h y (List.mem_cons_of_mem x hy)
    cases x with
    | echoSet e =>
      cases e with
      | false => exact hrest
      | true => exact absurd rfl (h _ List.mem_cons_self)
    | _ => exact hrest

omit [DecidableEq ι] in
theorem wire_unechoed {log : Log ι} (h : ∀ b, .echoed b ∉ log) :
    log.flatMap wireBytes = (log.flatMap sentBytes).map Prod.snd := by
  induction log with
  | nil => rfl
  | cons x log ih =>
    have hrest := ih fun b hb => h b (List.mem_cons_of_mem x hb)
    cases x with
    | echoed b => exact absurd List.mem_cons_self (h b)
    | _ => simpa using hrest

omit [DecidableEq ι] in
theorem unechoed_off {before mid after : Log ι}
    (h : Justified Accounted (before ++ .echoSet false :: (mid ++ after)))
    (hmid : ∀ x ∈ mid, x ≠ .echoSet true) (b : UInt8) : .echoed b ∉ mid := by
  intro hmem
  obtain ⟨mid1,mid2,rfl⟩ := List.append_of_mem hmem
  have hx := h (before ++ .echoSet false :: mid1) (.echoed b) (mid2 ++ after) (by simp)
  have hoff : echoOn false mid1 = false := echoOn_off fun x hx => hmid x (by simp [hx])
  simp only [Accounted,echoOn_append,echoOn,hoff] at hx
  cases hx

/-- All echoes that are due go out, and from the moment the echo is off the wire carries
nothing but what comes out of the queue. -/
def EchoesExact (s : BrokerState ι) : Prop :=
  s.log.flatMap echoedBytes = dueEchoes true s.log ∧
  ∀ before mid after, s.log = before ++ .echoSet false :: (mid ++ after) →
    (∀ x ∈ mid, x ≠ .echoSet true) →
    mid.flatMap wireBytes = (mid.flatMap sentBytes).map Prod.snd

theorem echoes_exact {moves : List (BrokerMove ι)} {s : BrokerState ι}
    (h : run BrokerState.step .init moves = some s) : EchoesExact s := by
  have hi := inv_run h
  refine ⟨hi.echo.2,?_⟩
  intro before mid after hlog hmid
  have hj := hi.log
  rw [hlog] at hj
  exact wire_unechoed (unechoed_off hj hmid)

theorem echoes_sharedLine :
    (run BrokerState.step .init sharedLine).map (fun s => s.log.flatMap wireBytes) =
      some [65,1,9] ∧
    EchoesExact ((run BrokerState.step .init sharedLine).get sharedLine_runs) :=
  ⟨by decide +kernel,echoes_exact (Option.some_get sharedLine_runs).symm⟩

end Invariants

/-! What of the arrived bytes is kept. -/

section Received

theorem keptBytes_sublist (log : Log ι) :
    (log.flatMap keptBytes).Sublist (log.flatMap arrivedBytes) := by
  induction log with
  | nil => exact List.Sublist.slnil
  | cons x log ih =>
    rw [List.flatMap_cons,List.flatMap_cons]
    refine List.Sublist.append ?_ ih
    cases x with
    | arrived b kept => cases kept <;> simp
    | _ => exact List.Sublist.refl _

theorem kept_le {log : Log ι} (h : Justified Accounted log) :
    ∀ before, before <+: log →
      (before.flatMap keptBytes).length ≤ (before.flatMap removedBytes).length + uartRxBufSz := by
  intro before
  induction before using List.reverseRecOn with
  | nil =>
    intro _
    simp
  | append_singleton before x ih =>
    rintro ⟨after,rfl⟩
    rw [List.append_assoc] at h
    have hle := ih ⟨_,(List.append_assoc _ _ _).symm⟩
    have hx := h before x after rfl
    cases x with
    | arrived b kept =>
      cases kept with
      | true =>
        have hlt := hx.1 rfl
        simp only [List.flatMap_append,List.flatMap_cons,List.flatMap_nil,keptBytes,removedBytes,
          List.length_append,List.length_cons,List.length_nil]
        omega
      | false => simpa using hle
    | got b =>
      simp only [List.flatMap_append,List.flatMap_cons,List.flatMap_nil,keptBytes,removedBytes,
        List.length_append,List.length_cons,List.length_nil]
      omega
    | cleared bs =>
      simp only [List.flatMap_append,List.flatMap_cons,List.flatMap_nil,keptBytes,removedBytes,
        List.length_append,List.length_nil]
      omega
    | _ => simpa using hle

/-- All that arrives is kept exactly if the bytes read never lag by more than the queue. -/
theorem kept_all_iff {log : Log ι} (h : Justified Accounted log) :
    log.flatMap arrivedBytes = log.flatMap keptBytes ↔
      ∀ before, before <+: log →
        (before.flatMap arrivedBytes).length ≤
          (before.flatMap removedBytes).length + uartRxBufSz := by
  constructor
  · rintro hall before hpre
    have hle := kept_le h before hpre
    obtain ⟨after,rfl⟩ := hpre
    have hb := (keptBytes_sublist before).length_le
    have ha := (keptBytes_sublist after).length_le
    have hlen := congrArg List.length hall
    simp only [List.flatMap_append,List.length_append] at hlen
    omega
  · intro hkeep
    induction log using List.reverseRecOn with
    | nil => rfl
    | append_singleton log x ih =>
      have hlog : log.flatMap arrivedBytes = log.flatMap keptBytes := by
        refine ih (fun before y after hsplit => ?_) fun before hpre => hkeep before (hpre.trans ⟨_,rfl⟩)
        exact h before y (after ++ [x]) (by rw [hsplit]; simp)
      cases x with
      | arrived b kept =>
        have hx := h log (.arrived b kept) [] rfl
        have hbound := hkeep (log ++ [.arrived b kept]) (List.prefix_refl _)
        simp only [List.flatMap_append,List.flatMap_cons,List.flatMap_nil,arrivedBytes,removedBytes,
          hlog,List.length_append,List.length_cons,List.length_nil] at hbound
        have hkept : kept = true := hx.2 (by omega)
        simp [hkept,hlog]
      | _ => simpa using hlog

end Received

/-- The bytes taken and those left are some of the arrived ones, in their order, and all of
them exactly if the readers are never behind by more than the queue holds. -/
def ReceivesInOrder (s : BrokerState ι) : Prop :=
  (s.log.flatMap removedBytes ++ s.msgqRx.items).Sublist (s.log.flatMap arrivedBytes) ∧
  (s.log.flatMap arrivedBytes = s.log.flatMap removedBytes ++ s.msgqRx.items ↔
    ∀ before, before <+: s.log →
      (before.flatMap arrivedBytes).length ≤ (before.flatMap removedBytes).length + uartRxBufSz)

theorem receives_in_order [DecidableEq ι] {moves : List (BrokerMove ι)} {s : BrokerState ι}
    (h : run BrokerState.step .init moves = some s) : ReceivesInOrder s := by
  have hi := inv_run h
  have hrx : s.log.flatMap keptBytes = s.log.flatMap removedBytes ++ s.msgqRx.items := hi.rx
  rw [ReceivesInOrder,← hrx]
  exact ⟨keptBytes_sublist s.log,kept_all_iff hi.log⟩

theorem receives_sharedLine :
    (run BrokerState.step .init sharedLine).map (fun s => s.log.flatMap removedBytes) =
      some [65,66] ∧
    ReceivesInOrder ((run BrokerState.step .init sharedLine).get sharedLine_runs) :=
  ⟨by decide +kernel,receives_in_order (Option.some_get sharedLine_runs).symm⟩

end SipfClient.Broker
