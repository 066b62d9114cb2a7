import SipfClient.BrokerLaws
import SipfClient.UartBroker
set_option autoImplicit false

namespace SipfClient.Broker
open BoundedQueues Runs

variable {ι : Type} [DecidableEq ι]

def asSent (x : ι × UInt8) : BrokerEvent ι := .sent x.1 x.2

omit [DecidableEq ι] in
@[simp] theorem sentBytes_asSent (xs : List (ι × UInt8)) :
    (xs.map asSent).flatMap sentBytes = xs := by
  induction xs with
  | nil => rfl
  | cons x xs ih => simp [asSent,ih]

theorem thread_send {s : BrokerState ι} {x : ι × UInt8} (h : s.held = some x) :
    s.step .thread = some ({ s with held := none }.record [asSent x]) := by
  simp [BrokerState.step,BrokerState.uartBrokerThread,h,asSent]

theorem thread_take {s : BrokerState ι} {x : ι × UInt8} {rest : List (ι × UInt8)}
    (hh : s.held = none) (hi : s.msgqTx.items = x :: rest) :
    ∃ q : Queue (ι × UInt8) uartTxBufSz, q.items = rest ∧
      s.step .thread = some { s with msgqTx := q, held := some x } := by
  obtain ⟨q,hg,hq⟩ := Queue.get_cons hi
  exact ⟨q,hq,by simp [BrokerState.step,BrokerState.uartBrokerThread,hh,hg]⟩

theorem thread_drains (s : BrokerState ι) (hh : s.held = none) :
    ∃ s', run BrokerState.step s (List.replicate (2 * s.msgqTx.items.length) .thread) = some s' ∧
      s'.held = none ∧ s'.msgqTx.items = [] ∧ s'.calls = s.calls ∧
      s'.log = s.log ++ s.msgqTx.items.map asSent := by
  generalize hitems : s.msgqTx.items = items
  induction items generalizing s with
  | nil => exact ⟨s,rfl,hh,hitems,rfl,by simp⟩
  | cons x rest ih =>
    obtain ⟨q,hq,htake⟩ := thread_take hh hitems
    have hsend := thread_send (s := { s with msgqTx := q, held := some x }) rfl
    obtain ⟨s',hrun,hheld,hempty,hcalls,hlog⟩ :=
      ih ({ s with msgqTx := q, held := none }.record [asSent x]) rfl hq
    refine ⟨s',?_,hheld,hempty,hcalls,by simp [hlog]⟩
    have hlen : 2 * (x :: rest).length = 2 * rest.length + 1 + 1 := by
      rw [List.length_cons]
      omega
    rw [hlen,List.replicate_succ,List.replicate_succ]
    exact run_trans (run_single htake) (run_trans (run_single hsend) hrun)

theorem thread_flushes (s : BrokerState ι) :
    ∃ n s', n ≤ 2 * (uartTxBufSz + 1) ∧
      run BrokerState.step s (List.replicate n .thread) = some s' ∧ s'.held = none ∧
      s'.msgqTx.items = [] ∧ s'.calls = s.calls ∧
      s'.log = s.log ++ (s.held.toList ++ s.msgqTx.items).map asSent := by
  have hle := s.msgqTx.le
  cases hh : s.held with
  | none =>
    obtain ⟨s',hrun,hheld,hempty,hcalls,hlog⟩ := thread_drains s hh
    exact ⟨_,s',by omega,hrun,hheld,hempty,hcalls,hlog⟩
  | some x =>
    obtain ⟨s',hrun,hheld,hempty,hcalls,hlog⟩ :=
      thread_drains ({ s with held := none }.record [asSent x]) rfl
    refine ⟨1 + 2 * s.msgqTx.items.length,s',by omega,?_,hheld,hempty,hcalls,by simp [hlog]⟩
    rw [Nat.add_comm,List.replicate_succ]
    exact run_trans (run_single (thread_send hh)) hrun

def DeliversAll (s : BrokerState ι) : Prop :=
  ∃ n s', n ≤ 2 * (uartTxBufSz + 1) ∧
    run BrokerState.step s (List.replicate n .thread) = some s' ∧
    s'.log.flatMap sentBytes = s.log.flatMap queuedBytes ∧
    ∀ i, (s'.log.flatMap sentBytes).flatMap (bytesOf i) =
      s.log.flatMap (returnedBytes i) ++ callBytes (s.calls i)

theorem delivers_all {moves : List (BrokerMove ι)} {s : BrokerState ι}
    (h : run BrokerState.step .init moves = some s) : DeliversAll s := by
  obtain ⟨n,s',hn,hrun,-,-,-,hlog⟩ := thread_flushes s
  have hi := inv_run h
  have hsent : s'.log.flatMap sentBytes = s.log.flatMap queuedBytes := by
    rw [hlog,List.flatMap_append,sentBytes_asSent]
    exact hi.tx.symm
  refine ⟨n,s',hn,hrun,hsent,fun i => ?_⟩
  rw [hsent]
  exact hi.calls i

def threeWaiting : List (BrokerMove Bool) :=
  [.call true [1,2],.call false [9],.put true,.put false,.thread,.put true]

theorem threeWaiting_runs : (run BrokerState.step .init threeWaiting).isSome := by decide +kernel

theorem delivers_threeWaiting :
    (run BrokerState.step .init threeWaiting).map (fun s => s.log.flatMap queuedBytes) =
      some [(true, 1),(false, 9),(true, 2)] ∧
    DeliversAll ((run BrokerState.step .init threeWaiting).get threeWaiting_runs) :=
  ⟨by decide +kernel,delivers_all (Option.some_get threeWaiting_runs).symm⟩

theorem thread_makes_room (s : BrokerState ι) :
    ∃ n s', n ≤ 2 ∧ run BrokerState.step s (List.replicate n .thread) = some s' ∧
      s'.calls = s.calls ∧ ¬ s'.msgqTx.Full ∧ s.log <+: s'.log := by
  by_cases hfull : s.msgqTx.Full
  · cases hitems : s.msgqTx.items with
    | nil =>
      simp [Queue.Full,hitems,uartTxBufSz] at hfull
    | cons x rest =>
      have hshort : rest.length < uartTxBufSz := by
        rw [Queue.Full,hitems,List.length_cons] at hfull
        omega
      cases hh : s.held with
      | none =>
        obtain ⟨q,hq,htake⟩ := thread_take hh hitems
        refine ⟨1,_,by omega,run_single htake,rfl,?_,List.prefix_refl _⟩
        change q.items.length ≠ uartTxBufSz
        rw [hq]
        omega
      | some y =>
        have hsend := thread_send hh
        obtain ⟨q,hq,htake⟩ :=
          thread_take (s := { s with held := none }.record [asSent y]) rfl hitems
        refine ⟨2,_,Nat.le_refl 2,run_trans (run_single hsend) (run_single htake),rfl,?_,⟨_,rfl⟩⟩
        change q.items.length ≠ uartTxBufSz
        rw [hq]
        omega
  · exact ⟨0,s,by omega,rfl,rfl,hfull,List.prefix_refl _⟩

theorem put_room {s : BrokerState ι} {i : ι} {c : PutCall} (hc : s.calls i = some c)
    (hlt : c.cnt < c.data.length) (hroom : ¬ s.msgqTx.Full) :
    ∃ s', s.step (.put i) = some s' ∧
      s'.calls i = some { c with cnt := c.cnt + 1, le := hlt } ∧ s.log <+: s'.log := by
  cases hp : s.msgqTx.put (i, c.data[c.cnt]) with
  | none => exact absurd (Queue.put_isNone.1 hp) hroom
  | some q =>
    let s' := { s with msgqTx := q }.setCall i (some { c with cnt := c.cnt + 1, le := hlt })
      |>.record [.queued i c.data[c.cnt]]
    have hput : s.step (.put i) = some s' := by
      simp only [BrokerState.step,BrokerState.uartBrokerPut,hc,hlt,hp,dif_pos]
      rfl
    exact ⟨s',hput,by simp [s',BrokerState.setCall],⟨_,rfl⟩⟩

/-- With no other party on the move but the broker's thread a call queues all its bytes. -/
def Completes (s : BrokerState ι) (i : ι) (c : PutCall) : Prop :=
  ∃ moves s', (∀ m ∈ moves, m = .thread ∨ m = .put i) ∧
    moves.length ≤ 3 * (c.data.length - c.cnt) + 1 ∧
    run BrokerState.step s moves = some s' ∧ s'.calls i = none ∧
    s.log <+: s'.log ∧ s'.log.getLast? = some (.returned i c.data c.data.length)

theorem call_completes {s : BrokerState ι} {i : ι} {c : PutCall} (hc : s.calls i = some c) :
    Completes s i c := by
  unfold Completes
  generalize hn : c.data.length - c.cnt = n
  have hle := c.le
  induction n generalizing s c with
  | zero =>
    have hlast : c.cnt = c.data.length := by omega
    have hput : s.step (.put i) = some (s.putReturn i c) := by
      simp [BrokerState.step,BrokerState.uartBrokerPut,hc,hlast]
    refine ⟨[.put i],_,by simp,by simp,run_single hput,by simp [BrokerState.putReturn,
      BrokerState.setCall],⟨_,rfl⟩,?_⟩
    simp [BrokerState.putReturn,hlast]
  | succ n ih =>
    have hlt : c.cnt < c.data.length := by omega
    obtain ⟨k,s1,hk,hroom,hcalls,hfree,hpre⟩ := thread_makes_room s
    obtain ⟨s2,hput,hc2,hpre2⟩ := put_room (i := i) (c := c) (by rw [hcalls,hc]) hlt hfree
    obtain ⟨moves,s',hall,hlen,hrun,hnone,hpre3,hlast⟩ :=
      ih hc2 (by change c.data.length - (c.cnt + 1) = n; omega) hlt
    refine ⟨List.replicate k .thread ++ [.put i] ++ moves,s',?_,?_,?_,hnone,
      hpre.trans (hpre2.trans hpre3),hlast⟩
    · intro m hm
      simp only [List.mem_append,List.mem_replicate,List.mem_singleton] at hm
      rcases hm with (⟨-,rfl⟩ | rfl) | hm
      · exact .inl rfl
      · exact .inr rfl
      · exact hall m hm
    · simp only [List.length_append,List.length_replicate,List.length_singleton]
      omega
    · exact run_trans (run_trans hroom (run_single hput)) hrun

theorem put_completes {s : BrokerState ι} {i : ι} {c : PutCall} (hc : s.calls i = some c) :
    Completes s i c := call_completes hc

def fullQueue : Queue (Bool × UInt8) uartTxBufSz :=
  ⟨List.replicate uartTxBufSz (false, 0), by simp⟩

theorem put_completes_full :
    fullQueue.Full ∧
    Completes { BrokerState.init with
        msgqTx := fullQueue, calls := fun _ => some ⟨[7,8], 1, by decide⟩ } true
      ⟨[7,8], 1, by decide⟩ :=
  ⟨List.length_replicate,put_completes rfl⟩

/-! The view of one caller -/

section Caller
open Xmodem (Io IoEvent)

variable {ρ : Type}

/-- The puts of a call that queues `cnt` bytes, each with its result. -/
def attempts (data : List UInt8) (cnt : Nat) : List (UInt8 × Bool) :=
  (data.take cnt).map (·, true) ++ data[cnt]?.toList.map (·, false)

theorem attempts_succ (b : UInt8) (data : List UInt8) (cnt : Nat) :
    attempts (b :: data) (cnt + 1) = (b, true) :: attempts data cnt := by
  simp [attempts]

def putEvent (p : UInt8 × Bool) : IoEvent := .put p.1 p.2

def putAll : List (List UInt8) → Io ρ → List Nat × Io ρ
  | [], io => ([], io)
  | data :: rest, io =>
    let (cnt, io) := Xmodem.uartBrokerPut data io
    let (cnts, io) := putAll rest io
    (cnt :: cnts, io)

theorem putAll_append (ds ds' : List (List UInt8)) (io : Io ρ) :
    putAll (ds ++ ds') io =
      ((putAll ds io).1 ++ (putAll ds' (putAll ds io).2).1, (putAll ds' (putAll ds io).2).2) := by
  induction ds generalizing io with
  | nil => rfl
  | cons d ds ih => simp [putAll,ih]

theorem uartBrokerPut_attempts (data : List UInt8) {cnt : Nat} (h : cnt ≤ data.length)
    (io : Io ρ) (puts : List Bool) :
    Xmodem.uartBrokerPut data { io with puts := (attempts data cnt).map Prod.snd ++ puts } =
      (cnt, { io with puts := puts, trace := io.trace ++ (attempts data cnt).map putEvent }) := by
  induction data generalizing cnt io with
  | nil =>
    obtain rfl : cnt = 0 := by simpa using h
    simp [attempts,Xmodem.uartBrokerPut]
  | cons b data ih =>
    cases cnt with
    | zero => simp [attempts,Xmodem.uartBrokerPut,Xmodem.uartBrokerPutByte,Io.log,putEvent]
    | succ cnt =>
      have hstep := ih (Nat.le_of_succ_le_succ h) { io with trace := io.trace ++ [.put b true] }
      rw [attempts_succ,List.map_cons,List.cons_append,List.map_cons]
      simp only [Xmodem.uartBrokerPut,Xmodem.uartBrokerPutByte,Io.log,List.headD_cons,List.tail_cons,
        if_true,hstep]
      simp [putEvent]

def puts (i : ι) : BrokerEvent ι → List (UInt8 × Bool)
  | .queued j b => if j = i then [(b, true)] else []
  | .returned j data cnt => if j = i then data[cnt]?.toList.map (·, false) else []
  | _ => []

def finished (i : ι) : BrokerEvent ι → List (List UInt8)
  | .returned j data _ => if j = i then [data] else []
  | _ => []

def results (i : ι) : BrokerEvent ι → List Nat
  | .returned j _ cnt => if j = i then [cnt] else []
  | _ => []

attribute [simp] puts finished results

section Echo

variable (i : ι) (s : BrokerState ι) (b : UInt8)

@[simp] theorem puts_echo : (s.echo b).flatMap (puts i) = [] := flatMap_echo s b rfl

@[simp] theorem finished_echo : (s.echo b).flatMap (finished i) = [] := flatMap_echo s b rfl

@[simp] theorem results_echo : (s.echo b).flatMap (results i) = [] := flatMap_echo s b rfl

end Echo

/-- The puts behind those of the finished calls are those of the call on its way. -/
def Replays (ρ : Type) (i : ι) (s : BrokerState ι) : Prop :=
  ∃ done, s.log.flatMap (puts i) = done ++ (callBytes (s.calls i)).map (·, true) ∧
    ∀ (io : Io ρ) (rest : List Bool),
      putAll (s.log.flatMap (finished i)) { io with puts := done.map Prod.snd ++ rest } =
        (s.log.flatMap (results i),
          { io with puts := rest, trace := io.trace ++ done.map putEvent })

theorem replays_init (i : ι) : Replays ρ i .init :=
  ⟨[],rfl,fun io rest => by simp [putAll,BrokerState.init]⟩

theorem replays_returned {i : ι} {c : PutCall} {log : Log ι} {done : List (UInt8 × Bool)}
    (hputs : log.flatMap (puts i) = done ++ (c.data.take c.cnt).map (·, true))
    (hrun : ∀ (io : Io ρ) (rest : List Bool),
      putAll (log.flatMap (finished i)) { io with puts := done.map Prod.snd ++ rest } =
        (log.flatMap (results i), { io with puts := rest, trace := io.trace ++ done.map putEvent })) :
    let log' := log ++ [.returned i c.data c.cnt]
    log'.flatMap (puts i) = done ++ attempts c.data c.cnt ∧
    ∀ (io : Io ρ) (rest : List Bool),
      putAll (log'.flatMap (finished i))
          { io with puts := (done ++ attempts c.data c.cnt).map Prod.snd ++ rest } =
        (log'.flatMap (results i),
          { io with puts := rest
                    trace := io.trace ++ (done ++ attempts c.data c.cnt).map putEvent }) := by
  intro log'
  refine ⟨by simp [log',hputs,attempts],fun io rest => ?_⟩
  have hfirst := hrun io ((attempts c.data c.cnt).map Prod.snd ++ rest)
  have hlast := uartBrokerPut_attempts c.data c.le
    { io with trace := io.trace ++ done.map putEvent } rest
  simp only [log',List.flatMap_append,putAll_append,List.map_append,List.append_assoc]
  rw [hfirst]
  simp [putAll,hlast]

theorem replays_step {i : ι} {s s' : BrokerState ι} (h : Transition s s') (hi : Replays ρ i s) :
    Replays ρ i s' := by
  obtain ⟨done,hputs,hrun⟩ := hi
  cases h with
  | called j data idle =>
    refine ⟨done,?_,by simpa [BrokerState.setCall] using hrun⟩
    by_cases hj : j = i
    · subst hj
      simpa [BrokerState.setCall,idle] using hputs
    · simpa [BrokerState.setCall,Ne.symm hj] using hputs
  | queued j c h q call put =>
    refine ⟨done,?_,by simpa [BrokerState.setCall] using hrun⟩
    by_cases hj : j = i
    · subst hj
      rw [call] at hputs
      have hnext : callBytes (some { c with cnt := c.cnt + 1, le := h }) =
          callBytes (some c) ++ [c.data[c.cnt]] :=
        (List.take_append_getElem h).symm
      change (s.log ++ [BrokerEvent.queued j c.data[c.cnt]]).flatMap (puts j) =
        done ++ (callBytes (Function.update s.calls j _ j)).map (·, true)
      rw [Function.update_self,hnext,List.flatMap_append,hputs,List.map_append,List.append_assoc]
      simp
    · simpa [BrokerState.setCall,hj,Ne.symm hj] using hputs
  | returned j c call full =>
    by_cases hj : j = i
    · subst hj
      rw [call] at hputs
      obtain ⟨hputs',hrun'⟩ := replays_returned hputs hrun
      refine ⟨done ++ attempts c.data c.cnt,?_,hrun'⟩
      simpa [BrokerState.putReturn,BrokerState.setCall] using hputs'
    · exact ⟨done,by simpa [BrokerState.setCall,BrokerState.putReturn,hj,Ne.symm hj] using hputs,
        by simpa [BrokerState.setCall,BrokerState.putReturn,hj] using hrun⟩
  | kept b q put => exact ⟨done,by simpa using hputs,by simpa using hrun⟩
  | dropped b full => exact ⟨done,by simpa using hputs,by simpa using hrun⟩
  | idle => exact ⟨done,hputs,hrun⟩
  | taken x q held get => exact ⟨done,hputs,hrun⟩
  | sent j b held => exact ⟨done,by simpa using hputs,by simpa using hrun⟩
  | got b q get => exact ⟨done,by simpa using hputs,by simpa using hrun⟩
  | getTimeout empty => exact ⟨done,by simpa using hputs,by simpa using hrun⟩
  | cleared =>
    exact ⟨done,by simpa [BrokerState.uartBrokerClearReceiveQueue] using hputs,
      by simpa [BrokerState.uartBrokerClearReceiveQueue] using hrun⟩
  | echoSet echo =>
    exact ⟨done,by simpa [BrokerState.uartBrokerSetEcho] using hputs,
      by simpa [BrokerState.uartBrokerSetEcho] using hrun⟩

/-- What the thread `i` has met between its calls is the broker as a list of outcomes. -/
def MeetsOutcomes (s : BrokerState ι) (i : ι) (io : Io ρ) : Prop :=
  ∀ rest,
    putAll (s.log.flatMap (finished i))
        { io with puts := (s.log.flatMap (puts i)).map Prod.snd ++ rest } =
      (s.log.flatMap (results i),
        { io with puts := rest, trace := io.trace ++ (s.log.flatMap (puts i)).map putEvent })

theorem caller_meets_outcomes {moves : List (BrokerMove ι)} {s : BrokerState ι}
    (h : run BrokerState.step .init moves = some s) {i : ι} (hidle : s.calls i = none)
    (io : Io ρ) : MeetsOutcomes s i io := by
  have hinv : Replays ρ i s :=
    run_inv (Replays ρ i) (fun _ _ _ hi hstep => replays_step (step_transition hstep) hi)
      (replays_init i) h
  obtain ⟨done,hputs,hrun⟩ := hinv
  rw [hidle,callBytes,List.map_nil,List.append_nil] at hputs
  intro rest
  rw [hputs]
  exact hrun io rest

def oneReturned : List (BrokerMove Bool) := threeWaiting ++ [.put false]

theorem oneReturned_runs : (run BrokerState.step .init oneReturned).isSome := by decide +kernel

theorem caller_meets_oneReturned :
    (run BrokerState.step .init oneReturned).map
        (fun s => (s.log.flatMap (puts false), s.log.flatMap (results false))) =
      some ([(9, true)], [1]) ∧
    MeetsOutcomes ((run BrokerState.step .init oneReturned).get oneReturned_runs) false
      (⟨[], [], [], []⟩ : Io Xmodem.RxEvent) :=
  ⟨by decide +kernel,caller_meets_outcomes (Option.some_get oneReturned_runs).symm
    (Option.isNone_iff_eq_none.1 (by decide +kernel)) _⟩

end Caller

end SipfClient.Broker
