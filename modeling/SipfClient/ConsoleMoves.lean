import SipfClient.ConsoleThread
import SipfClient.BrokerDelivery
set_option autoImplicit false

namespace SipfClient.Broker
open BoundedQueues Runs

variable {ι : Type}

def calledData [DecidableEq ι] (i : ι) : BrokerEvent ι → List (List UInt8)
  | .called j data => if j = i then [data] else []
  | _ => []

def callData (c : Option PutCall) : List (List UInt8) := c.toList.map PutCall.data

attribute [simp] calledData

section Calls

variable [DecidableEq ι]

@[simp] theorem calledData_echo (i : ι) (s : BrokerState ι) (b : UInt8) :
    (s.echo b).flatMap (calledData i) = [] := flatMap_echo s b rfl

def CallsOpen (i : ι) (s : BrokerState ι) : Prop :=
  s.log.flatMap (calledData i) = s.log.flatMap (finished i) ++ callData (s.calls i)

theorem callsOpen_step {i : ι} {s s' : BrokerState ι} (h : Transition s s') (hi : CallsOpen i s) :
    CallsOpen i s' := by
  unfold CallsOpen at hi ⊢
  cases h with
  | called j data idle =>
    by_cases hj : j = i
    · subst hj
      rw [idle] at hi
      simpa [BrokerState.setCall,callData] using hi
    · simpa [BrokerState.setCall,hj,Ne.symm hj] using hi
  | queued j c h q call put =>
    by_cases hj : j = i
    · subst hj
      rw [call] at hi
      simpa [BrokerState.setCall,callData] using hi
    · simpa [BrokerState.setCall,Ne.symm hj] using hi
  | returned j c call full =>
    by_cases hj : j = i
    · subst hj
      rw [call] at hi
      simpa [BrokerState.setCall,BrokerState.putReturn,callData] using hi
    · simpa [BrokerState.setCall,BrokerState.putReturn,hj,Ne.symm hj] using hi
  | kept b q put => simpa using hi
  | dropped b full => simpa using hi
  | idle => exact hi
  | taken x q held get => exact hi
  | sent j b held => simpa using hi
  | got b q get => simpa using hi
  | getTimeout empty => simpa using hi
  | cleared => simpa [BrokerState.uartBrokerClearReceiveQueue] using hi
  | echoSet echo => simpa [BrokerState.uartBrokerSetEcho] using hi

end Calls

section Effects

variable [DecidableEq ι]

structure Apart (s k : BrokerState (Speaker ι)) : Prop where
  calls : k.calls .answer = s.calls .answer
  called : k.log.flatMap (calledData .answer) = s.log.flatMap (calledData .answer)
  returned : k.log.flatMap (returnedBytes .answer) = s.log.flatMap (returnedBytes .answer)
  finished : k.log.flatMap (finished .answer) = s.log.flatMap (finished .answer)

theorem put_apart {s k : BrokerState (Speaker ι)} {i : Speaker ι} (hi : i ≠ .answer)
    (h : s.uartBrokerPut i = some k) :
    Apart s k ∧ k.log.flatMap removedBytes = s.log.flatMap removedBytes := by
  unfold BrokerState.uartBrokerPut at h
  cases hc : s.calls i with
  | none => simp [hc] at h
  | some c =>
    simp only [hc] at h
    split at h
    · cases hp : s.msgqTx.put (i, c.data[c.cnt]) with
      | none => simp [hp] at h
      | some q =>
        simp only [hp,Option.some.injEq] at h
        subst h
        refine ⟨⟨?_,?_,?_,?_⟩,?_⟩ <;> simp [BrokerState.setCall,Ne.symm hi]
    · cases h
      refine ⟨⟨?_,?_,?_,?_⟩,?_⟩ <;> simp [BrokerState.putReturn,BrokerState.setCall,hi,Ne.symm hi]

theorem putTimeout_apart {s k : BrokerState (Speaker ι)} {i : Speaker ι} (hi : i ≠ .answer)
    (h : s.putTimeout i = some k) :
    Apart s k ∧ k.log.flatMap removedBytes = s.log.flatMap removedBytes := by
  unfold BrokerState.putTimeout at h
  cases hc : s.calls i with
  | none => simp [hc] at h
  | some c =>
    simp only [hc] at h
    split at h
    · cases h
      refine ⟨⟨?_,?_,?_,?_⟩,?_⟩ <;> simp [BrokerState.putReturn,BrokerState.setCall,hi,Ne.symm hi]
    · cases h

theorem call_apart {s k : BrokerState (Speaker ι)} {i : Speaker ι} (hi : i ≠ .answer)
    {data : List UInt8} (h : s.step (.call i data) = some k) :
    Apart s k ∧ k.log.flatMap removedBytes = s.log.flatMap removedBytes := by
  simp only [BrokerState.step] at h
  cases hc : s.calls i with
  | some c => simp [hc] at h
  | none =>
    simp only [hc,Option.some.injEq] at h
    subst h
    refine ⟨⟨?_,?_,?_,?_⟩,?_⟩ <;> simp [BrokerState.setCall,hi,Ne.symm hi]

theorem irq_apart (s : BrokerState (Speaker ι)) (irqUpdate rxReady : Bool) (b : UInt8) :
    Apart s (s.uartBrokerFifoCb irqUpdate rxReady b) ∧
      (s.uartBrokerFifoCb irqUpdate rxReady b).log.flatMap removedBytes =
        s.log.flatMap removedBytes := by
  unfold BrokerState.uartBrokerFifoCb
  cases irqUpdate with
  | false => exact ⟨⟨rfl,rfl,rfl,rfl⟩,rfl⟩
  | true =>
    cases rxReady with
    | false => exact ⟨⟨rfl,rfl,rfl,rfl⟩,rfl⟩
    | true =>
      simp only [Bool.not_true,Bool.false_eq_true,if_false,if_true]
      cases hp : s.msgqRx.put b with
      | none =>
        rw [BrokerState.receive_dropped hp]
        cases he : s.isEcho <;> refine ⟨⟨?_,?_,?_,?_⟩,?_⟩ <;> simp [he]
      | some q =>
        rw [BrokerState.receive_kept hp]
        cases s.isEcho <;> refine ⟨⟨?_,?_,?_,?_⟩,?_⟩ <;> simp

theorem thread_apart (s : BrokerState (Speaker ι)) :
    Apart s s.uartBrokerThread ∧
      s.uartBrokerThread.log.flatMap removedBytes = s.log.flatMap removedBytes := by
  unfold BrokerState.uartBrokerThread
  cases hh : s.held with
  | some x => refine ⟨⟨?_,?_,?_,?_⟩,?_⟩ <;> simp
  | none =>
    cases hg : s.msgqTx.get with
    | none => exact ⟨⟨rfl,rfl,rfl,rfl⟩,rfl⟩
    | some r => exact ⟨⟨rfl,rfl,rfl,rfl⟩,rfl⟩

theorem outside_apart {s k : BrokerState (Speaker ι)} {m : BrokerMove (Speaker ι)}
    (hm : m.outside = true) (h : s.step m = some k) :
    Apart s k ∧ k.log.flatMap removedBytes = s.log.flatMap removedBytes := by
  cases m with
  | irq irqUpdate rxReady b =>
    cases h
    exact irq_apart s irqUpdate rxReady b
  | thread =>
    cases h
    exact thread_apart s
  | call i data =>
    cases i with
    | other i => exact call_apart (by simp) h
    | _ => cases hm
  | put i =>
    cases i with
    | other i => exact put_apart (by simp) h
    | _ => cases hm
  | putTimeout i =>
    cases i with
    | other i => exact putTimeout_apart (by simp) h
    | _ => cases hm
  | _ => cases hm

theorem session_apart {s k : BrokerState (Speaker ι)} {m : BrokerMove (Speaker ι)}
    (hm : m.inSession = true) (h : s.step m = some k) :
    Apart s k ∧ s.log.flatMap removedBytes <+: k.log.flatMap removedBytes := by
  cases m with
  | call i data =>
    cases i with
    | session =>
      obtain ⟨hapart,hsame⟩ := call_apart (by simp) h
      exact ⟨hapart,hsame ▸ List.prefix_rfl⟩
    | _ => cases hm
  | put i =>
    cases i with
    | session =>
      obtain ⟨hapart,hsame⟩ := put_apart (by simp) h
      exact ⟨hapart,hsame ▸ List.prefix_rfl⟩
    | _ => cases hm
  | putTimeout i =>
    cases i with
    | session =>
      obtain ⟨hapart,hsame⟩ := putTimeout_apart (by simp) h
      exact ⟨hapart,hsame ▸ List.prefix_rfl⟩
    | _ => cases hm
  | get =>
    simp only [BrokerState.step,BrokerState.uartBrokerGetByteTm] at h
    cases hg : s.msgqRx.get with
    | none => simp [hg] at h
    | some r =>
      simp only [hg,Option.some.injEq] at h
      subst h
      refine ⟨⟨?_,?_,?_,?_⟩,?_⟩ <;> simp
  | getTimeout =>
    simp only [BrokerState.step,BrokerState.getTimeout] at h
    cases hg : s.msgqRx.get with
    | some r => simp [hg] at h
    | none =>
      simp only [hg,Option.some.injEq] at h
      subst h
      refine ⟨⟨?_,?_,?_,?_⟩,?_⟩ <;> simp
  | clear =>
    cases h
    refine ⟨⟨?_,?_,?_,?_⟩,?_⟩ <;> simp [BrokerState.uartBrokerClearReceiveQueue]
  | setEcho echo =>
    cases h
    refine ⟨⟨?_,?_,?_,?_⟩,?_⟩ <;> simp [BrokerState.uartBrokerSetEcho]
  | _ => cases hm

theorem answer_called {s k : BrokerState (Speaker ι)} {text : List UInt8}
    (h : s.step (.call .answer text) = some k) :
    k.log.flatMap (calledData .answer) = s.log.flatMap (calledData .answer) ++ [text] ∧
      k.log.flatMap removedBytes = s.log.flatMap removedBytes ∧ k.calls .answer ≠ none := by
  simp only [BrokerState.step] at h
  cases hc : s.calls .answer with
  | some c => simp [hc] at h
  | none =>
    simp only [hc,Option.some.injEq] at h
    subst h
    refine ⟨?_,?_,?_⟩ <;> simp [BrokerState.setCall]

theorem answer_put {s k : BrokerState (Speaker ι)}
    (h : s.step (.put .answer) = some k ∨ s.step (.putTimeout .answer) = some k) :
    k.log.flatMap (calledData .answer) = s.log.flatMap (calledData .answer) ∧
      k.log.flatMap removedBytes = s.log.flatMap removedBytes := by
  simp only [BrokerState.step,BrokerState.uartBrokerPut,BrokerState.putTimeout] at h
  cases hc : s.calls .answer with
  | none => simp [hc] at h
  | some c =>
    simp only [hc] at h
    rcases h with h | h
    · split at h
      · cases hp : s.msgqTx.put (.answer, c.data[c.cnt]) with
        | none => simp [hp] at h
        | some q =>
          simp only [hp,Option.some.injEq] at h
          subst h
          constructor <;> simp [BrokerState.setCall]
      · cases h
        constructor <;> simp [BrokerState.putReturn,BrokerState.setCall]
    · split at h
      · cases h
        constructor <;> simp [BrokerState.putReturn,BrokerState.setCall]
      · cases h

theorem getTimeout_removes {s k : BrokerState (Speaker ι)} (h : s.step .getTimeout = some k) :
    k.log.flatMap removedBytes = s.log.flatMap removedBytes := by
  simp only [BrokerState.step,BrokerState.getTimeout] at h
  cases hg : s.msgqRx.get with
  | some r => simp [hg] at h
  | none =>
    simp only [hg,Option.some.injEq] at h
    subst h
    simp

theorem answer_opened {s k : BrokerState (Speaker ι)} {text : List UInt8}
    (h : s.step (.call .answer text) = some k) :
    k.log.flatMap (finished .answer) = s.log.flatMap (finished .answer) ∧
      k.log.flatMap (returnedBytes .answer) = s.log.flatMap (returnedBytes .answer) := by
  simp only [BrokerState.step] at h
  cases hc : s.calls .answer with
  | some c => simp [hc] at h
  | none =>
    simp only [hc,Option.some.injEq] at h
    subst h
    constructor <;> simp [BrokerState.setCall]

theorem answer_returned {s k : BrokerState (Speaker ι)} (h : s.step (.put .answer) = some k) :
    ∃ ds : List (List UInt8),
      k.log.flatMap (finished .answer) = s.log.flatMap (finished .answer) ++ ds ∧
      k.log.flatMap (returnedBytes .answer) = s.log.flatMap (returnedBytes .answer) ++ ds.flatten := by
  simp only [BrokerState.step,BrokerState.uartBrokerPut] at h
  cases hc : s.calls .answer with
  | none => simp [hc] at h
  | some c =>
    simp only [hc] at h
    split at h
    · cases hp : s.msgqTx.put (.answer, c.data[c.cnt]) with
      | none => simp [hp] at h
      | some q =>
        simp only [hp,Option.some.injEq] at h
        subst h
        exact ⟨[],by simp [BrokerState.setCall],by simp [BrokerState.setCall]⟩
    · rename_i hge
      have htake : c.data.take c.cnt = c.data := List.take_of_length_le (not_lt.1 hge)
      cases h
      exact ⟨[c.data],by simp [BrokerState.putReturn,BrokerState.setCall],
        by simp [BrokerState.putReturn,BrokerState.setCall,htake]⟩

end Effects

section Moves

variable [DecidableEq ι] {s s' : Console ι}

theorem step_get (h : s.step .get = some s') : ∃ b q k, s.phase = .polling ∧
    s.broker.msgqRx.get = some (b, q) ∧ s.broker.step .get = some k ∧
    { s with broker := k, phase := .parsing b } = s' := by
  simp only [Console.step] at h
  cases hp : s.phase with
  | polling =>
    cases hq : s.broker.msgqRx.get with
    | none => simp [hp,hq] at h
    | some r =>
      simp only [hp,hq] at h
      obtain ⟨k,hk,rfl⟩ := Option.map_eq_some_iff.1 h
      exact ⟨r.1,r.2,k,rfl,rfl,hk,rfl⟩
  | parsing b => simp [hp] at h
  | answering => simp [hp] at h

theorem step_broker {bm : BrokerMove (Speaker ι)} (h : s.step (.broker bm) = some s') :
    ∃ k, bm.outside = true ∧ s.broker.step bm = some k ∧ { s with broker := k } = s' := by
  simp only [Console.step] at h
  split_ifs at h with hm
  obtain ⟨k,hk,rfl⟩ := Option.map_eq_some_iff.1 h
  exact ⟨k,hm,hk,rfl⟩

theorem step_session {bm : BrokerMove (Speaker ι)} (h : s.step (.session bm) = some s') :
    ∃ k, bm.inSession = true ∧ s.broker.step bm = some k ∧ { s with broker := k } = s' := by
  simp only [Console.step] at h
  cases hp : s.phase with
  | parsing b =>
    simp only [hp] at h
    split_ifs at h with hm
    obtain ⟨k,hk,rfl⟩ := Option.map_eq_some_iff.1 h
    exact ⟨k,hm,hk,rfl⟩
  | polling => simp [hp] at h
  | answering => simp [hp] at h

theorem step_parse {w : World} (h : s.step (.parse w) = some s') : ∃ b st, s.phase = .parsing b ∧
    deviceStep s.device b w = .ok st ∧ s.parse b w st = some s' := by
  simp only [Console.step] at h
  cases hp : s.phase with
  | parsing b =>
    cases hc : s.broker.calls .session with
    | some c => simp [hp,hc] at h
    | none =>
      simp only [hp,hc] at h
      cases hst : deviceStep s.device b w with
      | error e => simp [hst] at h
      | ok st =>
        simp only [hst] at h
        exact ⟨b,st,rfl,hst,h⟩
  | polling => simp [hp] at h
  | answering => simp [hp] at h

theorem step_answering {mv : ConsoleMove ι} {bm : BrokerMove (Speaker ι)}
    (hm : mv = .put ∧ bm = .put .answer ∨ mv = .putTimeout ∧ bm = .putTimeout .answer)
    (h : s.step mv = some s') :
    ∃ k, s.phase = .answering ∧ s.broker.step bm = some k ∧ s.putOn k = s' := by
  cases hp : s.phase with
  | answering =>
    have hmap : (s.broker.step bm).map s.putOn = some s' := by
      rcases hm with ⟨rfl,rfl⟩ | ⟨rfl,rfl⟩ <;>
      · simp only [Console.step,hp] at h
        exact h
    obtain ⟨k,hk,rfl⟩ := Option.map_eq_some_iff.1 hmap
    exact ⟨k,rfl,hk,rfl⟩
  | polling => rcases hm with ⟨rfl,rfl⟩ | ⟨rfl,rfl⟩ <;> simp [Console.step,hp] at h
  | parsing b => rcases hm with ⟨rfl,rfl⟩ | ⟨rfl,rfl⟩ <;> simp [Console.step,hp] at h

theorem step_turn {attempt : Attempt} (h : s.step (.turn attempt) = some s') :
    ∃ k t, s.phase = .polling ∧ s.broker.step .getTimeout = some k ∧
      mainTurn s.main ⟨s.input, attempt⟩ = .ok t ∧ s.turn attempt k t = s' := by
  simp only [Console.step] at h
  cases hp : s.phase with
  | polling =>
    simp only [hp] at h
    cases hk : s.broker.step .getTimeout with
    | none => simp [hk] at h
    | some k =>
      cases ht : mainTurn s.main ⟨s.input, attempt⟩ with
      | error e => simp [hk,ht] at h
      | ok t =>
        simp only [hk,ht,Option.some.injEq] at h
        exact ⟨k,t,rfl,rfl,rfl,h⟩
  | parsing b => simp [hp] at h
  | answering => simp [hp] at h

end Moves

end SipfClient.Broker
