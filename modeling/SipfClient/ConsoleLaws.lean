import SipfClient.ConsoleMoves
set_option autoImplicit false

namespace SipfClient.Broker
open BoundedQueues HexText Runs

variable {ι : Type}

section Rounds

theorem drain_snoc {d d' : Device} {input : List (UInt8 × World)} {steps : List Step}
    (h : drain d input = .ok (steps, d')) {b : UInt8} {w : World} {st : Step}
    (hst : deviceStep d' b w = .ok st) :
    drain d (input ++ [(b, w)]) = .ok (steps ++ [st], st.device) := by
  induction input generalizing d steps with
  | nil =>
    cases h
    simp only [List.nil_append,drain,hst]
    rfl
  | cons x input ih =>
    obtain ⟨b',w'⟩ := x
    obtain ⟨s,hs,h⟩ := bind_ok h
    obtain ⟨⟨rest,d''⟩,hrest,h⟩ := bind_ok h
    cases h
    have hlast := ih hrest
    simp only [List.cons_append,drain,hs,bind,Except.bind,hlast]
    rfl

def lastMain (m : Main) (turns : List Turn) : Main := (turns.getLast?.map Turn.main).getD m

theorem lastMain_snoc (m : Main) (turns : List Turn) (t : Turn) :
    lastMain m (turns ++ [t]) = t.main := by
  simp [lastMain]

theorem mainRun_snoc {m : Main} {rounds : List Iteration} {turns : List Turn}
    (h : mainRun m rounds = turns) (hcount : turns.length = rounds.length) {it : Iteration} {t : Turn}
    (ht : mainTurn (lastMain m turns) it = .ok t) : mainRun m (rounds ++ [it]) = turns ++ [t] := by
  induction rounds generalizing m turns with
  | nil =>
    cases h
    have ht' : mainTurn m it = .ok t := ht
    simp [mainRun,ht']
  | cons r rounds ih =>
    simp only [mainRun] at h
    cases hr : mainTurn m r with
    | error e =>
      simp only [hr] at h
      subst h
      simp at hcount
    | ok t1 =>
      simp only [hr] at h
      subst h
      have hlast : lastMain m (t1 :: mainRun t1.main rounds) =
          lastMain t1.main (mainRun t1.main rounds) := by
        simp only [lastMain,List.getLast?_cons]
        cases (mainRun t1.main rounds).getLast? <;> rfl
      rw [hlast] at ht
      simp only [List.cons_append,mainRun,hr]
      rw [ih rfl (by simpa using hcount) ht]

end Rounds

section Console

variable [DecidableEq ι]

namespace Console

def bytes (s : Console ι) : List UInt8 :=
  (s.rounds.flatMap Iteration.input ++ s.input).map Prod.fst ++
    match s.phase with
    | .parsing b => [b]
    | _ => []

def responses (s : Console ι) : List (List UInt8) :=
  (s.turns.flatMap Turn.steps ++ s.steps).filterMap Step.response

end Console

structure Follows (m : Main) (s : Console ι) : Prop where
  broker : Inv s.broker
  opened : CallsOpen .answer s.broker
  turns : mainRun m s.rounds = s.turns
  count : s.turns.length = s.rounds.length
  main : lastMain m s.turns = s.main
  input : drain s.main.device s.input = .ok (s.steps, s.device)
  spoken : s.broker.log.flatMap (calledData .answer) = s.responses
  bytes : s.bytes.Sublist (s.broker.log.flatMap removedBytes)
  calling : s.phase = .answering ↔ s.broker.calls .answer ≠ none

theorem follows_ready (m : Main) : Follows m (Console.ready m : Console ι) :=
  ⟨inv_init,rfl,rfl,rfl,rfl,rfl,rfl,.slnil,by simp [Console.ready,BrokerState.init]⟩

variable {m : Main} {s : Console ι}

theorem Follows.silent (h : Follows m s) (hp : s.phase ≠ .answering) : s.broker.calls .answer = none :=
  not_not.1 fun hc => hp (h.calling.2 hc)

theorem apart_follows (h : Follows m s) {k : BrokerState (Speaker ι)} {bm : BrokerMove (Speaker ι)}
    (hk : s.broker.step bm = some k) (ha : Apart s.broker k)
    (hr : (s.broker.log.flatMap removedBytes).Sublist (k.log.flatMap removedBytes)) :
    Follows m { s with broker := k } where
  broker := inv_step h.broker (step_transition hk)
  opened := callsOpen_step (step_transition hk) h.opened
  turns := h.turns
  count := h.count
  main := h.main
  input := h.input
  spoken := ha.called.trans h.spoken
  bytes := h.bytes.trans hr
  calling := by rw [ha.calls]; exact h.calling

theorem get_follows (h : Follows m s) (hp : s.phase = .polling) {k : BrokerState (Speaker ι)}
    {b : UInt8} {q : Queue UInt8 uartRxBufSz} (hq : s.broker.msgqRx.get = some (b, q))
    (hk : s.broker.step .get = some k) : Follows m { s with broker := k, phase := .parsing b } := by
  obtain ⟨ha,-⟩ := @session_apart ι _ s.broker k .get rfl hk
  have hremoved : k.log.flatMap removedBytes = s.broker.log.flatMap removedBytes ++ [b] := by
    simp only [BrokerState.step,BrokerState.uartBrokerGetByteTm,hq,Option.some.injEq] at hk
    subst hk
    simp
  refine ⟨inv_step h.broker (step_transition hk),callsOpen_step (step_transition hk) h.opened,h.turns,
    h.count,h.main,h.input,ha.called.trans h.spoken,?_,by simp [ha.calls,h.silent (by simp [hp])]⟩
  have hbytes := h.bytes
  rw [Console.bytes,hp,List.append_nil] at hbytes
  rw [hremoved]
  exact hbytes.append_right [b]

theorem parse_follows (h : Follows m s) {b : UInt8} (hp : s.phase = .parsing b) {w : World} {st : Step}
    (hst : deviceStep s.device b w = .ok st) {s' : Console ι} (hs : s.parse b w st = some s') :
    Follows m s' := by
  have hidle := h.silent (by simp [hp])
  have hinput := drain_snoc h.input hst
  have hbytes := h.bytes
  rw [Console.bytes,hp] at hbytes
  have hread : ((s.rounds.flatMap Iteration.input ++ (s.input ++ [(b, w)])).map Prod.fst).Sublist
      (s.broker.log.flatMap removedBytes) := by
    simpa using hbytes
  have hspoken : (s.turns.flatMap Turn.steps ++ (s.steps ++ [st])).filterMap Step.response =
      s.responses ++ st.response.toList := by
    rw [← List.append_assoc,List.filterMap_append,Console.responses]
    cases hr : st.response <;> simp [hr]
  simp only [Console.parse] at hs
  cases hr : st.response with
  | none =>
    simp only [hr,Option.some.injEq] at hs
    subst hs
    refine ⟨h.broker,h.opened,h.turns,h.count,h.main,hinput,?_,by simpa [Console.bytes] using hread,
      by simp [hidle]⟩
    rw [Console.responses,hspoken,hr,h.spoken]
    simp
  | some text =>
    simp only [hr,Option.map_eq_some_iff] at hs
    obtain ⟨k,hk,rfl⟩ := hs
    obtain ⟨hcalled,hremoved,hcalls⟩ := answer_called hk
    refine ⟨inv_step h.broker (step_transition hk),callsOpen_step (step_transition hk) h.opened,
      h.turns,h.count,h.main,hinput,?_,?_,by simp [hcalls]⟩
    · rw [Console.responses,hspoken,hr,hcalled,h.spoken]
      rfl
    · rw [hremoved]
      simpa [Console.bytes] using hread

theorem put_follows (h : Follows m s) (hp : s.phase = .answering) {k : BrokerState (Speaker ι)}
    {bm : BrokerMove (Speaker ι)} (hk : s.broker.step bm = some k)
    (hcalled : k.log.flatMap (calledData .answer) = s.broker.log.flatMap (calledData .answer))
    (hremoved : k.log.flatMap removedBytes = s.broker.log.flatMap removedBytes) :
    Follows m (s.putOn k) := by
  have hbytes := h.bytes
  rw [Console.bytes,hp,List.append_nil] at hbytes
  refine ⟨inv_step h.broker (step_transition hk),callsOpen_step (step_transition hk) h.opened,h.turns,
    h.count,h.main,h.input,hcalled.trans h.spoken,?_,?_⟩
  · rw [Console.putOn,hremoved,Console.bytes]
    split_ifs <;> simpa using hbytes
  · cases hc : k.calls .answer <;> simp [Console.putOn,hc]

theorem mainTurn_steps {m : Main} {it : Iteration} {t : Turn} (h : mainTurn m it = .ok t) {d : Device}
    {steps : List Step} (hdrain : drain m.device it.input = .ok (steps, d)) : t.steps = steps := by
  obtain ⟨⟨steps',d'⟩,hdrain',h⟩ := bind_ok h
  rw [hdrain] at hdrain'
  cases hdrain'
  simp only at h
  split_ifs at h <;> cases h <;> rfl

theorem turn_follows (h : Follows m s) (hp : s.phase = .polling) {attempt : Attempt}
    {k : BrokerState (Speaker ι)} (hk : s.broker.step .getTimeout = some k) {t : Turn}
    (ht : mainTurn s.main ⟨s.input, attempt⟩ = .ok t) : Follows m (s.turn attempt k t) := by
  obtain ⟨ha,hr⟩ := @session_apart ι _ s.broker k .getTimeout rfl hk
  have hsteps : t.steps = s.steps := mainTurn_steps ht h.input
  have hbytes := h.bytes
  rw [Console.bytes,hp,List.append_nil] at hbytes
  refine ⟨inv_step h.broker (step_transition hk),callsOpen_step (step_transition hk) h.opened,
    mainRun_snoc h.turns h.count (by rw [h.main]; exact ht),by simp [Console.turn,h.count],
    lastMain_snoc _ _ _,rfl,?_,?_,by simp [Console.turn,ha.calls,h.silent (by simp [hp])]⟩
  · rw [Console.responses,Console.turn,ha.called,h.spoken,Console.responses]
    simp [hsteps]
  · refine (List.Sublist.trans ?_ hbytes).trans hr.sublist
    simp [Console.turn,Console.bytes]

theorem follows_step (h : Follows m s) {mv : ConsoleMove ι} {s' : Console ι}
    (hs : s.step mv = some s') : Follows m s' := by
  cases mv with
  | broker bm =>
    obtain ⟨k,hm,hk,rfl⟩ := step_broker hs
    obtain ⟨ha,hr⟩ := outside_apart hm hk
    exact apart_follows h hk ha (by rw [hr])
  | session bm =>
    obtain ⟨k,hm,hk,rfl⟩ := step_session hs
    obtain ⟨ha,hr⟩ := session_apart hm hk
    exact apart_follows h hk ha hr.sublist
  | get =>
    obtain ⟨b,q,k,hp,hq,hk,rfl⟩ := step_get hs
    exact get_follows h hp hq hk
  | parse w =>
    obtain ⟨b,st,hp,hst,hs⟩ := step_parse hs
    exact parse_follows h hp hst hs
  | put =>
    obtain ⟨k,hp,hk,rfl⟩ := step_answering (.inl ⟨rfl,rfl⟩) hs
    obtain ⟨hcalled,hremoved⟩ := answer_put (.inl hk)
    exact put_follows h hp hk hcalled hremoved
  | putTimeout =>
    obtain ⟨k,hp,hk,rfl⟩ := step_answering (.inr ⟨rfl,rfl⟩) hs
    obtain ⟨hcalled,hremoved⟩ := answer_put (.inr hk)
    exact put_follows h hp hk hcalled hremoved
  | turn attempt =>
    obtain ⟨k,t,hp,hk,ht,rfl⟩ := step_turn hs
    exact turn_follows h hp hk ht

structure Refines (m : Main) (s : Console ι) : Prop where
  rounds : mainRun m s.rounds = s.turns ∧ s.turns.length = s.rounds.length
  input : drain (lastMain m s.turns).device s.input = .ok (s.steps, s.device)
  bytes : s.bytes.Sublist (s.broker.log.flatMap keptBytes)
  answers : s.responses = s.broker.log.flatMap (finished .answer) ++ callData (s.broker.calls .answer)
  queued : (s.broker.log.flatMap queuedBytes).flatMap (bytesOf .answer) =
    s.broker.log.flatMap (returnedBytes .answer) ++ callBytes (s.broker.calls .answer)
  wire : s.broker.log.flatMap sentBytes <+: s.broker.log.flatMap queuedBytes

theorem console_follows {moves : List (ConsoleMove ι)}
    (h : run Console.step (.ready m) moves = some s) : Follows m s :=
  run_inv (Follows m) (fun _ _ _ hi hs => follows_step hi hs) (follows_ready m) h

/-- Whatever the other parties do in between: the rounds are those of the loop alone, on bytes of the
line in their order, and its responses are put one after another, in their order. -/
theorem console_refines {moves : List (ConsoleMove ι)}
    (h : run Console.step (.ready m) moves = some s) : Refines m s := by
  have hi := console_follows h
  have hrx := hi.broker.rx.isPrefix
  exact ⟨⟨hi.turns,hi.count⟩,hi.main ▸ hi.input,hi.bytes.trans hrx.sublist,
    hi.spoken.symm.trans hi.opened,hi.broker.calls .answer,⟨_,hi.broker.tx.symm⟩⟩

section Typed

def freshMain : Main := ⟨.init (registersReset (.boot ⟨1, 2, 3, 4⟩)), 0x01⟩

def typedRead : List (ConsoleMove Unit) :=
  (ascii "$R F1\r").flatMap (fun b => [.broker (.irq true true b),.get,.parse .quiet]) ++
    [.broker (.call (.other ()) [0x21]),.put,.broker (.put (.other ()))] ++ List.replicate 8 .put ++
    List.replicate 18 (.broker .thread) ++ [.turn ⟨0, 0⟩]

theorem typedRead_runs : (run Console.step (.ready freshMain) typedRead).isSome := by
  decide +kernel

theorem console_refines_typed :
    (run Console.step (.ready freshMain) typedRead).map (fun s => s.turns.map fun t =>
      t.steps.filterMap Step.response) = some [[ascii "02\r\nOK\r\n"]] ∧
    Refines freshMain ((run Console.step (.ready freshMain) typedRead).get typedRead_runs) :=
  ⟨by decide +kernel,console_refines (Option.some_get typedRead_runs).symm⟩

end Typed

section Progress

theorem putOn_lifts {moves : List (BrokerMove (Speaker ι))} {k : BrokerState (Speaker ι)}
    (hs : s.putOn s.broker = s) (hmoves : ∀ bm ∈ moves, bm = .thread ∨ bm = .put .answer)
    (h : run BrokerState.step s.broker moves = some k) :
    ∃ own : List (ConsoleMove ι), own.length = moves.length ∧
      (∀ mv ∈ own, mv = .put ∨ mv = .broker .thread) ∧ run Console.step s own = some (s.putOn k) := by
  induction moves generalizing s with
  | nil =>
    cases h
    exact ⟨[],rfl,by simp,by rw [hs]; rfl⟩
  | cons bm moves ih =>
    obtain ⟨k1,hk,hrest⟩ := Option.bind_eq_some_iff.1 h
    have hphase := congrArg Console.phase hs
    have hnext : ∃ mv, (mv = .put ∨ mv = .broker .thread) ∧ s.step mv = some (s.putOn k1) := by
      rcases hmoves bm List.mem_cons_self with rfl | rfl
      · cases hk
        refine ⟨.broker .thread,.inr rfl,?_⟩
        simp only [Console.putOn] at hphase
        rw [Console.putOn,(thread_apart s.broker).1.calls,hphase]
        rfl
      · refine ⟨.put,.inl rfl,?_⟩
        cases hc : s.broker.calls .answer with
        | none => simp [BrokerState.step,BrokerState.uartBrokerPut,hc] at hk
        | some c =>
          have hp : s.phase = .answering := by simpa [Console.putOn,hc] using hphase.symm
          simp [Console.step,hp,hk]
    obtain ⟨mv,hmv,hstep⟩ := hnext
    obtain ⟨own,hlen,hown,hrun⟩ := @ih (s.putOn k1) rfl
      (fun bm hbm => hmoves bm (List.mem_cons_of_mem _ hbm)) hrest
    refine ⟨mv :: own,by simp [hlen],List.forall_mem_cons.2 ⟨hmv,hown⟩,?_⟩
    rw [run,hstep]
    exact hrun

/-- Up to a fault `main` always has a move, and the broker's thread is all it needs to bring the
response under way to its end. -/
structure GoesOn (s : Console ι) : Prop where
  polling : s.phase = .polling → ∀ attempt, (s.step .get).isSome ∨ (s.step (.turn attempt)).isSome
  parsing : ∀ b w st, s.phase = .parsing b → s.broker.calls .session = none →
    deviceStep s.device b w = .ok st → (s.step (.parse w)).isSome
  answering : s.phase = .answering → ∃ text moves s', s.responses.getLast? = some text ∧
    (∀ mv ∈ moves, mv = .put ∨ mv = .broker .thread) ∧ moves.length ≤ 3 * text.length + 1 ∧
    run Console.step s moves = some s' ∧ s'.phase = .polling ∧ s'.responses = s.responses ∧
    s'.broker.log.getLast? = some (.returned .answer text text.length)

theorem mainTurn_drained {m : Main} {it : Iteration} {steps : List Step} {d : Device}
    (h : drain m.device it.input = .ok (steps, d)) : ∃ t, mainTurn m it = .ok t := by
  simp only [mainTurn,h,bind,Except.bind]
  split_ifs <;> exact ⟨_,rfl⟩

theorem follows_polls (h : Follows m s) (hp : s.phase = .polling) (attempt : Attempt) :
    (s.step .get).isSome ∨ (s.step (.turn attempt)).isSome := by
  obtain ⟨t,ht⟩ := @mainTurn_drained s.main ⟨s.input, attempt⟩ _ _ h.input
  cases hq : s.broker.msgqRx.get with
  | some r =>
    refine .inl ?_
    simp [Console.step,hp,hq,BrokerState.step,BrokerState.uartBrokerGetByteTm]
  | none =>
    refine .inr ?_
    simp [Console.step,hp,ht,hq,BrokerState.step,BrokerState.getTimeout]

theorem follows_parses (h : Follows m s) {b : UInt8} {w : World} {st : Step}
    (hp : s.phase = .parsing b) (hidle : s.broker.calls .session = none) (hst : deviceStep s.device b w = .ok st) :
    (s.step (.parse w)).isSome := by
  have hsilent := h.silent (by simp [hp])
  simp only [Console.step,hp,hidle,hst,Console.parse]
  cases st.response <;> simp [BrokerState.step,hsilent]

theorem console_goes_on {moves : List (ConsoleMove ι)}
    (h : run Console.step (.ready m) moves = some s) : GoesOn s := by
  have hi := console_follows h
  refine ⟨follows_polls hi,fun b w st hp hidle hst => follows_parses hi hp hidle hst,fun hp => ?_⟩
  obtain ⟨c,hc⟩ := Option.ne_none_iff_exists'.1 (hi.calling.1 hp)
  obtain ⟨moves',k,hmoves,hlen,hrun,hnone,-,hlast⟩ := call_completes hc
  have hstands : s.putOn s.broker = s := by
    simp [Console.putOn,hc,← hp]
  obtain ⟨own,hcount,hown,hrun'⟩ := putOn_lifts hstands hmoves hrun
  have hopened := hi.opened
  rw [CallsOpen,hi.spoken,hc] at hopened
  exact ⟨c.data,own,s.putOn k,by simp [hopened,callData],hown,by omega,hrun',
    by simp [Console.putOn,hnone],rfl,hlast⟩

theorem typedRead_answers : (run Console.step (.ready freshMain) (typedRead.take 18)).isSome := by
  decide +kernel

theorem console_goes_on_typed :
    (run Console.step (.ready freshMain) (typedRead.take 18)).map Console.phase = some .answering ∧
    GoesOn ((run Console.step (.ready freshMain) (typedRead.take 18)).get typedRead_answers) :=
  ⟨by decide +kernel,console_goes_on (Option.some_get typedRead_answers).symm⟩

end Progress

section Undisturbed

/-- No command has a session with the line, and no wait for the transmit queue is in vain. -/
def ConsoleMove.undisturbed : ConsoleMove ι → Bool
  | .session _ => false
  | .putTimeout => false
  | _ => true

structure Whole (s : Console ι) : Prop where
  bytes : s.broker.log.flatMap removedBytes = s.bytes
  returned : s.broker.log.flatMap (returnedBytes .answer) =
    (s.broker.log.flatMap (finished .answer)).flatten

theorem whole_ready (m : Main) : Whole (Console.ready m : Console ι) := ⟨rfl,rfl⟩

theorem get_whole (h : Whole s) (hp : s.phase = .polling) {k : BrokerState (Speaker ι)} {b : UInt8}
    {q : Queue UInt8 uartRxBufSz} (hq : s.broker.msgqRx.get = some (b, q))
    (hk : s.broker.step .get = some k) : Whole { s with broker := k, phase := .parsing b } := by
  obtain ⟨ha,-⟩ := @session_apart ι _ s.broker k .get rfl hk
  have hbytes := h.bytes
  rw [Console.bytes,hp,List.append_nil] at hbytes
  refine ⟨?_,by rw [ha.returned,ha.finished,h.returned]⟩
  simp only [BrokerState.step,BrokerState.uartBrokerGetByteTm,hq,Option.some.injEq] at hk
  subst hk
  simp [Console.bytes,hbytes]

theorem parse_whole (h : Whole s) {b : UInt8} (hp : s.phase = .parsing b) {w : World} {st : Step}
    {s' : Console ι} (hs : s.parse b w st = some s') : Whole s' := by
  have hbytes := h.bytes
  rw [Console.bytes,hp] at hbytes
  simp only [Console.parse] at hs
  cases hr : st.response with
  | none =>
    simp only [hr,Option.some.injEq] at hs
    subst hs
    exact ⟨by simpa [Console.bytes] using hbytes,h.returned⟩
  | some text =>
    simp only [hr,Option.map_eq_some_iff] at hs
    obtain ⟨k,hk,rfl⟩ := hs
    obtain ⟨hfinished,hreturned⟩ := answer_opened hk
    refine ⟨?_,by rw [hfinished,hreturned,h.returned]⟩
    rw [(answer_called hk).2.1]
    simpa [Console.bytes] using hbytes

theorem put_whole (h : Whole s) (hp : s.phase = .answering) {k : BrokerState (Speaker ι)}
    (hk : s.broker.step (.put .answer) = some k) : Whole (s.putOn k) := by
  obtain ⟨ds,hfinished,hreturned⟩ := answer_returned hk
  have hbytes := h.bytes
  rw [Console.bytes,hp,List.append_nil] at hbytes
  constructor
  · rw [Console.putOn,(answer_put (.inl hk)).2,Console.bytes]
    split_ifs <;> simpa using hbytes
  · rw [Console.putOn,hfinished,hreturned,h.returned,List.flatten_append]

theorem turn_whole (h : Whole s) (hp : s.phase = .polling) {attempt : Attempt}
    {k : BrokerState (Speaker ι)} (hk : s.broker.step .getTimeout = some k) (t : Turn) :
    Whole (s.turn attempt k t) := by
  obtain ⟨ha,-⟩ := @session_apart ι _ s.broker k .getTimeout rfl hk
  have hbytes := h.bytes
  rw [Console.bytes,hp,List.append_nil] at hbytes
  refine ⟨?_,by rw [Console.turn,ha.returned,ha.finished,h.returned]⟩
  rw [Console.turn,getTimeout_removes hk]
  simpa [Console.bytes] using hbytes

theorem whole_step (h : Whole s) {mv : ConsoleMove ι} (hmv : mv.undisturbed = true) {s' : Console ι}
    (hs : s.step mv = some s') : Whole s' := by
  cases mv with
  | broker bm =>
    obtain ⟨k,hm,hk,rfl⟩ := step_broker hs
    obtain ⟨ha,hr⟩ := outside_apart hm hk
    exact ⟨hr.trans h.bytes,by rw [ha.returned,ha.finished,h.returned]⟩
  | session bm => cases hmv
  | get =>
    obtain ⟨b,q,k,hp,hq,hk,rfl⟩ := step_get hs
    exact get_whole h hp hq hk
  | parse w =>
    obtain ⟨b,st,hp,-,hs⟩ := step_parse hs
    exact parse_whole h hp hs
  | put =>
    obtain ⟨k,hp,hk,rfl⟩ := step_answering (.inl ⟨rfl,rfl⟩) hs
    exact put_whole h hp hk
  | putTimeout => cases hmv
  | turn attempt =>
    obtain ⟨k,t,hp,hk,-,rfl⟩ := step_turn hs
    exact turn_whole h hp hk t

structure Exact (s : Console ι) : Prop where
  heard : s.broker.log.flatMap keptBytes = s.bytes ++ s.broker.msgqRx.items
  spoken : (s.broker.log.flatMap sentBytes).flatMap (bytesOf .answer) <+: s.responses.flatten
  drained : s.phase ≠ .answering → s.broker.held = none → s.broker.msgqTx.items = [] →
    (s.broker.log.flatMap sentBytes).flatMap (bytesOf .answer) = s.responses.flatten

/-- Where nothing disturbs the loop, it hears all that was kept, and all its answers go out whole. -/
theorem console_exact {moves : List (ConsoleMove ι)}
    (h : run Console.step (.ready m) moves = some s)
    (hmoves : ∀ mv ∈ moves, mv.undisturbed = true) : Exact s := by
  have hi := console_follows h
  have hw := run_inv_of Whole (fun mv => mv.undisturbed = true) (fun _ _ _ hs ha => whole_step hs ha)
    (whole_ready m) hmoves h
  have hcalls := hi.broker.calls .answer
  have htx := hi.broker.tx
  have hopened := hi.opened
  unfold CallsConserved at hcalls
  unfold TxConserved at htx
  unfold CallsOpen at hopened
  rw [hi.spoken] at hopened
  have hqueued :
      (s.broker.log.flatMap queuedBytes).flatMap (bytesOf .answer) <+: s.responses.flatten := by
    rw [hcalls,hw.returned,hopened,List.flatten_append]
    refine (List.prefix_append_right_inj _).2 ?_
    cases s.broker.calls .answer with
    | none => exact List.prefix_rfl
    | some c => simpa [callBytes,callData] using List.take_prefix c.cnt c.data
  refine ⟨hw.bytes ▸ hi.broker.rx,?_,fun hphase hheld hitems => ?_⟩
  · rw [htx,List.flatMap_append] at hqueued
    exact (List.prefix_append _ _).trans hqueued
  · rw [hheld,hitems] at htx
    have hidle := hi.silent hphase
    rw [hidle] at hcalls hopened
    have hsent : s.broker.log.flatMap queuedBytes = s.broker.log.flatMap sentBytes := by
      simpa using htx
    rw [← hsent,hcalls,hw.returned,hopened]
    simp [callBytes,callData]

theorem console_exact_typed :
    (run Console.step (.ready freshMain) typedRead).map (fun s =>
      (s.broker.log.flatMap sentBytes).map Prod.snd) = some (ascii "0!2\r\nOK\r\n") ∧
    Exact ((run Console.step (.ready freshMain) typedRead).get typedRead_runs) :=
  ⟨by decide +kernel,console_exact (Option.some_get typedRead_runs).symm (by decide +kernel)⟩

end Undisturbed

end Console

end SipfClient.Broker
