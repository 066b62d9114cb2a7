import SipfClient.BrokerThreads
import SipfClient.MainLoop
set_option autoImplicit false

/-!
The loop of `main` as one of the broker's parties. It polls the receive queue, hands each byte
to `CmdParse`, and puts a response into the transmit queue byte by byte, while the interrupt,
the broker's thread and other callers go on. A command may have a session of its own with the
line; an empty queue ends a round.
-/

namespace SipfClient.Broker
open BoundedQueues

/-- Who puts bytes into the transmit queue: `main` for a response, the command it has called for
its session, and the other callers. -/
inductive Speaker (ι : Type)
  | answer
  | session
  | other (i : ι)
  deriving DecidableEq, Repr

inductive MainPhase
  | polling
  | parsing (b : UInt8)
  | answering
  deriving DecidableEq, Repr

variable {ι : Type}

def BrokerMove.outside : BrokerMove (Speaker ι) → Bool
  | .irq _ _ _ => true
  | .thread => true
  | .call (.other _) _ => true
  | .put (.other _) => true
  | .putTimeout (.other _) => true
  | _ => false

/-- Moves of a command that talks to the line itself. -/
def BrokerMove.inSession : BrokerMove (Speaker ι) → Bool
  | .call .session _ => true
  | .put .session => true
  | .putTimeout .session => true
  | .get => true
  | .getTimeout => true
  | .clear => true
  | .setEcho _ => true
  | _ => false

structure Console (ι : Type) where
  broker : BrokerState (Speaker ι)
  phase : MainPhase
  /-- At the start of the round. -/
  main : Main
  device : Device
  /-- The bytes of this round that `CmdParse` has had, and what they led to. -/
  input : List (UInt8 × World)
  steps : List Step
  rounds : List Iteration
  turns : List Turn

inductive ConsoleMove (ι : Type)
  | broker (m : BrokerMove (Speaker ι))
  | session (m : BrokerMove (Speaker ι))
  | get
  /-- `CmdParse` returns; a command has met `w`. -/
  | parse (w : World)
  | put
  | putTimeout
  /-- The queue is empty, and the round ends with the check of the mode register. -/
  | turn (attempt : Attempt)

namespace Console

/-- The loop has not begun; what the boot puts is a call of another party. -/
def ready (m : Main) : Console ι := ⟨.init, .polling, m, m.device, [], [], [], []⟩

variable [DecidableEq ι]

def parse (s : Console ι) (b : UInt8) (w : World) (st : Step) : Option (Console ι) :=
  let s := { s with device := st.device, input := s.input ++ [(b, w)], steps := s.steps ++ [st] }
  match st.response with
  | some text =>
    (s.broker.step (.call .answer text)).map fun k => { s with broker := k, phase := .answering }
  | none => some { s with phase := .polling }

def putOn (s : Console ι) (k : BrokerState (Speaker ι)) : Console ι :=
  { s with broker := k, phase := if (k.calls .answer).isNone then .polling else .answering }

def turn (s : Console ι) (attempt : Attempt) (k : BrokerState (Speaker ι)) (t : Turn) : Console ι :=
  ⟨k, .polling, t.main, t.main.device, [], [], s.rounds ++ [⟨s.input, attempt⟩], s.turns ++ [t]⟩

/-- Nothing is said about what comes behind a fault. -/
def step (s : Console ι) : ConsoleMove ι → Option (Console ι)
  | .broker m => if m.outside then (s.broker.step m).map fun k => { s with broker := k } else none
  | .session m =>
    match s.phase with
    | .parsing _ =>
      if m.inSession then (s.broker.step m).map fun k => { s with broker := k } else none
    | _ => none
  | .get =>
    match s.phase, s.broker.msgqRx.get with
    | .polling, some (b, _) =>
      (s.broker.step .get).map fun k => { s with broker := k, phase := .parsing b }
    | _, _ => none
  | .parse w =>
    match s.phase, s.broker.calls .session with
    | .parsing b, none =>
      match deviceStep s.device b w with
      | .ok st => s.parse b w st
      | .error _ => none
    | _, _ => none
  | .put =>
    match s.phase with
    | .answering => (s.broker.step (.put .answer)).map s.putOn
    | _ => none
  | .putTimeout =>
    match s.phase with
    | .answering => (s.broker.step (.putTimeout .answer)).map s.putOn
    | _ => none
  | .turn attempt =>
    match s.phase with
    | .polling =>
      match s.broker.step .getTimeout, mainTurn s.main ⟨s.input, attempt⟩ with
      | some k, .ok t => some (s.turn attempt k t)
      | _, _ => none
    | _ => none

end Console

end SipfClient.Broker
