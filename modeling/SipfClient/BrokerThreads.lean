import SipfClient.BoundedQueues
import Mathlib.Logic.Function.Basic
set_option autoImplicit false

/-!
`uart_broker.c` as its parties see it: the interrupt, the broker's thread, and any number
of threads that call `UartBrokerPut`. They share two queues and the echo flag. A move of the
system is one access of one party to what they share; a party that waits has no move.
-/

namespace SipfClient.Broker
open BoundedQueues

def uartTxBufSz : Nat := 256

def uartRxBufSz : Nat := 1024

/-- A call of `UartBrokerPut` on its way: its loop has queued `cnt` of the bytes. -/
structure PutCall where
  data : List UInt8
  cnt : Nat
  le : cnt ≤ data.length

inductive BrokerEvent (ι : Type)
  /-- A byte read by the interrupt, and whether the receive queue had room for it. -/
  | arrived (b : UInt8) (kept : Bool)
  | echoed (b : UInt8)
  | called (i : ι) (data : List UInt8)
  | queued (i : ι) (b : UInt8)
  | returned (i : ι) (data : List UInt8) (cnt : Nat)
  /-- A byte of the transmit queue at `uart_poll_out`. -/
  | sent (i : ι) (b : UInt8)
  | got (b : UInt8)
  | getTimeout
  | cleared (bs : List UInt8)
  | echoSet (echo : Bool)
  deriving DecidableEq, Repr

/-- A byte waits for the wire together with the party it comes from, which the code does not
keep. -/
structure BrokerState (ι : Type) where
  msgqTx : Queue (ι × UInt8) uartTxBufSz
  msgqRx : Queue UInt8 uartRxBufSz
  isEcho : Bool
  /-- The variable `b` of the broker's thread between the queue and the wire. -/
  held : Option (ι × UInt8)
  calls : ι → Option PutCall
  log : List (BrokerEvent ι)

variable {ι : Type}

namespace BrokerState

def init : BrokerState ι := ⟨.empty, .empty, true, none, fun _ => none, []⟩

def record (s : BrokerState ι) (es : List (BrokerEvent ι)) : BrokerState ι :=
  { s with log := s.log ++ es }

/-- `k_msgq_put` with `K_NO_WAIT`: a full queue is left as it is. -/
def receive (s : BrokerState ι) (b : UInt8) : BrokerState ι :=
  match s.msgqRx.put b with
  | some q => { s with msgqRx := q }.record [.arrived b true]
  | none => s.record [.arrived b false]

/-- Nothing comes between the accesses of the interrupt. -/
def uartBrokerFifoCb (s : BrokerState ι) (irqUpdate rxReady : Bool) (b : UInt8) : BrokerState ι :=
  if !irqUpdate then s
  else if rxReady then
    let s := s.receive b
    if s.isEcho then s.record [.echoed b] else s
  else s

/-- One access of the `for` loop of `uart_broker_thread`. -/
def uartBrokerThread (s : BrokerState ι) : BrokerState ι :=
  match s.held with
  | some (i, b) => { s with held := none }.record [.sent i b]
  | none =>
    match s.msgqTx.get with
    | some (x, q) => { s with msgqTx := q, held := some x }
    | none => s

section Put

variable [DecidableEq ι]

def setCall (s : BrokerState ι) (i : ι) (c : Option PutCall) : BrokerState ι :=
  { s with calls := Function.update s.calls i c }

def putReturn (s : BrokerState ι) (i : ι) (c : PutCall) : BrokerState ι :=
  s.setCall i none |>.record [.returned i c.data c.cnt]

/-- A round of the loop of `UartBrokerPut`; with the queue full it waits in `k_msgq_put`. -/
def uartBrokerPut (s : BrokerState ι) (i : ι) : Option (BrokerState ι) :=
  match s.calls i with
  | none => none
  | some c =>
    if h : c.cnt < c.data.length then
      match s.msgqTx.put (i, c.data[c.cnt]) with
      | some q =>
        some ({ s with msgqTx := q }.setCall i (some { c with cnt := c.cnt + 1, le := h })
          |>.record [.queued i c.data[c.cnt]])
      | none => none
    else some (s.putReturn i c)

/-- The 10 ms of a `k_msgq_put` that waits are over. -/
def putTimeout (s : BrokerState ι) (i : ι) : Option (BrokerState ι) :=
  match s.calls i with
  | none => none
  | some c =>
    if c.cnt < c.data.length ∧ s.msgqTx.Full then some (s.putReturn i c) else none

end Put

/-- `UartBrokerGetByteTm`; with the queue empty it waits in `k_msgq_get`. -/
def uartBrokerGetByteTm (s : BrokerState ι) : Option (BrokerState ι) :=
  match s.msgqRx.get with
  | some (b, q) => some ({ s with msgqRx := q }.record [.got b])
  | none => none

def getTimeout (s : BrokerState ι) : Option (BrokerState ι) :=
  match s.msgqRx.get with
  | some _ => none
  | none => some (s.record [.getTimeout])

def uartBrokerClearReceiveQueue (s : BrokerState ι) : BrokerState ι :=
  { s with msgqRx := .empty }.record [.cleared s.msgqRx.items]

def uartBrokerSetEcho (s : BrokerState ι) (echo : Bool) : BrokerState ι :=
  { s with isEcho := echo }.record [.echoSet echo]

end BrokerState

inductive BrokerMove (ι : Type)
  | irq (irqUpdate rxReady : Bool) (b : UInt8)
  | thread
  | call (i : ι) (data : List UInt8)
  | put (i : ι)
  | putTimeout (i : ι)
  | get
  | getTimeout
  | clear
  | setEcho (echo : Bool)
  deriving DecidableEq, Repr

/-- A party has one call at a time. -/
def BrokerState.step [DecidableEq ι] (s : BrokerState ι) : BrokerMove ι → Option (BrokerState ι)
  | .irq irqUpdate rxReady b => some (s.uartBrokerFifoCb irqUpdate rxReady b)
  | .thread => some s.uartBrokerThread
  | .call i data =>
    match s.calls i with
    | none => some (s.setCall i (some ⟨data, 0, Nat.zero_le _⟩) |>.record [.called i data])
    | some _ => none
  | .put i => s.uartBrokerPut i
  | .putTimeout i => s.putTimeout i
  | .get => s.uartBrokerGetByteTm
  | .getTimeout => s.getTimeout
  | .clear => some s.uartBrokerClearReceiveQueue
  | .setEcho echo => some (s.uartBrokerSetEcho echo)

end SipfClient.Broker
