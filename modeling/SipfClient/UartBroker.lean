import SipfClient.Memory
set_option autoImplicit false

/-!
The world a transfer runs in: the UART behind `uart_broker.c`, the socket, and a
record of what happens on both. What the peer, the queues and the network do is
a list of outcomes to come; a list that has run out stands for silence on the
line, for a queue with room and for a socket that takes all.
-/

namespace SipfClient.Xmodem

def eagain : Nat := 11

/-- What `UartBrokerGetByteTm` finds: a byte, nothing in time, or another error. -/
inductive RxEvent
  | byte (b : UInt8)
  | timeout
  | fail (errno : Nat) (ne : errno ≠ 0 ∧ errno ≠ eagain)
  deriving DecidableEq, Repr

inductive XmodemRecvRet
  | ok
  | finished
  | canceled
  | retry
  | dup
  | failed
  | timeout
  /-- A result of the UART handed on as it is: no name of the enumeration. -/
  | other (ret : Int)
  deriving DecidableEq, Repr

inductive XmodemSendRet
  | ok
  | retry
  | canceled
  | failed
  | timeout
  deriving DecidableEq, Repr

/-- What `send` does with 128 bytes: it takes some of them, or fails with `errno`. -/
inductive SendRet
  | taken (n : Nat) (le : n ≤ 128)
  | failed (errno : Nat) (pos : 0 < errno)
  deriving DecidableEq, Repr

def SendRet.full : SendRet := .taken 128 (Nat.le_refl 128)

inductive IoEvent
  | put (b : UInt8) (ok : Bool)
  | echo (on : Bool)
  | clearReceiveQueue
  /-- The first byte of a reception. -/
  | header (b : UInt8)
  /-- A reception has ended, with this in the block buffer. -/
  | received (ret : XmodemRecvRet) (block : List UInt8)
  /-- A transmission has ended: its frame, how many bytes of it were queued, the reply. -/
  | sent (frame : List UInt8) (queued : Nat) (reply : RxEvent)
  | send (data : List UInt8) (ret : SendRet)
  | close
  deriving DecidableEq, Repr

/-- `ρ` is what the line delivers: single bytes, or whole receptions. -/
structure Io (ρ : Type) where
  rx : List ρ
  puts : List Bool
  sends : List SendRet
  trace : List IoEvent

variable {ρ : Type}

def Io.log (io : Io ρ) (e : IoEvent) : Io ρ := { io with trace := io.trace ++ [e] }

@[simp] theorem Io.log_trace (io : Io ρ) (e : IoEvent) : (io.log e).trace = io.trace ++ [e] := rfl

def uartBrokerGetByteTm (io : Io RxEvent) : RxEvent × Io RxEvent :=
  (io.rx.headD .timeout, { io with rx := io.rx.tail })

/-- `k_msgq_put` into the transmit queue; `true` is its result 0. -/
def uartBrokerPutByte (b : UInt8) (io : Io ρ) : Bool × Io ρ :=
  let ok := io.puts.headD true
  (ok, { io with puts := io.puts.tail }.log (.put b ok))

/-- The bytes queued before the first failing put. -/
def uartBrokerPut : List UInt8 → Io ρ → Nat × Io ρ
  | [], io => (0, io)
  | b :: bs, io =>
    let (ok, io) := uartBrokerPutByte b io
    if ok then
      let (cnt, io) := uartBrokerPut bs io
      (cnt + 1, io)
    else (0, io)

def uartBrokerSetEcho (echo : Bool) (io : Io ρ) : Io ρ := io.log (.echo echo)

/-- What arrives before the queue is cleared is not part of `rx`. -/
def uartBrokerClearReceiveQueue (io : Io ρ) : Io ρ := io.log .clearReceiveQueue

end SipfClient.Xmodem
