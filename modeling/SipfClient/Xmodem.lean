import SipfClient.UartBroker
set_option autoImplicit false

namespace SipfClient.Xmodem
open ByteMem

variable {ρ : Type}

def xmodemSzBlock : Nat := 128

def soh : UInt8 := 0x01
def eot : UInt8 := 0x04
def ack : UInt8 := 0x06
def nak : UInt8 := 0x15
def can : UInt8 := 0x18

def checksum (d : List UInt8) : UInt8 := d.foldl (· + ·) 0

/-- The block number of a valid block, -2 for a duplicate and -1 for anything else. -/
def xmodemBlockValidation (block : Mem) (bn : UInt8) : Int :=
  if (block 1).toNat + (block 2).toNat ≠ 0xff then -1
  else if bn = block 1 then -2
  else if bn + 1 ≠ block 1 then -1
  else if checksum (block.read 3 128) = block 131 then (block 1).toNat
  else -1

def xmodemSendAck (io : Io ρ) : Int × Io ρ :=
  let (ok, io) := uartBrokerPutByte ack io
  (if ok then 0 else -1, io)

def xmodemSendNak (io : Io ρ) : Int × Io ρ :=
  let (ok, io) := uartBrokerPutByte nak io
  (if ok then 0 else -1, io)

def xmodemBegin (io : Io ρ) : Io ρ := uartBrokerClearReceiveQueue (uartBrokerSetEcho false io)

def xmodemEnd (io : Io ρ) : Io ρ := uartBrokerSetEcho true io

def xmodemReceiveStart (io : Io ρ) : Int × Io ρ := xmodemSendNak io

def xmodemReceiveReqNextBlock (io : Io ρ) : Int × Io ρ := xmodemSendAck io

def xmodemReceiveReqCurrentBlock (io : Io ρ) : Int × Io ρ := xmodemSendNak io

structure Recv (ρ : Type) where
  ret : XmodemRecvRet
  bn : UInt8
  block : Mem
  io : Io ρ

/-- The loop over the rest of a block, from `idx_block` on: the result of a get
that failed, if one did. -/
def receiveRest : Nat → Nat → Mem → Io RxEvent → Option Int × Mem × Io RxEvent
  | 0, _, block, io => (none, block, io)
  | n + 1, idx, block, io =>
    match uartBrokerGetByteTm io with
    | (.byte b, io) => receiveRest n (idx + 1) (block.set idx b) io
    | (.timeout, io) => (some (-eagain), block, io)
    | (.fail errno _, io) => (some (-errno), block, io)

def acceptBlock (bn : UInt8) (block : Mem) (io : Io ρ) : Recv ρ :=
  let bnRecv := xmodemBlockValidation block bn
  if bnRecv = -1 then ⟨.retry, bn, block, io⟩
  else if bnRecv = -2 then ⟨.dup, bn, block, io⟩
  else ⟨.ok, UInt8.ofInt bnRecv, block, io⟩

def xmodemReceiveBlock (bn : UInt8) (block : Mem) (io : Io RxEvent) : Recv RxEvent :=
  match uartBrokerGetByteTm io with
  | (.timeout, io) => ⟨.retry, bn, block, io⟩
  | (.fail errno _, io) => ⟨.other (-errno), bn, block, io⟩
  | (.byte b, io) =>
    let io := io.log (.header b)
    if b = soh then
      match receiveRest 131 1 (block.set 0 soh) io with
      | (some ret, block, io) => ⟨.other ret, bn, block, io⟩
      | (none, block, io) => acceptBlock bn block io
    else if b = eot then
      let (ret, io) := xmodemSendAck io
      if ret ≠ 0 then ⟨.failed, bn, block, io⟩ else ⟨.finished, bn, block, io⟩
    else if b = can then ⟨.canceled, bn, block, io⟩
    else ⟨.retry, bn, block, io⟩

/-- Two CAN bytes, the second only if the first could be queued. -/
def xmodemTransmitCancel (io : Io ρ) : Int × Io ρ :=
  let (ok, io) := uartBrokerPutByte can io
  if ok then
    let (ok, io) := uartBrokerPutByte can io
    (if ok then 0 else -1, io)
  else (-1, io)

def sendWaitRequest : Nat → Io RxEvent → XmodemSendRet × Io RxEvent
  | 0, io => (.failed, io)
  | n + 1, io =>
    match uartBrokerGetByteTm io with
    | (.timeout, io) => sendWaitRequest n io
    | (.fail _ _, io) => (.failed, io)
    | (.byte b, io) =>
      if b = nak then (.ok, io)
      else if b = can then (.canceled, io)
      else sendWaitRequest n io

def xmodemSendWaitRequest (io : Io RxEvent) : XmodemSendRet × Io RxEvent := sendWaitRequest 10 io

def xmodemSendEnd (io : Io RxEvent) : XmodemSendRet × Io RxEvent :=
  let (ok, io) := uartBrokerPutByte eot io
  if !ok then (.failed, io)
  else
    match uartBrokerGetByteTm io with
    | (.timeout, io) => (.timeout, io)
    | (.fail _ _, io) => (.failed, io)
    | (.byte b, io) => (if b = ack then .ok else .failed, io)

def pad (payload : List UInt8) : List UInt8 :=
  payload ++ List.replicate (xmodemSzBlock - payload.length) 0x1a

def xmodemFrame (bn : UInt8) (payload : List UInt8) : List UInt8 :=
  soh :: bn :: ~~~bn :: pad payload ++ [checksum (pad payload)]

def sendRet : RxEvent → XmodemSendRet
  | .timeout => .timeout
  | .fail _ _ => .failed
  | .byte b => if b = ack then .ok else if b = nak then .retry else if b = can then .canceled else .failed

/-- The count `UartBrokerPut` returns is never negative, so a frame of which only a
part could be queued is waited for like a whole one. -/
def xmodemSendBlock (bn : UInt8) (payload : List UInt8) (io : Io RxEvent) :
    XmodemSendRet × Io RxEvent :=
  if xmodemSzBlock < payload.length then (.failed, io)
  else
    let frame := xmodemFrame bn payload
    let (queued, io) := uartBrokerPut frame io
    let (reply, io) := uartBrokerGetByteTm io
    (sendRet reply, io.log (.sent frame queued reply))

end SipfClient.Xmodem
