import SipfClient.Handlers
import SipfClient.TxCommand
import SipfClient.ObjectDownload
import SipfClient.FgetCommand
import SipfClient.FputCommand
set_option autoImplicit false

/-!
The device as the host sees it: `CmdParse` fed byte by byte, with the commands it
calls, the lock of the firmware update and the registers between one line and the
next.
-/

namespace SipfClient
open ByteMem HexText Command Object Http Xmodem

/-- What the world makes of one line: the UART and the network while it is handled,
the servers, the modem, and any contents of the static buffers the transfers use. -/
structure World where
  cfg : Connector
  net : NetOutcome
  httpRes : HttpResponse
  reqBuff : Mem
  downOut : DownOut
  upload : List UInt8 → UploadCourse
  download : List UInt8 → DownloadCourse
  block : Mem
  rx : List RxEvent
  puts : List Bool
  sends : List SendRet
  fotaHttpRun : List UInt8 → Int
  gnss : Gnss

def World.io (w : World) : Io RxEvent := ⟨w.rx, w.puts, w.sends, []⟩

inductive Fault
  | outOfBounds (e : OutOfBounds)
  | endless

def inBounds {α : Type} : Except OutOfBounds α → Except Fault α
  | .ok a => .ok a
  | .error e => .error (.outOfBounds e)

def finished {α : Type} : Option α → Except Fault α
  | some a => .ok a
  | none => .error .endless

structure Device where
  parser : CmdParser
  isUnlocked : Bool
  registers : Registers

def Device.answer (d : Device) (ret : Except Int (List UInt8)) : Handled :=
  ⟨ret, d.isUnlocked, d.registers, []⟩

def Device.lockAndAnswer (d : Device) (text : List UInt8) : Handled :=
  ⟨.ok text, false, d.registers, []⟩

def callHandler (w : World) (d : Device) (c : CmdCall) : Except Fault Handled :=
  match c.cmd.cmdFunc with
  | .cmdAsciiCmdW => .ok (cmdAsciiCmdW c.inBuff c.inLen d.registers)
  | .cmdAsciiCmdR => .ok (d.lockAndAnswer (cmdAsciiCmdR c.inBuff c.inLen d.registers))
  | .cmdAsciiCmdTxRaw => do
    let text ← inBounds (cmdAsciiCmdTxRaw w.cfg w.httpRes w.reqBuff c.inBuff c.inLen w.net)
    pure (d.lockAndAnswer text)
  | .cmdAsciiCmdTx => do
    let run ← finished (cmdAsciiCmdTx w.cfg w.httpRes w.reqBuff c.inBuff c.inLen w.net)
    let run ← inBounds run
    pure (d.answer (.ok run.response))
  | .cmdAsciiCmdRx => do
    let text ← inBounds (cmdAsciiCmdRx w.cfg w.net w.downOut c.inLen cmdBuffSz)
    pure (d.answer (.ok text))
  | .cmdAsciiCmdFput => do
    let run ← finished (cmdAsciiCmdFput c.inBuff c.inLen w.upload w.block w.io)
    pure (d.answer run.ret)
  | .cmdAsciiCmdFget => .ok (d.answer (.ok (cmdAsciiCmdFget c.inBuff c.inLen w.download w.io).1))
  | .cmdAsciiCmdUnlock =>
    let (text, isUnlocked) := cmdAsciiCmdUnlock c.inBuff c.inLen d.isUnlocked
    .ok ⟨.ok text, isUnlocked, d.registers, []⟩
  | .cmdAsciiCmdUpdate => do
    let (text, file) ← inBounds
      (cmdAsciiCmdUpdate (cmdBuffSz - c.cmd.cmdName.length) c.inBuff c.inLen d.isUnlocked
        w.fotaHttpRun)
    pure ⟨.ok text, d.isUnlocked, d.registers, file.toList.map .fotaHttpRun⟩
  | .cmdAsciiCmdGnssEnable => .ok (d.answer (.ok (cmdAsciiCmdGnssEnable c.inBuff c.inLen w.gnss)))
  | .cmdAsciiCmdGnssLocation => .ok (d.answer (.ok (cmdAsciiCmdGnssLocation c.inLen w.gnss)))
  | .cmdAsciiCmdGnssNmea => .ok (d.answer (.ok (cmdAsciiCmdGnssNmea c.inLen w.gnss)))
  | .cmdAsciiCmdGnssStatus => .ok (d.answer (.ok (cmdAsciiCmdGnssStatus c.inLen w.gnss)))

/-- `CmdParse` returns a response only for a positive length. -/
def responseOf : Except Int (List UInt8) → Option (List UInt8)
  | .ok text => if 0 < text.length then some text else none
  | .error _ => none

structure Step where
  event : CmdEvent
  device : Device
  response : Option (List UInt8)
  effects : List Effect

def CmdEvent.call : CmdEvent → Option CmdCall
  | .parsed _ c => c
  | _ => Option.none

def Step.call (s : Step) : Option CmdCall := CmdEvent.call s.event

/-- `CmdParse` with the command it calls. What a command writes to its line is not
kept: the buffer is cleared before the next line. -/
def deviceStep (d : Device) (b : UInt8) (w : World) : Except Fault Step := do
  let (p, e) ← inBounds (cmdParse d.parser b)
  let d := { d with parser := p }
  match e with
  | .none => pure ⟨e, d, none, []⟩
  | .bufferFull => pure ⟨e, d, some (ascii "\r\nNG\r\n"), []⟩
  | .parsed _ none => pure ⟨e, d, some cmdCreateResNg, []⟩
  | .parsed _ (some c) => do
    let h ← callHandler w d c
    pure ⟨e, ⟨p, h.isUnlocked, h.registers⟩, responseOf h.ret, h.effects⟩

/-- The steps up to the first fault: nothing is said about what comes behind one. -/
def deviceRun (d : Device) : List (UInt8 × World) → List Step
  | [] => []
  | (b, w) :: input =>
    match deviceStep d b w with
    | .error _ => []
    | .ok s => s :: deviceRun s.device input

def Device.init (r : Registers) : Device := ⟨.init, false, r⟩

def World.quiet : World where
  cfg := ⟨"", "", "", true⟩
  net := ⟨-1, 0, 0, 0, 0, ⟨0, [], Mem.zero⟩⟩
  httpRes := .zero
  reqBuff := Mem.zero
  downOut := ⟨[], 0, 0, [], 0, 0⟩
  upload _ := ⟨.error (-1), ⟨-1, 0, 0, 0, 0, ⟨0, [], Mem.zero⟩⟩, .zero, false, 0⟩
  download _ := ⟨-1, [], 0⟩
  block := Mem.zero
  rx := []
  puts := []
  sends := []
  fotaHttpRun _ := 0
  gnss :=
    let zero : Printed := ⟨ascii "0.000000", by decide⟩
    ⟨0, 0, ⟨false, false, false, false, false, false, zero, zero, zero, zero, zero, 0, 0, 0, 0, 0, 0⟩,
      ⟨[], by decide, by simp⟩⟩

def typed (w : World) (bs : List UInt8) : List (UInt8 × World) := bs.map fun b => (b, w)

end SipfClient
