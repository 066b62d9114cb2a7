import SipfClient.CommandText
set_option autoImplicit false

/-!
`cmd.c` and the dispatch of `cmd_ascii.c`: bytes from the host are collected in
`in_buff` from a '$' to the end of the line, and the line is handed to the command
whose name it starts with.
-/

namespace SipfClient.Command
open ByteMem HexText

inductive CmdFunc
  | cmdAsciiCmdW
  | cmdAsciiCmdR
  | cmdAsciiCmdTxRaw
  | cmdAsciiCmdTx
  | cmdAsciiCmdRx
  | cmdAsciiCmdFput
  | cmdAsciiCmdFget
  | cmdAsciiCmdUnlock
  | cmdAsciiCmdUpdate
  | cmdAsciiCmdGnssEnable
  | cmdAsciiCmdGnssLocation
  | cmdAsciiCmdGnssNmea
  | cmdAsciiCmdGnssStatus
  deriving DecidableEq, Repr

structure CmdAsciiCmd where
  cmdName : List UInt8
  cmdFunc : CmdFunc
  deriving DecidableEq, Repr

def cmdfunc : List CmdAsciiCmd :=
  [⟨ascii "W", .cmdAsciiCmdW⟩,⟨ascii "R", .cmdAsciiCmdR⟩,⟨ascii "$TXRAW", .cmdAsciiCmdTxRaw⟩,
   ⟨ascii "$TX", .cmdAsciiCmdTx⟩,⟨ascii "$RX", .cmdAsciiCmdRx⟩,
   ⟨ascii "$FPUT", .cmdAsciiCmdFput⟩,⟨ascii "$FGET", .cmdAsciiCmdFget⟩,
   ⟨ascii "$UNLOCK", .cmdAsciiCmdUnlock⟩,⟨ascii "$UPDATE", .cmdAsciiCmdUpdate⟩,
   ⟨ascii "$GNSSEN", .cmdAsciiCmdGnssEnable⟩,⟨ascii "$GNSSLOC", .cmdAsciiCmdGnssLocation⟩,
   ⟨ascii "$GNSSNMEA", .cmdAsciiCmdGnssNmea⟩,⟨ascii "$GNSSSTAT", .cmdAsciiCmdGnssStatus⟩]

structure CmdCall where
  cmd : CmdAsciiCmd
  inBuff : Mem
  inLen : UInt16

/-- The loop over the command list; `none` is the NG for an unknown command. -/
def searchCmd (inBuff : Mem) (inLen : UInt16) : List CmdAsciiCmd → Option CmdCall
  | [] => none
  | c :: cs =>
    if inBuff.read 0 c.cmdName.length = c.cmdName ∧
        (inLen.toNat = c.cmdName.length ∨ inBuff c.cmdName.length = 0x20) then
      some ⟨c, inBuff.shift c.cmdName.length, inLen - UInt16.ofNat c.cmdName.length⟩
    else searchCmd inBuff inLen cs

def cmdAsciiParse (inBuff : Mem) (inLen : UInt16) : Option CmdCall :=
  searchCmd inBuff inLen cmdfunc

inductive CmdState
  | wait
  | bufferingAscii
  deriving DecidableEq, Repr

structure CmdParser where
  state : CmdState
  inBuff : Mem
  inBuffIdx : Int

def CmdParser.init : CmdParser := ⟨.wait, Mem.zero, 0⟩

/-- What one byte leads to: nothing, a call of `CmdAsciiParse` on the line with
what it dispatches to, or the NG of a full buffer. -/
inductive CmdEvent
  | none
  | parsed (inLen : UInt16) (call : Option CmdCall)
  | bufferFull

def stateWait (p : CmdParser) (b : UInt8) : CmdParser × CmdEvent :=
  if b = 0x24 then (⟨.bufferingAscii, Mem.zero, 0⟩, .none) else (p, .none)

/-- `in_buff[in_buff_idx++] = b` runs before the index is compared with the size. -/
def stateBufferingAscii (p : CmdParser) (b : UInt8) : Except OutOfBounds (CmdParser × CmdEvent) :=
  if b = 0x0a ∨ b = 0x0d then
    .ok ({ p with state := .wait },
      .parsed (UInt16.ofInt p.inBuffIdx) (cmdAsciiParse p.inBuff (UInt16.ofInt p.inBuffIdx)))
  else if b = 0x08 then
    .ok ({ p with
      state := if p.inBuffIdx = 0 then .wait else p.state
      inBuffIdx := p.inBuffIdx - 1 }, .none)
  else do
    let inBuff ← p.inBuff.store cmdBuffSz p.inBuffIdx.toNat [b]
    if (cmdBuffSz : Int) < p.inBuffIdx + 1 then
      pure (⟨.wait, inBuff, p.inBuffIdx + 1⟩, .bufferFull)
    else pure ({ p with inBuff := inBuff, inBuffIdx := p.inBuffIdx + 1 }, .none)

def cmdParse (p : CmdParser) (b : UInt8) : Except OutOfBounds (CmdParser × CmdEvent) :=
  match p.state with
  | .wait => .ok (stateWait p b)
  | .bufferingAscii => stateBufferingAscii p b

def cmdRun (p : CmdParser) : List UInt8 → Except OutOfBounds (List CmdEvent)
  | [] => .ok []
  | b :: bs => do
    let (p', e) ← cmdParse p b
    let es ← cmdRun p' bs
    pure (e :: es)

def CmdEvent.line : CmdEvent → Option (UInt16 × Option CmdCall)
  | .parsed n c => some (n, c)
  | _ => Option.none

def dispatches (bs : List UInt8) : Except OutOfBounds (List (UInt16 × Option CmdCall)) := do
  let es ← cmdRun .init bs
  pure (es.filterMap CmdEvent.line)

end SipfClient.Command
