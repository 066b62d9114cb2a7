import SipfClient.Handlers
import SipfClient.Runs
set_option autoImplicit false

/-!
`gnss.c` with its two parties: the event handler, which the modem calls from an interrupt,
and `gnss_strcpy_nmea` in the main thread, which reads the same strings byte by byte. The
handler runs to its end wherever it comes between two accesses of the other.
-/

namespace SipfClient.Nmea
open ByteMem HexText Command

def nmeaMaxLen : Nat := 83

def nmeaSlots : Nat := 10

/-- `CMD_BUFF_SZ`, the size of the buffer the strings are copied to. -/
def cmdBuffSz : Nat := 4096

/-- `nmea_str` of a data frame: the text ends at a NUL inside the frame. -/
structure NmeaStr where
  text : List UInt8
  noNul : ∀ c ∈ text, c ≠ 0
  fit : text.length < nmeaMaxLen
  deriving DecidableEq

inductive GnssEvent
  | pvt (read : Option PvtData)
  | nmea (read : Option NmeaStr)
  | fix
  | other

/-- Where `gnss_strcpy_nmea` is: outside, in front of the test of its loop with `ret` bytes
copied, or in `sprintf`, which has seen `measured` bytes of string `i` and copied `copied`. -/
inductive Copier
  | idle
  | test (i ret : Nat)
  | inside (i ret measured copied : Nat) (ended : Bool)
  deriving DecidableEq, Repr

inductive GnssRecord
  | event (e : GnssEvent)
  | called
  | returned (text : List UInt8)

structure GnssState where
  nmeaStrings : Mem
  nmeaStringCnt : Nat
  lastGpsPvt : PvtData
  outBuff : Mem
  copier : Copier
  log : List GnssRecord

theorem zero_short : (ascii "0.000000").length ≤ 317 := by decide

def zeroPrinted : Printed := ⟨ascii "0.000000", zero_short⟩

def zeroPvt : PvtData :=
  ⟨false, false, false, false, false, false, zeroPrinted, zeroPrinted, zeroPrinted, zeroPrinted,
    zeroPrinted, 0, 0, 0, 0, 0, 0⟩

namespace GnssState

/-- The statics of the file are zero, the output buffer is not looked at. -/
def boot (outBuff : Mem) : GnssState := ⟨.zero, 0, zeroPvt, outBuff, .idle, []⟩

def record (s : GnssState) (r : GnssRecord) : GnssState := { s with log := s.log ++ [r] }

def onGnssEvtNmea (s : GnssState) : Option NmeaStr → Except OutOfBounds GnssState
  | none => .ok s
  | some str =>
    if s.nmeaStringCnt < nmeaSlots then
      (Mem.store (nmeaSlots * nmeaMaxLen) s.nmeaStrings (nmeaMaxLen * s.nmeaStringCnt)
        (str.text ++ [0])).map
        fun m => { s with nmeaStrings := m, nmeaStringCnt := s.nmeaStringCnt + 1 }
    else .ok s

def onGnssEvtPvt (s : GnssState) : Option PvtData → GnssState
  | none => s
  | some pvt => { s with lastGpsPvt := pvt }

def gnssEventHandler (s : GnssState) : GnssEvent → Except OutOfBounds GnssState
  | .pvt read => .ok ({ s with nmeaStringCnt := 0 }.onGnssEvtPvt read)
  | .nmea read => s.onGnssEvtNmea read
  | .fix => .ok s
  | .other => .ok s

def readByte (s : GnssState) (i p : Nat) : Except OutOfBounds UInt8 :=
  if i < nmeaSlots ∧ p < nmeaMaxLen then .ok (s.nmeaStrings (nmeaMaxLen * i + p))
  else .error ⟨nmeaMaxLen * i + p, 1, nmeaSlots * nmeaMaxLen⟩

def writeByte (s : GnssState) (pos : Nat) (b : UInt8) : Except OutOfBounds GnssState :=
  (Mem.store cmdBuffSz s.outBuff pos [b]).map fun m => { s with outBuff := m }

def loopTest (s : GnssState) : Option (Except OutOfBounds GnssState) :=
  match s.copier with
  | .test i ret =>
    if i < s.nmeaStringCnt then some (.ok { s with copier := .inside i ret 0 0 false })
    else some (.ok ({ s with copier := .idle }.record (.returned (s.outBuff.read 0 ret))))
  | _ => none

def measure (s : GnssState) : Option (Except OutOfBounds GnssState) :=
  match s.copier with
  | .inside i ret measured copied false =>
    some ((s.readByte i measured).map fun b =>
      if b = 0 then { s with copier := .inside i ret measured copied true }
      else { s with copier := .inside i ret (measured + 1) copied false })
  | _ => none

def copyByte (s : GnssState) : Option (Except OutOfBounds GnssState) :=
  match s.copier with
  | .inside i ret measured copied ended =>
    if copied < measured then
      some ((s.readByte i copied).bind fun b =>
        { s with copier := .inside i ret measured (copied + 1) ended }.writeByte (ret + copied) b)
    else none
  | _ => none

/-- All that was measured is copied: the NUL, and `dest += s; ret += s`. -/
def finish (s : GnssState) : Option (Except OutOfBounds GnssState) :=
  match s.copier with
  | .inside i ret measured copied true =>
    if copied = measured then
      some ({ s with copier := .test (i + 1) (ret + measured) }.writeByte (ret + measured) 0)
    else none
  | _ => none

end GnssState

inductive GnssMove
  | event (e : GnssEvent)
  | call
  | loopTest
  | measure
  | copyByte
  | finish

def GnssMove.isCopier : GnssMove → Bool
  | .loopTest | .measure | .copyByte | .finish => true
  | _ => false

def GnssState.move (s : GnssState) : GnssMove → Option (Except OutOfBounds GnssState)
  | .event e => some ((s.gnssEventHandler e).map (·.record (.event e)))
  | .call =>
    match s.copier with
    | .idle => some (.ok ({ s with copier := .test 0 0 }.record .called))
    | _ => none
  | .loopTest => s.loopTest
  | .measure => s.measure
  | .copyByte => s.copyByte
  | .finish => s.finish

/-- An access out of bounds is the end of a run. -/
def step : Except OutOfBounds GnssState → GnssMove → Option (Except OutOfBounds GnssState)
  | .error _, _ => none
  | .ok s, m => s.move m

end SipfClient.Nmea
