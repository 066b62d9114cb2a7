import SipfClient.CText
import SipfClient.Registers
import SipfClient.CommandLine
import SipfClient.ObjectUpload
set_option autoImplicit false

namespace SipfClient.Command
open ByteMem HexText CText Object Http

/-- `CMD_RES_ILLPARM`, a result that is not the length of a response. -/
def cmdResIllparm : Int := -1

/-- The calls by which a command acts on something outside `cmd_ascii.c` that the
firmware lock or the mode register is about. -/
inductive Effect
  | registersWrite (addr value : UInt8) (ret : Int)
  | fotaHttpRun (file : List UInt8)
  deriving DecidableEq, Repr

/-- What a command leaves behind. A negative result is returned without a response. -/
structure Handled where
  ret : Except Int (List UInt8)
  isUnlocked : Bool
  registers : Registers
  effects : List Effect

def cmdAsciiCmdW (inBuff : Mem) (inLen : UInt16) (r : Registers) : Handled :=
  if inLen ≠ 6 then ⟨.ok cmdCreateResIllParam, false, r, []⟩
  else if inBuff 3 ≠ 0x20 then ⟨.ok cmdCreateResIllParam, false, r, []⟩
  else if inBuff 0 ≠ 0x20 then ⟨.error cmdResIllparm, false, r, []⟩
  else
    let inBuff := (inBuff.set 3 0).set 6 0
    let (addr, endptr) := strtol16 (cString inBuff 1 3)
    if endptr ≠ [] then ⟨.ok cmdCreateResIllParam, false, r, []⟩
    else
      let (val, endptr) := strtol16 (cString inBuff 4 3)
      if endptr ≠ [] then ⟨.ok cmdCreateResIllParam, false, r, []⟩
      else
        let (addr, val) := (UInt8.ofInt addr, UInt8.ofInt val)
        let (ret, r) := registersWrite r addr val
        ⟨.ok (if ret < 0 then cmdCreateResNg else cmdCreateResOk), false, r,
          [.registersWrite addr val ret]⟩

def cmdAsciiCmdR (inBuff : Mem) (inLen : UInt16) (r : Registers) : List UInt8 :=
  if inLen ≠ 3 then cmdCreateResIllParam
  else if inBuff 0 ≠ 0x20 then cmdCreateResIllParam
  else
    let (addr, endptr) := strtol16 (cString (inBuff.set 3 0) 1 3)
    if endptr ≠ [] then cmdCreateResIllParam
    else
      match registersRead r (UInt8.ofInt addr) with
      | none => cmdCreateResIllParam
      | some val => hex2 val ++ ascii "\r\nOK\r\n"

/-- The loop over the pairs of digits and the look at what is behind them; `none` is
the illegal parameter. -/
def txRawValue : Nat → Mem → Option (List UInt8)
  | 0, head => if head 0 ≠ 0 ∧ head 0 ≠ 0x0d ∧ head 0 ≠ 0x0a then none else some []
  | n + 1, head =>
    if !isXdigit (head 0) ∨ !isXdigit (head 1) then none
    else
      let (value, endptr) := strtol16 [head 0,head 1]
      if endptr ≠ [] then none
      else (txRawValue n (head.shift 2)).map (UInt8.ofInt value :: ·)

def txAnswer (up : UpRaw) : List UInt8 :=
  if UInt8.ofInt up.ret = 0 then hexOf (up.otid.getD []) ++ ascii "\r\nOK\r\n" else cmdCreateResNg

def cmdAsciiCmdTxRaw (cfg : Connector) (httpRes : HttpResponse) (reqBuff inBuff : Mem)
    (inLen : UInt16) (net : NetOutcome) : Except OutOfBounds (List UInt8) :=
  if inLen < 5 then .ok cmdCreateResIllParam
  else if inBuff 0 ≠ 0x20 ∨ inBuff 3 ≠ 0x20 then .ok cmdCreateResIllParam
  else
    let inBuff := (inBuff.set 0 0).set 3 0
    let (size, endptr) := strtol16 (cString inBuff 1 3)
    if endptr ≠ [] then .ok cmdCreateResIllParam
    else
      match txRawValue (UInt8.ofInt size).toNat (inBuff.shift 4) with
      | none => .ok cmdCreateResIllParam
      | some buffer => do
        let up ← sipfObjClientObjUpRaw cfg httpRes reqBuff (Mem.ofList buffer)
          (UInt8.ofInt size).toUInt16 net
        pure (txAnswer up)

def cmdAsciiCmdUnlock (inBuff : Mem) (inLen : UInt16) (isUnlocked : Bool) : List UInt8 × Bool :=
  if inBuff 0 ≠ 0x20 then (cmdCreateResIllParam, isUnlocked)
  else if inLen ≠ 7 then (cmdCreateResIllParam, isUnlocked)
  else if inBuff.read 0 7 = ascii " UNLOCK" then (cmdCreateResOk, true)
  else (cmdCreateResIllParam, false)

def fotaAnswer (fotaHttpRun : List UInt8 → Int) (file : List UInt8) :
    List UInt8 × Option (List UInt8) :=
  (if fotaHttpRun file ≠ 0 then cmdCreateResNg else cmdCreateResOk, some file)

/-- The response and the file `FotaHttpRun` is called with. `size` is what is left of
the line buffer from `inBuff` on. -/
def cmdAsciiCmdUpdate (size : Nat) (inBuff : Mem) (inLen : UInt16) (isUnlocked : Bool)
    (fotaHttpRun : List UInt8 → Int) :
    Except OutOfBounds (List UInt8 × Option (List UInt8)) :=
  if isUnlocked = false then .ok (cmdCreateResNg, none)
  else if inLen < 7 then .ok (cmdCreateResIllParam, none)
  else if inBuff.read 0 7 = ascii " UPDATE" then
    if inLen ≠ 7 then .ok (cmdCreateResIllParam, none) else .ok (fotaAnswer fotaHttpRun (ascii "app_update.bin"))
  else if inBuff.read 0 9 = ascii " VERSION " then
    if inLen < 10 then .ok (cmdCreateResIllParam, none)
    else do
      let inBuff ← inBuff.store size inLen.toNat [0]
      pure (fotaAnswer fotaHttpRun (cString inBuff 9 inLen.toNat))
  else .ok (cmdCreateResIllParam, none)

/-- A number `sprintf` prints with `%f` or `%.6f`: 309 digits before the point at most. -/
structure Printed where
  text : List UInt8
  short : text.length ≤ 317

structure PvtData where
  fixValid : Bool
  leapSecondValid : Bool
  sleepBetweenPvt : Bool
  deadlineMissed : Bool
  notEnoughWindowTime : Bool
  velocityValid : Bool
  longitude : Printed
  latitude : Printed
  altitude : Printed
  speed : Printed
  heading : Printed
  year : UInt16
  month : UInt8
  day : UInt8
  hour : UInt8
  minute : UInt8
  seconds : UInt8

/-- `nmea_strings` up to `nmea_string_cnt`, each with its NUL in 83 bytes. -/
structure NmeaStrings where
  strings : List (List UInt8)
  count : strings.length ≤ 10
  fit : ∀ s ∈ strings, s.length < 83

/-- The modem's answers to the start and the stop, and what its events have left in
the statics of `gnss.c`. -/
structure Gnss where
  startRet : Int
  stopRet : Int
  lastGpsPvt : PvtData
  nmea : NmeaStrings

def gnssCtrl (retval : Int) : Int := if retval ≠ 0 then -1 else 0

def gnssStart (g : Gnss) : Int := gnssCtrl g.startRet

def gnssStop (g : Gnss) : Int := gnssCtrl g.stopRet

def gnssGetData (g : Gnss) : Bool × PvtData := (g.lastGpsPvt.fixValid, g.lastGpsPvt)

def gnssStrcpyNmea (g : Gnss) : List UInt8 := g.nmea.strings.flatten

def cmdAsciiCmdGnssEnable (inBuff : Mem) (inLen : UInt16) (g : Gnss) : List UInt8 :=
  if inBuff 0 ≠ 0x20 then cmdCreateResIllParam
  else if inLen ≠ 2 then cmdCreateResIllParam
  else if inBuff 1 = 0x30 then if gnssStop g ≠ 0 then cmdCreateResNg else cmdCreateResOk
  else if inBuff 1 = 0x31 then if gnssStart g ≠ 0 then cmdCreateResNg else cmdCreateResOk
  else cmdCreateResIllParam

def statusLine (name : String) (flag : Bool) : List UInt8 :=
  ascii name ++ ascii ": " ++ ascii (if flag then "true" else "false") ++ ascii "\n"

/-- Its lines end without a carriage return. -/
def cmdAsciiCmdGnssStatus (inLen : UInt16) (g : Gnss) : List UInt8 :=
  if inLen ≠ 0 then cmdCreateResIllParam
  else
    let pvt := (gnssGetData g).2
    statusLine "Fix valid" pvt.fixValid ++ statusLine "Leap second valid" pvt.leapSecondValid ++
      statusLine "Sleep between PVT" pvt.sleepBetweenPvt ++
      statusLine "Deadline missed" pvt.deadlineMissed ++
      statusLine "Insuf. time window" pvt.notEnoughWindowTime ++
      statusLine "Velocity estimate valid" pvt.velocityValid ++ ascii "OK\n"

def dateTime (pvt : PvtData) : List UInt8 :=
  printU 4 pvt.year.toNat ++ ascii "-" ++ printU 2 pvt.month.toNat ++ ascii "-" ++
    printU 2 pvt.day.toNat ++ ascii "T" ++ printU 2 pvt.hour.toNat ++ ascii ":" ++
    printU 2 pvt.minute.toNat ++ ascii ":" ++ printU 2 pvt.seconds.toNat ++ ascii "Z"

def cmdAsciiCmdGnssLocation (inLen : UInt16) (g : Gnss) : List UInt8 :=
  if inLen ≠ 0 then cmdCreateResIllParam
  else
    let (gotFix, pvt) := gnssGetData g
    ascii (if gotFix then "A," else "V,") ++ pvt.longitude.text ++ ascii "," ++
      pvt.latitude.text ++ ascii "," ++ pvt.altitude.text ++ ascii "," ++ pvt.speed.text ++
      ascii "," ++ pvt.heading.text ++ ascii "," ++ dateTime pvt ++ ascii "\r\nOK\r\n"

def cmdAsciiCmdGnssNmea (inLen : UInt16) (g : Gnss) : List UInt8 :=
  if inLen ≠ 0 then cmdCreateResIllParam else gnssStrcpyNmea g ++ ascii "\r\nOK\r\n"

end SipfClient.Command
