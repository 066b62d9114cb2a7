import SipfClient.PrefixReaders
import SipfClient.TerminalTexts
import SipfClient.Device
set_option autoImplicit false

namespace SipfClient.Command
open ByteMem HexText CText LengthRecords Object Http PrefixReaders

section Numbers

def hexByte : Scanner UInt8 UInt8
  | hi :: lo :: rest => (pairValue hi lo).map fun b => (b, rest)
  | _ => none

theorem pairValue_hex2 (b : UInt8) :
    pairValue (HexText.digit (b >>> 4)) (HexText.digit (b &&& 0x0f)) = some b := by
  have hall : ∀ n : Fin 256, pairValue (HexText.digit (UInt8.ofFin n >>> 4))
      (HexText.digit (UInt8.ofFin n &&& 0x0f)) = some (UInt8.ofFin n) := by decide +kernel
  simpa using hall b.toFin

theorem hexByte_reads (b : UInt8) : Reads hexByte (hex2 b) b := fun rest => by
  show (pairValue _ _).map _ = _
  rw [pairValue_hex2]
  rfl

theorem hexBytes_reads (bs : List UInt8) : Reads (times hexByte bs.length) (hexOf bs) bs :=
  times_reads hexByte_reads bs

def isDigit (c : UInt8) : Bool := 0x30 ≤ c ∧ c ≤ 0x39

def decimal (ds : List UInt8) : Option Nat :=
  if ds ≠ [] ∧ ds.all isDigit then some (ds.foldl (fun n d => 10 * n + (d - 0x30).toNat) 0) else none

theorem digit_decimal {d : Nat} (h : d < 10) :
    isDigit (0x30 + UInt8.ofNat d) = true ∧ (0x30 + UInt8.ofNat d - 0x30 : UInt8).toNat = d := by
  have hall : ∀ n : Fin 10, isDigit (0x30 + UInt8.ofNat n) = true ∧
      (0x30 + UInt8.ofNat n - 0x30 : UInt8).toNat = n := by decide
  exact hall ⟨d,h⟩

theorem printU_digits (w n : Nat) : (printU w n).all isDigit = true := by
  rw [List.all_eq_true]
  intro c hc
  rcases List.mem_append.1 hc with hc | hc
  · rw [List.eq_of_mem_replicate hc]
    rfl
  · obtain ⟨d,hd,rfl⟩ := List.mem_map.1 hc
    exact (digit_decimal (Nat.digits_lt_base (by decide) (List.mem_reverse.1 hd))).1

theorem printU_value (w n : Nat) :
    (printU w n).foldl (fun n d => 10 * n + (d - 0x30).toNat) 0 = n := by
  have hzeros : ∀ k, (List.replicate k (0x30 : UInt8)).foldl
      (fun n d => 10 * n + (d - 0x30).toNat) 0 = 0 := by
    intro k
    induction k with
    | zero => rfl
    | succ k ih => exact ih
  have hdigits : ∀ ds : List Nat, (∀ d ∈ ds, d < 10) →
      (ds.reverse.map fun d => 0x30 + UInt8.ofNat d).foldl
        (fun n d => 10 * n + (d - 0x30).toNat) 0 = Nat.ofDigits 10 ds := by
    intro ds hds
    induction ds with
    | nil => rfl
    | cons d ds ih =>
      have hd := (digit_decimal (hds d List.mem_cons_self)).2
      rw [List.reverse_cons,List.map_append,List.foldl_append,ih fun x hx => hds x (by simp [hx])]
      simp only [List.map_cons,List.map_nil,List.foldl_cons,List.foldl_nil,hd,Nat.ofDigits_cons]
      omega
  rw [printU,List.foldl_append,hzeros,hdigits _ fun d hd => Nat.digits_lt_base (by decide) hd,
    Nat.ofDigits_digits]

def number (stop : UInt8) : Scanner UInt8 Nat := decoded decimal (upTo stop)

theorem number_reads {stop : UInt8} (hstop : isDigit stop = false) {w : Nat} (hw : 0 < w) (n : Nat) :
    Reads (number stop) (printU w n ++ [stop]) n := by
  have hdigits := printU_digits w n
  have hnot : stop ∉ printU w n := fun hmem => by
    rw [List.all_eq_true.1 hdigits stop hmem] at hstop
    cases hstop
  have hsome : printU w n ≠ [] := by
    intro hnil
    have hlen := congrArg List.length hnil
    simp only [printU,List.length_append,List.length_replicate,List.length_map,List.length_reverse,
      List.length_nil] at hlen
    omega
  exact decoded_reads (upTo_reads hnot) (by rw [decimal,if_pos ⟨hsome,hdigits⟩,printU_value])

end Numbers

section Messages

structure Listing where
  otid : List UInt8
  userSend : List UInt8
  recv : List UInt8
  remains : UInt8
  objs : List Record
  deriving DecidableEq, Repr

def listing (m : DownMessage) : Listing := ⟨m.otid, m.userSend, m.recv, m.remains, m.objs⟩

def crlfLine {α : Type} (p : Scanner UInt8 α) : Scanner UInt8 α := do
  let a ← p
  literal crlf
  pure a

theorem line_reads {α : Type} {p : Scanner UInt8 α} {piece : List UInt8} {a : α}
    (h : Reads p piece a) : Reads (crlfLine p) (piece ++ crlf) a := by
  refine h.bind ?_
  exact (literal_reads crlf).last fun _ => a

def readRecord : Scanner UInt8 Record := do
  let tag ← hexByte
  literal [0x20]
  let kind ← hexByte
  literal [0x20]
  let len ← hexByte
  literal [0x20]
  let value ← times hexByte len.toNat
  literal crlf
  decoded (fun v : List UInt8 => if h : v.length < 256 then some ⟨kind, tag, v, h⟩ else none)
    (pure value)

theorem record_reads (r : Record) : Reads readRecord (rxRecordLine r) r := by
  have hlen : r.len.toNat = r.value.length := r.len_toNat
  have hvalue : Reads (times hexByte r.len.toNat) (hexOf r.value) r.value := by
    rw [hlen]
    exact hexBytes_reads r.value
  have hshort :
      (if h : r.value.length < 256 then some (⟨r.kind, r.tag, r.value, h⟩ : Record) else none) = some r := dif_pos r.short
  have htext : rxRecordLine r = hex2 r.tag ++ ([0x20] ++ (hex2 r.kind ++ ([0x20] ++ (hex2 r.len ++
      ([0x20] ++ (hexOf r.value ++ (crlf ++ []))))))) := by simp [rxRecordLine]
  rw [htext]
  refine (hexByte_reads r.tag).bind ?_
  refine (literal_reads [0x20]).bind ?_
  refine (hexByte_reads r.kind).bind ?_
  refine (literal_reads [0x20]).bind ?_
  refine (hexByte_reads r.len).bind ?_
  refine (literal_reads [0x20]).bind ?_
  refine hvalue.bind ?_
  refine (literal_reads crlf).bind ?_
  exact decoded_reads (Reads.pure r.value) hshort

def readMessage : Scanner UInt8 Listing := do
  let otid ← crlfLine (times hexByte 16)
  let userSend ← crlfLine (times hexByte 8)
  let recv ← crlfLine (times hexByte 8)
  let remains ← crlfLine hexByte
  let objqty ← crlfLine hexByte
  let objs ← times readRecord objqty.toNat
  literal (ascii "OK\r\n")
  pure ⟨otid, userSend, recv, remains, objs⟩

theorem message_reads (m : DownMessage) : Reads readMessage m.rxText (listing m) := by
  have hotid : Reads (times hexByte 16) (hexOf m.otid) m.otid := m.otid_length ▸ hexBytes_reads m.otid
  have hsend : Reads (times hexByte 8) (hexOf m.userSend) m.userSend :=
    m.userSend_length ▸ hexBytes_reads m.userSend
  have hrecv : Reads (times hexByte 8) (hexOf m.recv) m.recv := m.recv_length ▸ hexBytes_reads m.recv
  have hcount := m.count
  have hqty : (UInt8.ofNat m.objs.length).toNat = m.objs.length := by
    rw [UInt8.toNat_ofNat']
    omega
  have hobjs : Reads (times readRecord (UInt8.ofNat m.objs.length).toNat) (m.objs.flatMap rxRecordLine)
      m.objs := by
    rw [hqty]
    exact times_reads record_reads m.objs
  have htext : m.rxText = (hexOf m.otid ++ crlf) ++ ((hexOf m.userSend ++ crlf) ++
      ((hexOf m.recv ++ crlf) ++ ((hex2 m.remains ++ crlf) ++
      ((hex2 (UInt8.ofNat m.objs.length) ++ crlf) ++ (m.objs.flatMap rxRecordLine ++
      ascii "OK\r\n"))))) := by
    simp only [DownMessage.rxText,List.append_assoc]
  rw [htext]
  refine (line_reads hotid).bind ?_
  refine (line_reads hsend).bind ?_
  refine (line_reads hrecv).bind ?_
  refine (line_reads (hexByte_reads m.remains)).bind ?_
  refine (line_reads (hexByte_reads (UInt8.ofNat m.objs.length))).bind ?_
  refine hobjs.bind ?_
  exact (literal_reads (ascii "OK\r\n")).last fun _ => listing m

end Messages

section Gnss

structure GnssFlags where
  fixValid : Bool
  leapSecondValid : Bool
  sleepBetweenPvt : Bool
  deadlineMissed : Bool
  notEnoughWindowTime : Bool
  velocityValid : Bool
  deriving DecidableEq, Repr

def flagsOf (pvt : PvtData) : GnssFlags :=
  ⟨pvt.fixValid, pvt.leapSecondValid, pvt.sleepBetweenPvt, pvt.deadlineMissed,
    pvt.notEnoughWindowTime, pvt.velocityValid⟩

def readFlag (name : String) : Scanner UInt8 Bool := do
  literal (ascii name ++ ascii ": ")
  flag (ascii "true\n") (ascii "false\n")

theorem statusLine_reads (name : String) (b : Bool) : Reads (readFlag name) (statusLine name b) b := by
  have htext : statusLine name b = (ascii name ++ ascii ": ") ++
      (if b then ascii "true\n" else ascii "false\n") := by
    rw [statusLine,List.append_assoc]
    cases b <;> rfl
  rw [htext]
  refine (literal_reads _).bind ?_
  exact flag_reads (by decide) (by decide) b

def readStatus : Scanner UInt8 GnssFlags := do
  let fixValid ← readFlag "Fix valid"
  let leapSecondValid ← readFlag "Leap second valid"
  let sleepBetweenPvt ← readFlag "Sleep between PVT"
  let deadlineMissed ← readFlag "Deadline missed"
  let notEnoughWindowTime ← readFlag "Insuf. time window"
  let velocityValid ← readFlag "Velocity estimate valid"
  literal (ascii "OK\n")
  pure ⟨fixValid, leapSecondValid, sleepBetweenPvt, deadlineMissed, notEnoughWindowTime,
    velocityValid⟩

theorem status_reads (g : Gnss) :
    Reads readStatus (cmdAsciiCmdGnssStatus 0 g) (flagsOf g.lastGpsPvt) := by
  simp only [cmdAsciiCmdGnssStatus,ne_eq,not_true_eq_false,if_false,gnssGetData,List.append_assoc]
  refine (statusLine_reads _ _).bind ?_
  refine (statusLine_reads _ _).bind ?_
  refine (statusLine_reads _ _).bind ?_
  refine (statusLine_reads _ _).bind ?_
  refine (statusLine_reads _ _).bind ?_
  refine (statusLine_reads _ _).bind ?_
  exact (literal_reads (ascii "OK\n")).last fun _ => flagsOf g.lastGpsPvt

structure Location where
  fix : Bool
  longitude : List UInt8
  latitude : List UInt8
  altitude : List UInt8
  speed : List UInt8
  heading : List UInt8
  year : Nat
  month : Nat
  day : Nat
  hour : Nat
  minute : Nat
  seconds : Nat
  deriving DecidableEq, Repr

def located (pvt : PvtData) : Location :=
  ⟨pvt.fixValid, pvt.longitude.text, pvt.latitude.text, pvt.altitude.text, pvt.speed.text,
    pvt.heading.text, pvt.year.toNat, pvt.month.toNat, pvt.day.toNat, pvt.hour.toNat, pvt.minute.toNat,
    pvt.seconds.toNat⟩

def readLocation : Scanner UInt8 Location := do
  let fix ← flag (ascii "A,") (ascii "V,")
  let longitude ← upTo 0x2c
  let latitude ← upTo 0x2c
  let altitude ← upTo 0x2c
  let speed ← upTo 0x2c
  let heading ← upTo 0x2c
  let year ← number 0x2d
  let month ← number 0x2d
  let day ← number 0x54
  let hour ← number 0x3a
  let minute ← number 0x3a
  let seconds ← number 0x5a
  literal (ascii "\r\nOK\r\n")
  pure ⟨fix, longitude, latitude, altitude, speed, heading, year, month, day, hour, minute, seconds⟩

structure PvtData.Plain (pvt : PvtData) : Prop where
  longitude : 0x2c ∉ pvt.longitude.text
  latitude : 0x2c ∉ pvt.latitude.text
  altitude : 0x2c ∉ pvt.altitude.text
  speed : 0x2c ∉ pvt.speed.text
  heading : 0x2c ∉ pvt.heading.text

theorem location_reads {g : Gnss} (h : g.lastGpsPvt.Plain) :
    Reads readLocation (cmdAsciiCmdGnssLocation 0 g) (located g.lastGpsPvt) := by
  obtain ⟨hlon,hlat,halt,hspeed,hhead⟩ := h
  have htext : cmdAsciiCmdGnssLocation 0 g =
      (if g.lastGpsPvt.fixValid then ascii "A," else ascii "V,") ++
      ((g.lastGpsPvt.longitude.text ++ [0x2c]) ++ ((g.lastGpsPvt.latitude.text ++ [0x2c]) ++
      ((g.lastGpsPvt.altitude.text ++ [0x2c]) ++ ((g.lastGpsPvt.speed.text ++ [0x2c]) ++
      ((g.lastGpsPvt.heading.text ++ [0x2c]) ++ ((printU 4 g.lastGpsPvt.year.toNat ++ [0x2d]) ++
      ((printU 2 g.lastGpsPvt.month.toNat ++ [0x2d]) ++ ((printU 2 g.lastGpsPvt.day.toNat ++ [0x54]) ++
      ((printU 2 g.lastGpsPvt.hour.toNat ++ [0x3a]) ++ ((printU 2 g.lastGpsPvt.minute.toNat ++ [0x3a]) ++
      ((printU 2 g.lastGpsPvt.seconds.toNat ++ [0x5a]) ++ ascii "\r\nOK\r\n"))))))))))) := by
    cases hfix : g.lastGpsPvt.fixValid <;>
    · simp only [cmdAsciiCmdGnssLocation,ne_eq,not_true_eq_false,if_false,gnssGetData,dateTime,hfix,
        List.append_assoc]
      rfl
  rw [htext]
  refine (flag_reads (by decide) (by decide) _).bind ?_
  refine (upTo_reads hlon).bind ?_
  refine (upTo_reads hlat).bind ?_
  refine (upTo_reads halt).bind ?_
  refine (upTo_reads hspeed).bind ?_
  refine (upTo_reads hhead).bind ?_
  refine (number_reads (by decide) (by decide) _).bind ?_
  refine (number_reads (by decide) (by decide) _).bind ?_
  refine (number_reads (by decide) (by decide) _).bind ?_
  refine (number_reads (by decide) (by decide) _).bind ?_
  refine (number_reads (by decide) (by decide) _).bind ?_
  refine (number_reads (by decide) (by decide) _).bind ?_
  exact (literal_reads (ascii "\r\nOK\r\n")).last fun _ => located g.lastGpsPvt

/-- The answers of `$$GNSSSTAT` and `$$GNSSLOC` are read back as the flags, the measurements and
the time of the last position, also where a number is wider than its field. -/
theorem gnss_answers_read_back {g : Gnss} (h : g.lastGpsPvt.Plain) :
    readStatus.run (cmdAsciiCmdGnssStatus 0 g) = some (flagsOf g.lastGpsPvt, []) ∧
    readLocation.run (cmdAsciiCmdGnssLocation 0 g) = some (located g.lastGpsPvt, []) :=
  ⟨(status_reads g).whole,(location_reads h).whole⟩

def zeroGnss : Gnss :=
  { World.quiet.gnss with
    lastGpsPvt :=
      { World.quiet.gnss.lastGpsPvt with
        fixValid := true, deadlineMissed := true, velocityValid := true
        year := 10000, month := 1, day := 2, hour := 3, minute := 4, seconds := 255 } }

theorem gnss_answers_read_back_zero :
    readStatus.run (cmdAsciiCmdGnssStatus 0 zeroGnss) =
      some (⟨true, false, false, true, false, true⟩, []) ∧
    (readLocation.run (cmdAsciiCmdGnssLocation 0 zeroGnss)).map (fun r => (r.1.year, r.1.seconds)) =
      some (10000, 255) := by
  have hplain : 0x2c ∉ ascii "0.000000" := by decide
  obtain ⟨hstatus,hlocation⟩ :=
    @gnss_answers_read_back zeroGnss ⟨hplain,hplain,hplain,hplain,hplain⟩
  exact ⟨hstatus,by rw [hlocation]; rfl⟩

end Gnss

end SipfClient.Command
