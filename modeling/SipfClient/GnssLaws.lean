import SipfClient.GnssEvents
import Mathlib.Data.List.Induction
set_option autoImplicit false

namespace SipfClient.Nmea
open ByteMem CText Command Runs

/-- The strings since the last position, the first ten of them. -/
def heard : List NmeaStr → GnssRecord → List NmeaStr
  | _, .event (.pvt _) => []
  | strs, .event (.nmea (some str)) => if strs.length < nmeaSlots then strs ++ [str] else strs
  | strs, _ => strs

def nmeaSince (log : List GnssRecord) : List NmeaStr := log.foldl heard []

@[simp] theorem nmeaSince_snoc (log : List GnssRecord) (r : GnssRecord) :
    nmeaSince (log ++ [r]) = heard (nmeaSince log) r := by
  simp [nmeaSince]

def nmeaText (strs : List NmeaStr) : List UInt8 := strs.flatMap (·.text)

@[simp] theorem nmeaText_append (strs strs' : List NmeaStr) :
    nmeaText (strs ++ strs') = nmeaText strs ++ nmeaText strs' :=
  List.flatMap_append

def quietAfter : Bool → GnssRecord → Bool
  | _, .called => true
  | _, .event (.pvt _) => false
  | quiet, _ => quiet

def quiet (log : List GnssRecord) : Bool := log.foldl quietAfter false

@[simp] theorem quiet_snoc (log : List GnssRecord) (r : GnssRecord) :
    quiet (log ++ [r]) = quietAfter (quiet log) r := by
  simp [quiet]

def Ignored (s : GnssState) : GnssEvent → Prop
  | .pvt _ => False
  | .nmea (some _) => nmeaSlots ≤ s.nmeaStringCnt
  | _ => True

inductive Transition (s : GnssState) : GnssMove → GnssState → Prop
  | stored (str : NmeaStr) (room : s.nmeaStringCnt < nmeaSlots) :
      Transition s (.event (.nmea (some str))) ({ s with
        nmeaStrings := s.nmeaStrings.copy (nmeaMaxLen * s.nmeaStringCnt) (str.text ++ [0])
        nmeaStringCnt := s.nmeaStringCnt + 1 }.record (.event (.nmea (some str))))
  | ignored (e : GnssEvent) (he : Ignored s e) : Transition s (.event e) (s.record (.event e))
  | pvt (read : Option PvtData) :
      Transition s (.event (.pvt read))
        (({ s with nmeaStringCnt := 0 }.onGnssEvtPvt read).record (.event (.pvt read)))
  | called (idle : s.copier = .idle) :
      Transition s .call ({ s with copier := .test 0 0 }.record .called)
  | entered (i ret : Nat) (hc : s.copier = .test i ret) (hi : i < s.nmeaStringCnt) :
      Transition s .loopTest { s with copier := .inside i ret 0 0 false }
  | returned (i ret : Nat) (hc : s.copier = .test i ret) (hi : s.nmeaStringCnt ≤ i) :
      Transition s .loopTest ({ s with copier := .idle }.record (.returned (s.outBuff.read 0 ret)))
  | measuredEnd (i ret m c : Nat) (hc : s.copier = .inside i ret m c false)
      (hb : s.nmeaStrings (nmeaMaxLen * i + m) = 0) :
      Transition s .measure { s with copier := .inside i ret m c true }
  | measured (i ret m c : Nat) (hc : s.copier = .inside i ret m c false)
      (hb : s.nmeaStrings (nmeaMaxLen * i + m) ≠ 0) :
      Transition s .measure { s with copier := .inside i ret (m + 1) c false }
  | copied (i ret m c : Nat) (ended : Bool) (hc : s.copier = .inside i ret m c ended) (hlt : c < m) :
      Transition s .copyByte { s with
        copier := .inside i ret m (c + 1) ended
        outBuff := s.outBuff.copy (ret + c) [s.nmeaStrings (nmeaMaxLen * i + c)] }
  | finished (i ret m : Nat) (hc : s.copier = .inside i ret m m true) :
      Transition s .finish { s with
        copier := .test (i + 1) (ret + m), outBuff := s.outBuff.copy (ret + m) [0] }

def CopierSafe : Copier → Prop
  | .idle => True
  | .test i ret => i ≤ nmeaSlots ∧ ret ≤ 82 * i
  | .inside i ret m c _ => i < nmeaSlots ∧ ret ≤ 82 * i ∧ c ≤ m ∧ m ≤ 82

/-- The last byte of each string stays a NUL, and so no string runs into the next. -/
structure Safe (s : GnssState) : Prop where
  cnt : s.nmeaStringCnt ≤ nmeaSlots
  ends : ∀ i, i < nmeaSlots → s.nmeaStrings (nmeaMaxLen * i + 82) = 0
  copier : CopierSafe s.copier

section Access

variable {s : GnssState}

theorem readByte_ok {i p : Nat} (hi : i < nmeaSlots) (hp : p ≤ 82) :
    s.readByte i p = .ok (s.nmeaStrings (nmeaMaxLen * i + p)) :=
  if_pos ⟨hi,Nat.lt_succ_of_le hp⟩

theorem writeByte_ok {pos : Nat} {b : UInt8} (h : pos < cmdBuffSz) :
    s.writeByte pos b = .ok { s with outBuff := s.outBuff.copy pos [b] } := by
  rw [GnssState.writeByte,Mem.store_ok (by simpa using h)]
  rfl

theorem event_transition (s : GnssState) (e : GnssEvent) :
    ∃ s', (s.gnssEventHandler e).map (·.record (.event e)) = .ok s' ∧
      Transition s (.event e) s' := by
  cases e with
  | pvt read => exact ⟨_,rfl,.pvt read⟩
  | fix => exact ⟨_,rfl,.ignored .fix trivial⟩
  | other => exact ⟨_,rfl,.ignored .other trivial⟩
  | nmea read =>
    cases read with
    | none => exact ⟨_,rfl,.ignored (.nmea none) trivial⟩
    | some str =>
      simp only [GnssState.gnssEventHandler,GnssState.onGnssEvtNmea]
      by_cases hroom : s.nmeaStringCnt < nmeaSlots
      · have hfit := str.fit
        rw [if_pos hroom,Mem.store_ok (by
          simp only [nmeaSlots,nmeaMaxLen,List.length_append,List.length_singleton] at hroom hfit ⊢
          omega)]
        exact ⟨_,rfl,.stored str hroom⟩
      · rw [if_neg hroom]
        exact ⟨_,rfl,.ignored _ (Nat.le_of_not_lt hroom)⟩

theorem move_transition (hs : Safe s) {m : GnssMove} {r : Except OutOfBounds GnssState}
    (h : s.move m = some r) : ∃ s', r = .ok s' ∧ Transition s m s' := by
  have hcop := hs.copier
  cases m with
  | event e =>
    obtain ⟨s',hs',ht⟩ := event_transition s e
    simp only [GnssState.move,hs',Option.some.injEq] at h
    exact ⟨s',h.symm,ht⟩
  | call =>
    simp only [GnssState.move] at h
    cases hc : s.copier with
    | idle =>
      simp only [hc,Option.some.injEq] at h
      exact ⟨_,h.symm,.called hc⟩
    | test i ret => simp [hc] at h
    | inside i ret m c ended => simp [hc] at h
  | loopTest =>
    simp only [GnssState.move,GnssState.loopTest] at h
    cases hc : s.copier with
    | idle => simp [hc] at h
    | inside i ret m c ended => simp [hc] at h
    | test i ret =>
      simp only [hc] at h
      by_cases hi : i < s.nmeaStringCnt
      · simp only [if_pos hi,Option.some.injEq] at h
        exact ⟨_,h.symm,.entered i ret hc hi⟩
      · simp only [if_neg hi,Option.some.injEq] at h
        exact ⟨_,h.symm,.returned i ret hc (Nat.le_of_not_lt hi)⟩
  | measure =>
    simp only [GnssState.move,GnssState.measure] at h
    cases hc : s.copier with
    | idle => simp [hc] at h
    | test i ret => simp [hc] at h
    | inside i ret m c ended =>
      rw [hc] at hcop
      obtain ⟨hi,-,-,hm⟩ := hcop
      cases ended with
      | true => simp [hc] at h
      | false =>
        simp only [hc,readByte_ok hi hm,Except.map,Option.some.injEq] at h
        by_cases hb : s.nmeaStrings (nmeaMaxLen * i + m) = 0
        · rw [if_pos hb] at h
          exact ⟨_,h.symm,.measuredEnd i ret m c hc hb⟩
        · rw [if_neg hb] at h
          exact ⟨_,h.symm,.measured i ret m c hc hb⟩
  | copyByte =>
    simp only [GnssState.move,GnssState.copyByte] at h
    cases hc : s.copier with
    | idle => simp [hc] at h
    | test i ret => simp [hc] at h
    | inside i ret m c ended =>
      rw [hc] at hcop
      obtain ⟨hi,hret,-,hm⟩ := hcop
      simp only [hc] at h
      split at h
      · rename_i hlt
        have hpos : ret + c < cmdBuffSz := by
          simp only [nmeaSlots,cmdBuffSz] at hi ⊢
          omega
        rw [readByte_ok hi (by omega)] at h
        simp only [Except.bind,writeByte_ok hpos,Option.some.injEq] at h
        exact ⟨_,h.symm,.copied i ret m c ended hc hlt⟩
      · cases h
  | finish =>
    simp only [GnssState.move,GnssState.finish] at h
    cases hc : s.copier with
    | idle => simp [hc] at h
    | test i ret => simp [hc] at h
    | inside i ret m c ended =>
      rw [hc] at hcop
      obtain ⟨hi,hret,-,hm⟩ := hcop
      cases ended with
      | false => simp [hc] at h
      | true =>
        simp only [hc] at h
        split at h
        · rename_i hcm
          subst hcm
          have hpos : ret + c < cmdBuffSz := by
            simp only [nmeaSlots,cmdBuffSz] at hi ⊢
            omega
          simp only [writeByte_ok hpos,Option.some.injEq] at h
          exact ⟨_,h.symm,.finished i ret c hc⟩
        · cases h

theorem copy_slot_other (m : Mem) (str : NmeaStr) {i k p : Nat} (hp : p < nmeaMaxLen) (hik : i ≠ k) :
    m.copy (nmeaMaxLen * k) (str.text ++ [0]) (nmeaMaxLen * i + p) = m (nmeaMaxLen * i + p) := by
  have hfit := str.fit
  simp only [nmeaMaxLen] at hp hfit ⊢
  rcases Nat.lt_or_gt_of_ne hik with hlt | hgt
  · exact Mem.copy_before _ _ _ (by omega)
  · refine Mem.copy_after _ _ _ ?_
    rw [List.length_append,List.length_singleton]
    omega

theorem copy_slot_end (m : Mem) (str : NmeaStr) (k : Nat) (hm : m (nmeaMaxLen * k + 82) = 0) :
    m.copy (nmeaMaxLen * k) (str.text ++ [0]) (nmeaMaxLen * k + 82) = 0 := by
  have hfit := str.fit
  simp only [nmeaMaxLen] at hfit
  by_cases hlen : str.text.length = 82
  · rw [Mem.copy_inside _ _ _ (by simp [hlen]),List.getElem_append_right (by omega)]
    simp
  · rw [Mem.copy_after]
    · exact hm
    · rw [List.length_append,List.length_singleton]
      omega

theorem safe_step {mv : GnssMove} {s' : GnssState} (h : Transition s mv s') (hs : Safe s) :
    Safe s' := by
  obtain ⟨hcnt,hends,hcop⟩ := hs
  cases h with
  | stored str room =>
    refine ⟨room,fun i hi => ?_,hcop⟩
    by_cases hik : i = s.nmeaStringCnt
    · subst hik
      exact copy_slot_end _ str _ (hends _ hi)
    · exact (copy_slot_other _ str (by decide) hik).trans (hends i hi)
  | ignored e he => exact ⟨hcnt,hends,hcop⟩
  | pvt read => cases read <;> exact ⟨Nat.zero_le _,hends,hcop⟩
  | called idle => exact ⟨hcnt,hends,Nat.zero_le _,Nat.zero_le _⟩
  | entered i ret hc hi =>
    rw [hc] at hcop
    exact ⟨hcnt,hends,Nat.lt_of_lt_of_le hi hcnt,hcop.2,Nat.le_refl _,Nat.zero_le _⟩
  | returned i ret hc hi => exact ⟨hcnt,hends,trivial⟩
  | measuredEnd i ret m c hc hb =>
    rw [hc] at hcop
    exact ⟨hcnt,hends,hcop⟩
  | measured i ret m c hc hb =>
    rw [hc] at hcop
    obtain ⟨hi,hret,hle,hm⟩ := hcop
    have hne : m ≠ 82 := by
      rintro rfl
      exact hb (hends i hi)
    exact ⟨hcnt,hends,hi,hret,by omega,by omega⟩
  | copied i ret m c ended hc hlt =>
    rw [hc] at hcop
    obtain ⟨hi,hret,hle,hm⟩ := hcop
    exact ⟨hcnt,hends,hi,hret,hlt,hm⟩
  | finished i ret m hc =>
    rw [hc] at hcop
    obtain ⟨hi,hret,hle,hm⟩ := hcop
    exact ⟨hcnt,hends,hi,by omega⟩

def Holds (s : GnssState) (strs : List NmeaStr) : Prop :=
  s.nmeaStringCnt = strs.length ∧
  ∀ i str, strs[i]? = some str →
    s.nmeaStrings.read (nmeaMaxLen * i) (str.text ++ [0]).length = str.text ++ [0]

theorem copy_slot_holds {m : Mem} {strs : List NmeaStr} (str : NmeaStr)
    (h : ∀ i t, strs[i]? = some t →
      m.read (nmeaMaxLen * i) (t.text ++ [0]).length = t.text ++ [0]) :
    ∀ i t, (strs ++ [str])[i]? = some t →
      (m.copy (nmeaMaxLen * strs.length) (str.text ++ [0])).read (nmeaMaxLen * i)
        (t.text ++ [0]).length = t.text ++ [0] := by
  intro i t ht
  by_cases hi : i < strs.length
  · rw [List.getElem?_append_left hi] at ht
    refine Eq.trans (Mem.read_congr fun p hp => ?_) (h i t ht)
    have hfit := t.fit
    rw [List.length_append,List.length_singleton] at hp
    exact copy_slot_other m str (by omega) (Nat.ne_of_lt hi)
  · obtain ⟨hlt,-⟩ := List.getElem?_eq_some_iff.1 ht
    rw [List.length_append,List.length_singleton] at hlt
    obtain rfl : i = strs.length := by omega
    obtain rfl : str = t := by simpa using ht
    exact Mem.read_copy m _ _

theorem holds_step {mv : GnssMove} {s' : GnssState} (h : Transition s mv s')
    (hh : Holds s (nmeaSince s.log)) :
    Holds s' (nmeaSince s'.log) := by
  obtain ⟨hcnt,hstr⟩ := hh
  cases h with
  | stored str room =>
    have hroom : (nmeaSince s.log).length < nmeaSlots := hcnt ▸ room
    have hlist : nmeaSince (s.log ++ [.event (.nmea (some str))]) = nmeaSince s.log ++ [str] := by
      simp [heard,hroom]
    refine ⟨?_,?_⟩
    · change s.nmeaStringCnt + 1 = (nmeaSince (s.log ++ [_])).length
      rw [hlist,hcnt,List.length_append,List.length_singleton]
    · change ∀ i t, (nmeaSince (s.log ++ [_]))[i]? = some t → _
      rw [hlist,hcnt]
      exact copy_slot_holds str hstr
  | ignored e he =>
    have hlist : nmeaSince (s.log ++ [.event e]) = nmeaSince s.log := by
      rw [nmeaSince_snoc]
      cases e with
      | pvt read => cases he
      | nmea read =>
        cases read with
        | none => rfl
        | some str => exact if_neg (by rw [← hcnt]; exact Nat.not_lt_of_le he)
      | fix => rfl
      | other => rfl
    change Holds (s.record _) (nmeaSince (s.log ++ [.event e]))
    rw [hlist]
    exact ⟨hcnt,hstr⟩
  | pvt read =>
    have hlist : nmeaSince (s.log ++ [.event (.pvt read)]) = [] := nmeaSince_snoc _ _
    cases read <;>
    · change Holds _ (nmeaSince (s.log ++ [_]))
      rw [hlist]
      exact ⟨rfl,by simp⟩
  | called idle =>
    change Holds _ (nmeaSince (s.log ++ [_]))
    rw [nmeaSince_snoc]
    exact ⟨hcnt,hstr⟩
  | returned i ret hc hi =>
    change Holds _ (nmeaSince (s.log ++ [_]))
    rw [nmeaSince_snoc]
    exact ⟨hcnt,hstr⟩
  | _ => exact ⟨hcnt,hstr⟩

theorem holds_byte {strs : List NmeaStr} (h : Holds s strs) {i p : Nat} {str : NmeaStr}
    (hi : strs[i]? = some str) (hp : p < (str.text ++ [0]).length) :
    s.nmeaStrings (nmeaMaxLen * i + p) = (str.text ++ [0])[p] :=
  (Mem.read_eq_iff _ _ _).1 (h.2 i str hi) p hp

theorem holds_end {strs : List NmeaStr} (h : Holds s strs) {i m : Nat} {str : NmeaStr}
    (hi : strs[i]? = some str) (hm : m ≤ str.text.length) :
    s.nmeaStrings (nmeaMaxLen * i + m) = 0 ↔ m = str.text.length := by
  rw [holds_byte h hi (by rw [List.length_append,List.length_singleton]; omega)]
  rcases Nat.lt_or_eq_of_le hm with hlt | rfl
  · rw [List.getElem_append_left hlt]
    exact iff_of_false (str.noNul _ (List.getElem_mem hlt)) (Nat.ne_of_lt hlt)
  · simp

/-- What is copied so far is the strings in front of the one at hand and a part of it. -/
def Faithful (out : Mem) (strs : List NmeaStr) : Copier → Prop
  | .idle => True
  | .test i ret => i ≤ strs.length ∧ out.read 0 ret = nmeaText (strs.take i)
  | .inside i ret m c ended =>
    ∃ str, strs[i]? = some str ∧ m ≤ str.text.length ∧ (ended = true → m = str.text.length) ∧
      out.read 0 (ret + c) = nmeaText (strs.take i) ++ str.text.take c

theorem Faithful.append {out : Mem} {strs : List NmeaStr} {c : Copier} (h : Faithful out strs c)
    (str : NmeaStr) : Faithful out (strs ++ [str]) c := by
  cases c with
  | idle => trivial
  | test i ret =>
    obtain ⟨hi,hout⟩ := h
    refine ⟨?_,?_⟩
    · rw [List.length_append]
      omega
    · rw [List.take_append_of_le_length hi,hout]
  | inside i ret m c ended =>
    obtain ⟨t,ht,hm,hend,hout⟩ := h
    have hi := (List.getElem?_eq_some_iff.1 ht).1
    refine ⟨t,by rw [List.getElem?_append_left hi,ht],hm,hend,?_⟩
    rw [List.take_append_of_le_length (Nat.le_of_lt hi),hout]

theorem faithful_step {mv : GnssMove} {s' : GnssState} (h : Transition s mv s')
    (hh : Holds s (nmeaSince s.log))
    (hf : quiet s.log = true → Faithful s.outBuff (nmeaSince s.log) s.copier) :
    quiet s'.log = true → Faithful s'.outBuff (nmeaSince s'.log) s'.copier := by
  cases h with
  | stored str room =>
    intro hq
    change quiet (s.log ++ [_]) = true at hq
    change Faithful s.outBuff (nmeaSince (s.log ++ [_])) s.copier
    rw [quiet_snoc] at hq
    have hroom : (nmeaSince s.log).length < nmeaSlots := hh.1 ▸ room
    rw [nmeaSince_snoc,heard,if_pos hroom]
    exact (hf hq).append str
  | ignored e he =>
    intro hq
    change quiet (s.log ++ [_]) = true at hq
    change Faithful s.outBuff (nmeaSince (s.log ++ [_])) s.copier
    rw [quiet_snoc] at hq
    rw [nmeaSince_snoc]
    cases e with
    | pvt read => cases he
    | nmea read =>
      cases read with
      | none => exact hf hq
      | some str =>
        rw [heard,if_neg (by rw [← hh.1]; exact Nat.not_lt_of_le he)]
        exact hf hq
    | fix => exact hf hq
    | other => exact hf hq
  | pvt read =>
    intro hq
    cases read <;>
    · change quiet (s.log ++ [_]) = true at hq
      rw [quiet_snoc] at hq
      cases hq
  | called idle => exact fun _ => ⟨Nat.zero_le _,rfl⟩
  | entered i ret hc hi =>
    intro hq
    have hold := hf hq
    rw [hc] at hold
    obtain ⟨-,hout⟩ := hold
    rw [hh.1] at hi
    exact ⟨_,List.getElem?_eq_getElem hi,Nat.zero_le _,by simp,by simpa using hout⟩
  | returned i ret hc hi => exact fun _ => trivial
  | measuredEnd i ret m c hc hb =>
    intro hq
    have hold := hf hq
    rw [hc] at hold
    obtain ⟨str,hstr,hm,-,hout⟩ := hold
    exact ⟨str,hstr,hm,fun _ => (holds_end hh hstr hm).1 hb,hout⟩
  | measured i ret m c hc hb =>
    intro hq
    have hold := hf hq
    rw [hc] at hold
    obtain ⟨str,hstr,hm,-,hout⟩ := hold
    have hne : m ≠ str.text.length := fun heq => hb ((holds_end hh hstr hm).2 heq)
    exact ⟨str,hstr,by omega,by simp,hout⟩
  | copied i ret m c ended hc hlt =>
    intro hq
    have hold := hf hq
    rw [hc] at hold
    obtain ⟨str,hstr,hm,hend,hout⟩ := hold
    have hc' : c < str.text.length := by omega
    have hbyte : s.nmeaStrings (nmeaMaxLen * i + c) = str.text[c] := by
      rw [holds_byte hh hstr (by rw [List.length_append,List.length_singleton]; omega),
        List.getElem_append_left hc']
    refine ⟨str,hstr,hm,hend,?_⟩
    have happ := Mem.read_copy_append s.outBuff (ret + c) [str.text[c]]
    rw [List.length_singleton] at happ
    change (s.outBuff.copy (ret + c) [s.nmeaStrings (nmeaMaxLen * i + c)]).read 0 (ret + c + 1) = _
    rw [hbyte,happ,hout,List.append_assoc,List.take_append_getElem hc']
  | finished i ret m hc =>
    intro hq
    have hold := hf hq
    rw [hc] at hold
    obtain ⟨str,hstr,hm,hend,hout⟩ := hold
    obtain rfl := hend rfl
    have hi := (List.getElem?_eq_some_iff.1 hstr).1
    refine ⟨hi,?_⟩
    have hkeep : (s.outBuff.copy (ret + str.text.length) [0]).read 0 (ret + str.text.length) =
        s.outBuff.read 0 (ret + str.text.length) :=
      Mem.read_congr fun p hp => Mem.copy_before _ _ _ (by omega)
    change (s.outBuff.copy (ret + str.text.length) [0]).read 0 (ret + str.text.length) = _
    rw [hkeep,hout,List.take_add_one,hstr,List.take_length]
    simp [nmeaText]

/-- What `gnss_strcpy_nmea` returns fits ten strings, and is the strings since the last
position unless a position has come since the call. -/
def ReturnsHeard (before : List GnssRecord) : GnssRecord → Prop
  | .returned text =>
    text.length ≤ 820 ∧ (quiet before = true → text = nmeaText (nmeaSince before))
  | _ => True

theorem returns_step {mv : GnssMove} {s' : GnssState} (h : Transition s mv s') (hs : Safe s)
    (hh : Holds s (nmeaSince s.log))
    (hf : quiet s.log = true → Faithful s.outBuff (nmeaSince s.log) s.copier)
    (hj : Justified ReturnsHeard s.log) : Justified ReturnsHeard s'.log := by
  cases h with
  | returned i ret hc hi =>
    have hcop := hs.copier
    rw [hc] at hcop
    obtain ⟨hslots,hret⟩ := hcop
    refine justified_snoc hj ⟨?_,fun hq => ?_⟩
    · rw [Mem.read_length]
      simp only [nmeaSlots] at hslots
      omega
    · have hold := hf hq
      rw [hc] at hold
      obtain ⟨hle,hout⟩ := hold
      rw [hh.1] at hi
      rw [hout,List.take_of_length_le hi]
  | pvt read => cases read <;> exact justified_snoc hj trivial
  | stored str room => exact justified_snoc hj trivial
  | ignored e he => exact justified_snoc hj trivial
  | called idle => exact justified_snoc hj trivial
  | _ => exact hj

structure Inv (s : GnssState) : Prop where
  safe : Safe s
  holds : Holds s (nmeaSince s.log)
  faithful : quiet s.log = true → Faithful s.outBuff (nmeaSince s.log) s.copier
  log : Justified ReturnsHeard s.log

theorem inv_boot (outBuff : Mem) : Inv (.boot outBuff) :=
  ⟨⟨Nat.zero_le _,fun _ _ => rfl,trivial⟩,⟨rfl,by simp [GnssState.boot,nmeaSince]⟩,
    fun _ => trivial,justified_nil _⟩

theorem inv_step {mv : GnssMove} {s' : GnssState} (hi : Inv s) (h : Transition s mv s') : Inv s' :=
  ⟨safe_step h hi.safe,holds_step h hi.holds,faithful_step h hi.holds hi.faithful,
    returns_step h hi.safe hi.holds hi.faithful hi.log⟩

theorem inv_run {outBuff : Mem} {moves : List GnssMove} {r : Except OutOfBounds GnssState}
    (h : run step (.ok (.boot outBuff)) moves = some r) : ∃ s, r = .ok s ∧ Inv s := by
  refine run_inv (fun r => ∃ s, r = .ok s ∧ Inv s) ?_ ⟨_,rfl,inv_boot outBuff⟩ h
  rintro r m r' ⟨s,rfl,hi⟩ hstep
  obtain ⟨s',rfl,ht⟩ := move_transition hi.safe hstep
  exact ⟨s',rfl,inv_step hi ht⟩

end Access

theorem heard_length {strs : List NmeaStr} (h : strs.length ≤ nmeaSlots) (r : GnssRecord) :
    (heard strs r).length ≤ nmeaSlots := by
  unfold heard
  split
  · exact Nat.zero_le _
  · split
    · rw [List.length_append,List.length_singleton]
      omega
    · exact h
  · exact h

theorem nmeaSince_length (log : List GnssRecord) : (nmeaSince log).length ≤ nmeaSlots := by
  induction log using List.reverseRecOn with
  | nil => exact Nat.zero_le _
  | append_singleton log r ih =>
    rw [nmeaSince_snoc]
    exact heard_length ih r

def heardStrings (log : List GnssRecord) : NmeaStrings where
  strings := (nmeaSince log).map (·.text)
  count := by
    rw [List.length_map]
    exact nmeaSince_length log
  fit := by
    intro s hs
    obtain ⟨str,-,rfl⟩ := List.mem_map.1 hs
    exact str.fit

theorem gnssStrcpyNmea_heard (g : Gnss) (log : List GnssRecord) :
    gnssStrcpyNmea { g with nmea := heardStrings log } = nmeaText (nmeaSince log) :=
  rfl

def returnedTexts : GnssRecord → List (List UInt8)
  | .returned text => [text]
  | _ => []

def NeverOverruns (r : Except OutOfBounds GnssState) : Prop :=
  ∃ s, r = .ok s ∧ Safe s ∧ ∀ text ∈ s.log.flatMap returnedTexts, text.length ≤ 820

theorem copy_never_overruns {outBuff : Mem} {moves : List GnssMove}
    {r : Except OutOfBounds GnssState} (h : run step (.ok (.boot outBuff)) moves = some r) :
    NeverOverruns r := by
  obtain ⟨s,rfl,hi⟩ := inv_run h
  refine ⟨s,rfl,hi.safe,fun text htext => ?_⟩
  obtain ⟨rec,hmem,hrec⟩ := List.mem_flatMap.1 htext
  obtain ⟨before,after,hlog⟩ := List.append_of_mem hmem
  have hj := hi.log before rec after hlog
  cases rec with
  | returned t =>
    obtain rfl : text = t := by simpa [returnedTexts] using hrec
    exact hj.1
  | _ => simp [returnedTexts] at hrec

def lateString : List GnssMove :=
  let str (b : UInt8) (hb : b ≠ 0) : GnssEvent :=
    .nmea (some ⟨[0x24,b], by simp [hb], by simp [nmeaMaxLen]⟩)
  [.event (.pvt none),.event (str 0x41 (by decide)),.call,.loopTest,.measure,.copyByte,
    .event (str 0x42 (by decide)),.measure,.copyByte,.measure,.finish,.event .fix,.loopTest,
    .measure,.measure,.measure,.copyByte,.copyByte,.finish,.loopTest]

def lateRun : Option (Except OutOfBounds GnssState) := run step (.ok (.boot .zero)) lateString

theorem lateRun_runs : lateRun.isSome := by decide +kernel

theorem copy_never_overruns_late :
    lateRun.map (fun r => r.toOption.map fun s => s.log.flatMap returnedTexts) =
      some (some [[0x24,0x41,0x24,0x42]]) ∧
    NeverOverruns (lateRun.get lateRun_runs) :=
  ⟨by decide +kernel,copy_never_overruns (Option.some_get lateRun_runs).symm⟩

/-- A call returns what `gnssStrcpyNmea` returns for the strings heard, as long as no position
has come since it began, and the array holds these strings. -/
def CopiesHeard (s : GnssState) : Prop :=
  (∀ before text after, s.log = before ++ .returned text :: after → quiet before = true →
    ∀ g : Gnss, text = gnssStrcpyNmea { g with nmea := heardStrings before }) ∧
  ∀ i str, (nmeaSince s.log)[i]? = some str →
    cString s.nmeaStrings (nmeaMaxLen * i) nmeaMaxLen = str.text

theorem copy_exact {outBuff : Mem} {moves : List GnssMove} {s : GnssState}
    (h : run step (.ok (.boot outBuff)) moves = some (.ok s)) : CopiesHeard s := by
  obtain ⟨s',hs,hi⟩ := inv_run h
  cases hs
  refine ⟨?_,?_⟩
  · intro before text after hlog hq g
    rw [gnssStrcpyNmea_heard]
    exact (hi.log before _ after hlog).2 hq
  · intro i str hstr
    have hread := hi.holds.2 i str hstr
    rw [List.length_append,List.length_singleton,Mem.read_add] at hread
    obtain ⟨htext,hend⟩ := List.append_inj hread (Mem.read_length _ _ _)
    exact cString_eq str.noNul htext (by simpa [Mem.read] using hend) str.fit

theorem lateRun_ok : (lateRun.bind Except.toOption).isSome := by decide +kernel

theorem lateRun_eq : lateRun = some (.ok ((lateRun.bind Except.toOption).get lateRun_ok)) := by
  have hget := Option.some_get lateRun_ok
  generalize (lateRun.bind Except.toOption).get lateRun_ok = s at hget ⊢
  cases hr : lateRun with
  | none => simp [hr] at hget
  | some r =>
    cases r with
    | error e => simp [hr,Except.toOption] at hget
    | ok t => simpa [hr,Except.toOption] using hget.symm

theorem copy_exact_late : CopiesHeard ((lateRun.bind Except.toOption).get lateRun_ok) :=
  copy_exact lateRun_eq

/-- A position and a new string while the old one is copied: a mixture with a NUL in it. -/
example :
    let str (c : UInt8) (hc : c ≠ 0) : GnssMove :=
      .event (.nmea (some ⟨[0x24,c], by simp [hc], by simp [nmeaMaxLen]⟩))
    let dollar : GnssMove := .event (.nmea (some ⟨[0x24], by simp, by simp [nmeaMaxLen]⟩))
    (run step (.ok (.boot .zero))
        [str 0x41 (by decide),.call,.loopTest,.measure,.measure,.measure,.event (.pvt none),dollar,
          .copyByte,.copyByte,.finish,.loopTest]).map
        (fun r => r.toOption.map fun s => s.log.flatMap returnedTexts) =
      some (some [[0x24,0x00]]) := by
  decide +kernel

def stepsLeft : Copier → Nat
  | .idle => 0
  | .test i _ => 168 * (nmeaSlots - i) + 1
  | .inside i _ m c ended =>
    168 * (nmeaSlots - i - 1) + (82 - m) + (82 - c) + (if ended then 0 else 1) + 2

theorem stepsLeft_step {s s' : GnssState} {mv : GnssMove} (h : Transition s mv s') (hs : Safe s)
    (hmv : mv ≠ .call) :
    stepsLeft s'.copier + (if mv.isCopier then 1 else 0) ≤ stepsLeft s.copier := by
  have hcop := hs.copier
  have hcnt := hs.cnt
  cases h with
  | stored str room => exact Nat.le_refl _
  | ignored e he => exact Nat.le_refl _
  | pvt read => cases read <;> exact Nat.le_refl _
  | called idle => exact absurd rfl hmv
  | entered i ret hc hi =>
    rw [hc]
    simp only [stepsLeft,GnssMove.isCopier,if_true,Bool.false_eq_true,if_false]
    omega
  | returned i ret hc hi =>
    rw [hc]
    simp [stepsLeft,GnssState.record,GnssMove.isCopier]
  | measuredEnd i ret m c hc hb =>
    rw [hc]
    simp only [stepsLeft,GnssMove.isCopier,if_true,Bool.false_eq_true,if_false]
    omega
  | measured i ret m c hc hb =>
    rw [hc] at hcop
    obtain ⟨hi,-,-,hm⟩ := hcop
    have hne : m ≠ 82 := by
      rintro rfl
      exact hb (hs.ends i hi)
    rw [hc]
    simp only [stepsLeft,GnssMove.isCopier,if_true,Bool.false_eq_true,if_false]
    omega
  | copied i ret m c ended hc hlt =>
    rw [hc] at hcop
    obtain ⟨-,-,-,hm⟩ := hcop
    rw [hc]
    simp only [stepsLeft,GnssMove.isCopier,if_true]
    omega
  | finished i ret m hc =>
    rw [hc]
    simp only [stepsLeft,GnssMove.isCopier,if_true,Nat.sub_sub]
    omega

/-- A copy under way has a next step, whatever the events have done. -/
theorem copier_moves {s : GnssState} (hs : Safe s) (hbusy : s.copier ≠ .idle) :
    ∃ mv, mv.isCopier = true ∧ (s.move mv).isSome := by
  cases hc : s.copier with
  | idle => exact absurd hc hbusy
  | test i ret =>
    refine ⟨.loopTest,rfl,?_⟩
    simp only [GnssState.move,GnssState.loopTest,hc]
    split <;> rfl
  | inside i ret m c ended =>
    have hcop := hs.copier
    rw [hc] at hcop
    cases ended with
    | false => exact ⟨.measure,rfl,by simp [GnssState.move,GnssState.measure,hc]⟩
    | true =>
      by_cases hlt : c < m
      · exact ⟨.copyByte,rfl,by simp [GnssState.move,GnssState.copyByte,hc,hlt]⟩
      · have heq : c = m := Nat.le_antisymm hcop.2.2.1 (Nat.le_of_not_lt hlt)
        exact ⟨.finish,rfl,by simp [GnssState.move,GnssState.finish,hc,heq]⟩

def stepsOf : Except OutOfBounds GnssState → Nat
  | .ok s => stepsLeft s.copier
  | .error _ => 0

theorem steps_spent {r r' : Except OutOfBounds GnssState} (hr : ∃ s, r = .ok s ∧ Inv s)
    {moves : List GnssMove} (hmoves : ∀ mv ∈ moves, mv ≠ .call) (h : run step r moves = some r') :
    moves.countP GnssMove.isCopier + stepsOf r' ≤ stepsOf r := by
  refine run_spends (fun r => ∃ s, r = .ok s ∧ Inv s) (· ≠ .call) _ stepsOf ?_ hr hmoves h
  rintro r mv r' ⟨s,rfl,hi⟩ hmv hstep
  obtain ⟨s',rfl,ht⟩ := move_transition hi.safe hstep
  exact ⟨⟨s',rfl,inv_step hi ht⟩,stepsLeft_step ht hi.safe hmv⟩

/-- `post` is what comes behind the last call: at most 1681 steps of its own bring a copy to
its end, and as long as it is under way there is a next one. -/
def CallEnds (r : Except OutOfBounds GnssState) (post : List GnssMove) : Prop :=
  post.countP GnssMove.isCopier ≤ 1681 ∧
  ∃ s, r = .ok s ∧ (s.copier ≠ .idle → ∃ mv, mv.isCopier = true ∧ (s.move mv).isSome)

theorem stepsOf_called {s : GnssState} {r : Except OutOfBounds GnssState}
    (h : step (.ok s) .call = some r) : stepsOf r = 1681 := by
  simp only [step,GnssState.move] at h
  cases hc : s.copier with
  | idle =>
    simp only [hc,Option.some.injEq] at h
    subst h
    rfl
  | test i ret => simp [hc] at h
  | inside i ret m c ended => simp [hc] at h

theorem call_ends {outBuff : Mem} {pre post : List GnssMove} {r : Except OutOfBounds GnssState}
    (h : run step (.ok (.boot outBuff)) (pre ++ .call :: post) = some r)
    (hpost : ∀ mv ∈ post, mv ≠ .call) : CallEnds r post := by
  obtain ⟨s,rfl,hi⟩ := inv_run h
  rw [run_append] at h
  obtain ⟨r1,hpre,hrest⟩ := Option.bind_eq_some_iff.1 h
  obtain ⟨s1,rfl,hi1⟩ := inv_run hpre
  obtain ⟨r2,hcall,hpost'⟩ := Option.bind_eq_some_iff.1 hrest
  obtain ⟨s2,rfl,ht⟩ := move_transition (m := .call) hi1.safe hcall
  have hspent := steps_spent ⟨s2,rfl,inv_step hi1 ht⟩ hpost hpost'
  rw [stepsOf_called hcall] at hspent
  exact ⟨by omega,s,rfl,copier_moves hi.safe⟩

theorem call_ends_late : CallEnds (lateRun.get lateRun_runs) (lateString.drop 3) :=
  have hrun : run step (.ok (.boot .zero)) (lateString.take 2 ++ .call :: lateString.drop 3) =
      some (lateRun.get lateRun_runs) :=
    (Option.some_get lateRun_runs).symm
  call_ends hrun (by simp [lateString])

end SipfClient.Nmea
