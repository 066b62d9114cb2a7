import SipfClient.CText
set_option autoImplicit false

/-!
What `strtol` makes of a field of two characters that is cut off by a NUL, the only check
being that it stops there: besides two hexadecimal digits it takes a blank or a sign in
front of one digit, a digit in front of a NUL, and nothing at all.
-/

namespace CText
open ByteMem HexText

/-- The value of an accepted field, as it arrives in a byte. -/
def fieldByte (a b : UInt8) : Option UInt8 :=
  if a = 0 then some 0
  else if b = 0 then digitValue a
  else if a = 0x2d then (digitValue b).map (- ·)
  else if isSpace a ∨ a = 0x2b then digitValue b
  else pairValue a b

def strtolByte (s : List UInt8) : Option UInt8 :=
  if (strtol16 s).2 = [] then some (UInt8.ofInt (strtol16 s).1) else none

theorem isSpace_value {c : UInt8} (h : isSpace c = true) : digitValue c = none := by
  cases hd : digitValue c with
  | none => rfl
  | some v =>
    rw [isSpace_no_digit hd] at h
    cases h

section Shapes

variable {s : List UInt8} {neg : Bool} (hne : s ≠ [])
include hne

theorem strtolByte_nothing (h : signOf (s.dropWhile isSpace) = (neg, [])) : strtolByte s = none := by
  simp [strtolByte,strtol16,h,skipHexPrefix,hne]

theorem strtolByte_digit {c : UInt8} (h : signOf (s.dropWhile isSpace) = (neg, [c])) :
    strtolByte s = (digitValue c).map fun d => if neg then -d else d := by
  cases hd : digitValue c with
  | none => simp [strtolByte,strtol16,h,skipHexPrefix,isXdigit,hd,hne]
  | some d =>
    have hlt := digitValue_lt hd
    have hvalue : hexValue [c] = d.toNat := by simp [hexValue,hd]
    have hclip : ∀ n : Int, -16 < n → n < 16 → clipLong n = n := fun n hl hu => by
      simp only [clipLong]
      omega
    simp only [strtolByte,strtol16,h,skipHexPrefix,List.takeWhile_cons,isXdigit_of hd,List.takeWhile_nil,
      List.dropWhile_cons,List.dropWhile_nil,if_true,List.cons_ne_nil,if_false,hvalue,Option.map_some]
    cases neg
    · rw [if_neg (by decide),if_neg (by decide),hclip _ (by omega) (by omega),ofInt_toNat]
    · rw [if_pos rfl,if_pos rfl,hclip _ (by omega) (by omega),UInt8.ofInt_neg,ofInt_toNat]

end Shapes

theorem strtolByte_pair {a b : UInt8} (hspace : isSpace a = false) (hminus : a ≠ 0x2d)
    (hplus : a ≠ 0x2b) : strtolByte [a,b] = pairValue a b := by
  cases hp : pairValue a b with
  | some v => simp [strtolByte,strtol16_pair hp,ofInt_toNat]
  | none =>
    have hsign : signOf ([a,b].dropWhile isSpace) = (false, [a,b]) := by
      simp [hspace,signOf,hminus,hplus]
    cases ha : digitValue a with
    | none => simp [strtolByte,strtol16,hsign,skipHexPrefix,isXdigit,ha]
    | some x =>
      have hb : digitValue b = none := by
        cases hb : digitValue b with
        | none => rfl
        | some y => simp [pairValue,ha,hb] at hp
      simp [strtolByte,strtol16,hsign,skipHexPrefix,isXdigit,ha,hb]

theorem single_shape (c : UInt8) : signOf ([c].dropWhile isSpace) = (false, [c]) ∨
    digitValue c = none ∧ ∃ neg, signOf ([c].dropWhile isSpace) = (neg, []) := by
  cases hspace : isSpace c with
  | true => exact .inr ⟨isSpace_value hspace,false,by simp [hspace,signOf]⟩
  | false =>
    by_cases hminus : c = 0x2d
    · subst hminus
      exact .inr ⟨by decide,true,rfl⟩
    by_cases hplus : c = 0x2b
    · subst hplus
      exact .inr ⟨by decide,false,rfl⟩
    exact .inl (by simp [hspace,signOf,hminus,hplus])

theorem strtolByte_single {s : List UInt8} {c : UInt8} (hne : s ≠ [])
    (h : s.dropWhile isSpace = [c].dropWhile isSpace) : strtolByte s = digitValue c := by
  rcases single_shape c with hsign | ⟨hnone,neg,hsign⟩
  · rw [← h] at hsign
    rw [strtolByte_digit hne hsign]
    cases digitValue c <;> rfl
  · rw [← h] at hsign
    rw [strtolByte_nothing hne hsign,hnone]

theorem strtolByte_field (a b : UInt8) :
    strtolByte ([a,b].takeWhile (· ≠ 0)) = fieldByte a b := by
  by_cases ha : a = 0
  · subst ha
    rfl
  by_cases hb : b = 0
  · subst hb
    have htext : [a,0].takeWhile (· ≠ 0) = [a] := by simp [ha]
    rw [htext,fieldByte,if_neg ha,if_pos rfl]
    exact strtolByte_single (List.cons_ne_nil _ _) rfl
  have htext : [a,b].takeWhile (· ≠ 0) = [a,b] := by simp [ha,hb]
  have hne : [a,b] ≠ [] := List.cons_ne_nil _ _
  rw [htext,fieldByte,if_neg ha,if_neg hb]
  by_cases hminus : a = 0x2d
  · subst hminus
    have hsign : signOf ([0x2d,b].dropWhile isSpace) = (true, [b]) := rfl
    rw [if_pos rfl,strtolByte_digit hne hsign]
    rfl
  rw [if_neg hminus]
  by_cases hplus : a = 0x2b
  · subst hplus
    have hsign : signOf ([0x2b,b].dropWhile isSpace) = (false, [b]) := rfl
    rw [if_pos (.inr rfl),strtolByte_digit hne hsign]
    cases digitValue b <;> rfl
  cases hspace : isSpace a with
  | false => rw [if_neg (by simp [hplus]),strtolByte_pair hspace hminus hplus]
  | true =>
    rw [if_pos (.inl rfl)]
    exact strtolByte_single hne (by simp [hspace])

theorem fieldByte_pair {a b v : UInt8} (h : pairValue a b = some v) : fieldByte a b = some v := by
  obtain ⟨hi,lo,ha,hb,-⟩ := pairValue_toNat h
  have hspace : ¬ (isSpace a = true ∨ a = 0x2b) := fun hs => by
    rcases hs with hs | rfl
    · rw [isSpace_value hs] at ha
      cases ha
    · cases ha
  rw [fieldByte,if_neg (digitValue_ne ha (by decide)),if_neg (digitValue_ne hb (by decide)),
    if_neg (digitValue_ne ha (by decide)),if_neg hspace,h]

theorem pairValue_of_field {a b v : UInt8} (hf : fieldByte a b = some v) (hp : pairValue a b ≠ none) :
    pairValue a b = some v := by
  obtain ⟨w,hw⟩ := Option.ne_none_iff_exists'.1 hp
  rw [hw,← hf,fieldByte_pair hw]

theorem strtolByte_cString {m : Mem} {off : Nat} (hend : m (off + 2) = 0) :
    strtolByte (cString m off 3) = fieldByte (m off) (m (off + 1)) := by
  have hread : m.read off 3 = [m off,m (off + 1)] ++ 0 :: [] := by
    rw [← hend]
    rfl
  rw [cString,hread,takeWhile_before (by decide),strtolByte_field]

theorem strtolByte_some {s : List UInt8} {v : UInt8} (h : strtolByte s = some v) :
    (strtol16 s).2 = [] ∧ UInt8.ofInt (strtol16 s).1 = v := by
  rw [strtolByte] at h
  split_ifs at h with hend
  exact ⟨hend,Option.some_inj.1 h⟩

theorem strtolByte_none {s : List UInt8} (h : strtolByte s = none) : (strtol16 s).2 ≠ [] := by
  intro hend
  rw [strtolByte,if_pos hend] at h
  cases h

/-- A blank, a sign, a lone digit, no text; not two blanks, and not a prefix without a digit. -/
example : [fieldByte 0x20 0x46,fieldByte 0x2d 0x31,fieldByte 0x37 0,fieldByte 0 0x51,
    fieldByte 0x20 0x20,fieldByte 0x30 0x78] = [some 15,some 255,some 7,some 0,none,none] := by decide

end CText
