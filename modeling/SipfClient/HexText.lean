import SipfClient.Memory
set_option autoImplicit false

namespace HexText

def ascii (s : String) : List UInt8 := s.toList.map fun c => c.toNat.toUInt8

def crlf : List UInt8 := [0x0d,0x0a]

def digit (n : UInt8) : UInt8 := if n < 10 then 0x30 + n else 0x37 + n

def hex2 (b : UInt8) : List UInt8 := [digit (b >>> 4),digit (b &&& 0x0f)]

def hexOf (bs : List UInt8) : List UInt8 := bs.flatMap hex2

def hex8 (n : UInt32) : List UInt8 :=
  hexOf [(n >>> 24).toUInt8,(n >>> 16).toUInt8,(n >>> 8).toUInt8,n.toUInt8]

def digitValue (c : UInt8) : Option UInt8 :=
  if 0x30 ≤ c ∧ c ≤ 0x39 then some (c - 0x30)
  else if 0x61 ≤ c ∧ c ≤ 0x66 then some (c - 0x61 + 10)
  else if 0x41 ≤ c ∧ c ≤ 0x46 then some (c - 0x41 + 10)
  else none

def pairValue (hi lo : UInt8) : Option UInt8 := do
  let h ← digitValue hi
  let l ← digitValue lo
  pure (h <<< 4 ||| l)

def bytesOf : List UInt8 → Option (List UInt8)
  | [] => some []
  | hi :: lo :: rest => do
    let b ← pairValue hi lo
    let bs ← bytesOf rest
    pure (b :: bs)
  | [_] => none

theorem ascii_length (s : String) : (ascii s).length = s.toList.length := List.length_map _

theorem hexOf_length (bs : List UInt8) : (hexOf bs).length = 2 * bs.length := by
  induction bs with
  | nil => rfl
  | cons b bs ih =>
    simp only [hexOf,List.flatMap_cons,List.length_append,List.length_cons] at ih ⊢
    rw [ih]
    simp [hex2]
    omega

theorem hex8_length (n : UInt32) : (hex8 n).length = 8 := hexOf_length _

theorem bytesOf_length {ds bs : List UInt8} (h : bytesOf ds = some bs) :
    ds.length = 2 * bs.length := by
  induction ds using bytesOf.induct generalizing bs with
  | case1 => cases h; rfl
  | case2 hi lo rest ih =>
    simp only [bytesOf,bind,Option.bind_eq_some_iff] at h
    obtain ⟨b,_,bs',hbs,hlast⟩ := h
    cases hlast
    simp [ih hbs]; omega
  | case3 c => simp [bytesOf] at h

theorem digitValue_ne {c v x : UInt8} (h : digitValue c = some v) (hx : digitValue x = none) :
    c ≠ x := by
  rintro rfl
  rw [hx] at h
  cases h

theorem digitValue_ne_space {c v : UInt8} (h : digitValue c = some v) : c ≠ 0x20 :=
  digitValue_ne h (by decide)

theorem digitValue_lt {c v : UInt8} (h : digitValue c = some v) : v.toNat < 16 := by
  simp only [digitValue,UInt8.le_iff_toNat_le] at h
  split_ifs at h with h1 h2 h3 <;> cases h
  · rw [UInt8.toNat_sub_of_le _ _ (UInt8.le_iff_toNat_le.2 h1.1)]
    simp at h1 ⊢
    omega
  · rw [UInt8.toNat_add,UInt8.toNat_sub_of_le _ _ (UInt8.le_iff_toNat_le.2 h2.1)]
    simp at h2 ⊢
    omega
  · rw [UInt8.toNat_add,UInt8.toNat_sub_of_le _ _ (UInt8.le_iff_toNat_le.2 h3.1)]
    simp at h3 ⊢
    omega

theorem pairValue_toNat {a b v : UInt8} (h : pairValue a b = some v) :
    ∃ hi lo, digitValue a = some hi ∧ digitValue b = some lo ∧ v.toNat = 16 * hi.toNat + lo.toNat := by
  simp only [pairValue,bind,Option.bind_eq_some_iff] at h
  obtain ⟨hi,hhi,lo,hlo,hv⟩ := h
  cases hv
  refine ⟨hi,lo,hhi,hlo,?_⟩
  have h1 := digitValue_lt hhi
  have h2 := digitValue_lt hlo
  rw [UInt8.toNat_or,UInt8.toNat_shiftLeft]
  have hshift : hi.toNat <<< ((4 : UInt8).toNat % 8) % 2 ^ 8 = hi.toNat <<< 4 := by
    show hi.toNat <<< 4 % 256 = hi.toNat <<< 4
    rw [Nat.shiftLeft_eq]
    omega
  rw [hshift,← Nat.shiftLeft_add_eq_or_of_lt h2,Nat.shiftLeft_eq]
  omega

theorem bytesOf_digits {ds bs : List UInt8} (h : bytesOf ds = some bs) :
    ∀ d ∈ ds, ∃ v, digitValue d = some v := by
  induction ds using bytesOf.induct generalizing bs with
  | case1 => simp
  | case2 hi lo rest ih =>
    simp only [bytesOf,bind,Option.bind_eq_some_iff] at h
    obtain ⟨b,hb,bs',hbs,-⟩ := h
    obtain ⟨x,y,hx,hy,-⟩ := pairValue_toNat hb
    simpa using ⟨⟨x,hx⟩,⟨y,hy⟩,ih hbs⟩
  | case3 c => simp [bytesOf] at h

def upper (c : UInt8) : UInt8 := if 0x61 ≤ c then c - 0x20 else c

theorem digit_upper {c v : UInt8} (h : digitValue c = some v) : digit v = upper c := by
  have hall : ∀ n : Fin 256, (digitValue (UInt8.ofFin n)).all fun v =>
      digit v = upper (UInt8.ofFin n) := by decide +kernel
  have hc := hall c.toFin
  rw [UInt8.ofFin_toFin,h] at hc
  simpa using hc

theorem hex2_pair {a b v : UInt8} (h : pairValue a b = some v) : hex2 v = [upper a,upper b] := by
  obtain ⟨hi,lo,hhi,hlo,hv⟩ := pairValue_toNat h
  have h1 := digitValue_lt hhi
  have h2 := digitValue_lt hlo
  have hhigh : v >>> 4 = hi := by
    apply UInt8.toNat_inj.1
    rw [UInt8.toNat_shiftRight,hv,Nat.shiftRight_eq_div_pow]
    simp
    omega
  have hlow : v &&& 0x0f = lo := by
    apply UInt8.toNat_inj.1
    rw [UInt8.toNat_and,hv]
    have hmask := Nat.and_two_pow_sub_one_eq_mod (16 * hi.toNat + lo.toNat) 4
    simp at hmask ⊢
    omega
  rw [hex2,hhigh,hlow,digit_upper hhi,digit_upper hlo]

theorem hexOf_written {ds bs : List UInt8} (h : bytesOf ds = some bs) : hexOf bs = ds.map upper := by
  induction ds using bytesOf.induct generalizing bs with
  | case1 =>
    cases h
    rfl
  | case2 hi lo rest ih =>
    simp only [bytesOf,bind,Option.bind_eq_some_iff] at h
    obtain ⟨b,hb,bs',hbs,hlast⟩ := h
    cases hlast
    have hrest := ih hbs
    simp only [hexOf,List.flatMap_cons,hex2_pair hb,List.map_cons,List.cons_append,List.nil_append] at hrest ⊢
    rw [hrest]
  | case3 c => simp [bytesOf] at h

end HexText
