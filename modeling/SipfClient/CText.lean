import SipfClient.HexText
set_option autoImplicit false

/-!
Text as the C library reads and prints it: strings that end at a NUL, `strtol` in
base 16, and unsigned decimals of a least width.
-/

namespace CText
open ByteMem HexText

/-- The string at `off`, known to end within `n` bytes. -/
def cString (m : Mem) (off n : Nat) : List UInt8 := (m.read off n).takeWhile (· ≠ 0)

def isSpace (c : UInt8) : Bool := c = 0x20 ∨ 0x09 ≤ c ∧ c ≤ 0x0d

def isXdigit (c : UInt8) : Bool := (digitValue c).isSome

def signOf : List UInt8 → Bool × List UInt8
  | [] => (false, [])
  | c :: cs => if c = 0x2d then (true, cs) else if c = 0x2b then (false, cs) else (false, c :: cs)

/-- `0x` counts as a prefix only with a digit behind it. -/
def skipHexPrefix : List UInt8 → List UInt8
  | z :: x :: d :: cs =>
    if z = 0x30 ∧ (x = 0x78 ∨ x = 0x58) ∧ isXdigit d then d :: cs else z :: x :: d :: cs
  | cs => cs

def hexValue (ds : List UInt8) : Nat := ds.foldl (fun n d => 16 * n + ((digitValue d).getD 0).toNat) 0

def clipLong (n : Int) : Int := max (-2 ^ 31) (min n (2 ^ 31 - 1))

/-- The value and what `endptr` points at: the whole text if it holds no number. -/
def strtol16 (s : List UInt8) : Int × List UInt8 :=
  let (neg, digits) := signOf (s.dropWhile isSpace)
  let digits := skipHexPrefix digits
  let read := digits.takeWhile isXdigit
  if read = [] then (0, s)
  else (clipLong (if neg then -hexValue read else hexValue read), digits.dropWhile isXdigit)

def printU (w n : Nat) : List UInt8 :=
  let digits := (Nat.digits 10 n).reverse.map fun d => 0x30 + UInt8.ofNat d
  List.replicate (w - digits.length) 0x30 ++ digits

theorem printU_length {w k n : Nat} (hw : w ≤ k) (hn : n < 10 ^ k) : (printU w n).length ≤ k := by
  have hd : (Nat.digits 10 n).length ≤ k := (Nat.digits_length_le_iff (by decide) n).2 hn
  simp only [printU,List.length_append,List.length_replicate,List.length_map,List.length_reverse]
  omega

theorem isXdigit_value {c : UInt8} : isXdigit c = true ↔ ∃ v, digitValue c = some v :=
  Option.isSome_iff_exists

theorem isXdigit_of {c v : UInt8} (h : digitValue c = some v) : isXdigit c = true :=
  isXdigit_value.2 ⟨v,h⟩

theorem hexValue_lt (digits : List UInt8) : hexValue digits < 16 ^ digits.length := by
  have hgo : ∀ n, digits.foldl (fun n d => 16 * n + ((digitValue d).getD 0).toNat) n <
      (n + 1) * 16 ^ digits.length := by
    induction digits with
    | nil => intro n; simp
    | cons d digits ih =>
      intro n
      have hd : ((digitValue d).getD 0).toNat < 16 := by
        cases hv : digitValue d with
        | none => decide
        | some v => exact digitValue_lt hv
      calc
        _ < (16 * n + ((digitValue d).getD 0).toNat + 1) * 16 ^ digits.length := ih _
        _ ≤ (16 * (n + 1)) * 16 ^ digits.length := Nat.mul_le_mul_right _ (by omega)
        _ = (n + 1) * 16 ^ (digits.length + 1) := by rw [Nat.pow_succ]; ring
  simpa [hexValue] using hgo 0

theorem isSpace_no_digit {c v : UInt8} (h : digitValue c = some v) : isSpace c = false := by
  have hlow : ∀ d : UInt8, d < 0x21 → digitValue d = none := fun d hd => by
    simp only [digitValue,UInt8.le_iff_toNat_le,UInt8.lt_iff_toNat_lt] at hd ⊢
    simp at hd ⊢
    split_ifs <;> first | rfl | omega
  by_contra hs
  simp only [isSpace,Bool.not_eq_false,decide_eq_true_eq] at hs
  have hlt : c < 0x21 := by
    simp only [UInt8.le_iff_toNat_le,UInt8.lt_iff_toNat_lt] at hs ⊢
    rcases hs with rfl | hs
    · decide
    · exact lt_of_le_of_lt hs.2 (by decide)
  rw [hlow c hlt] at h
  cases h

theorem strtol16_pair {a b v : UInt8} (h : pairValue a b = some v) :
    strtol16 [a,b] = ((v.toNat : Int), []) := by
  obtain ⟨hi,lo,ha,hb,hv⟩ := pairValue_toNat h
  have hminus := digitValue_ne ha (x := 0x2d) (by decide)
  have hplus := digitValue_ne ha (x := 0x2b) (by decide)
  have hvalue : hexValue [a,b] = v.toNat := by
    simp only [hexValue,List.foldl_cons,List.foldl_nil,ha,hb,Option.getD_some,hv]
    omega
  have hclip : clipLong v.toNat = v.toNat := by
    have hlt := v.toNat_lt
    simp only [clipLong]
    omega
  simp [strtol16,isSpace_no_digit ha,signOf,hminus,hplus,skipHexPrefix,isXdigit_of ha,isXdigit_of hb,
    hvalue,hclip]

theorem takeWhile_before {α : Type} {p : α → Bool} {c : α} (hc : p c = false) (s t : List α) :
    (s ++ c :: t).takeWhile p = s.takeWhile p := by
  induction s with
  | nil => simp [hc]
  | cons a s ih => simp [List.takeWhile_cons,ih]

theorem takeWhile_ne {x : UInt8} {s : List UInt8} (h : x ∉ s) : s.takeWhile (· ≠ x) = s :=
  List.takeWhile_eq_self_iff.2 fun c hc => by simpa using ne_of_mem_of_not_mem hc h

theorem cString_length_le (m : Mem) (off n : Nat) : (cString m off n).length ≤ n := by
  have hle := (List.takeWhile_sublist (l := m.read off n) fun c => decide (c ≠ 0)).length_le
  rwa [Mem.read_length] at hle

section Strings

variable {m : Mem} {off n : Nat} {s : List UInt8}

theorem cString_eq (hs : ∀ c ∈ s, c ≠ 0) (hread : m.read off s.length = s)
    (hend : m (off + s.length) = 0) (hn : s.length < n) : cString m off n = s := by
  obtain ⟨k,rfl⟩ : ∃ k, n = s.length + (k + 1) := ⟨n - s.length - 1, by omega⟩
  have hall : ∀ c ∈ s, decide (c ≠ 0) = true := fun c hc => by simpa using hs c hc
  rw [cString,Mem.read_add,hread,Mem.read_succ,hend,List.takeWhile_append_of_pos hall]
  simp

theorem cString_nonzero : ∀ c ∈ cString m off n, c ≠ 0 := by
  intro c hc
  simpa using List.mem_takeWhile_imp hc

theorem cString_read : m.read off (cString m off n).length = cString m off n := by
  have hle := cString_length_le m off n
  obtain ⟨k,hk⟩ : ∃ k, n = (cString m off n).length + k :=
    ⟨n - (cString m off n).length, by omega⟩
  have hpre := List.takeWhile_prefix (l := m.read off n) fun c => decide (c ≠ 0)
  rw [List.prefix_iff_eq_take] at hpre
  have htake : (m.read off n).take (cString m off n).length =
      m.read off (cString m off n).length := by
    generalize (cString m off n).length = l at hk
    subst hk
    rw [Mem.read_add,List.take_left' (Mem.read_length _ _ _)]
  rw [← htake]
  exact hpre.symm

theorem cString_end (h : (cString m off n).length < n) : m (off + (cString m off n).length) = 0 := by
  obtain ⟨k,hk⟩ : ∃ k, n = (cString m off n).length + (k + 1) :=
    ⟨n - (cString m off n).length - 1, by omega⟩
  by_contra hne
  have hread : m.read off n = cString m off n ++ m (off + (cString m off n).length) ::
      m.read (off + (cString m off n).length + 1) k := by
    conv_lhs => rw [hk]
    rw [Mem.read_add,cString_read,Mem.read_succ]
  have hall : ∀ c ∈ cString m off n, decide (c ≠ 0) = true := fun c hc => by
    simpa using cString_nonzero c hc
  have hlen := congrArg (fun l => (l.takeWhile fun c => decide (c ≠ 0)).length) hread
  simp only [List.takeWhile_append_of_pos hall,List.length_append] at hlen
  rw [List.takeWhile_cons_of_pos (by simpa using hne)] at hlen
  simp only [cString,List.length_cons] at hlen
  omega

end Strings

example : strtol16 (ascii "0x1G") = (1, ascii "G") := by decide

end CText
