import Mathlib
set_option autoImplicit false

/-!
Byte memory behind a pointer. `m i` is the byte `i` places past the pointer, so
pointer arithmetic is `shift`. Reads are total; a write that must stay inside an
array goes through `store`, which refuses the bytes outside it.
-/

namespace ByteMem

abbrev Mem := Nat → UInt8

/-- A write of `len` bytes at `off` into an array of `size` bytes. -/
structure OutOfBounds where
  off : Nat
  len : Nat
  size : Nat
  deriving DecidableEq, Repr

namespace Mem

def zero : Mem := fun _ => 0

def shift (m : Mem) (k : Nat) : Mem := fun i => m (k + i)

def set (m : Mem) (i : Nat) (b : UInt8) : Mem := fun j => if j = i then b else m j

def ofList (bs : List UInt8) : Mem := fun i => bs.getD i 0

def copy (m : Mem) (off : Nat) (bs : List UInt8) : Mem :=
  fun j => if off ≤ j ∧ j < off + bs.length then bs.getD (j - off) 0 else m j

def read (m : Mem) (off n : Nat) : List UInt8 := (List.range n).map fun i => m (off + i)

def store (size : Nat) (m : Mem) (off : Nat) (bs : List UInt8) : Except OutOfBounds Mem :=
  if off + bs.length ≤ size then .ok (m.copy off bs) else .error ⟨off, bs.length, size⟩

@[simp] theorem shift_apply (m : Mem) (k i : Nat) : m.shift k i = m (k + i) := rfl

@[simp] theorem set_same (m : Mem) (i : Nat) (b : UInt8) : m.set i b i = b := by simp [set]

theorem set_other (m : Mem) {i j : Nat} (b : UInt8) (h : j ≠ i) : m.set i b j = m j := by
  simp [set,h]

theorem ofList_lt (bs : List UInt8) {i : Nat} (h : i < bs.length) : ofList bs i = bs[i] := by
  simp [ofList,h]

theorem ofList_ge (bs : List UInt8) {i : Nat} (h : bs.length ≤ i) : ofList bs i = 0 := by
  simp [ofList,h]

@[simp] theorem read_length (m : Mem) (off n : Nat) : (m.read off n).length = n := by
  simp [read]

@[simp] theorem read_getElem (m : Mem) (off n i : Nat) (h : i < (m.read off n).length) :
    (m.read off n)[i] = m (off + i) := by
  simp [read]

@[simp] theorem read_zero (m : Mem) (off : Nat) : m.read off 0 = [] := rfl

theorem read_congr {m m' : Mem} {off off' n : Nat}
    (h : ∀ i, i < n → m (off + i) = m' (off' + i)) : m.read off n = m'.read off' n := by
  apply List.ext_getElem (by simp)
  intro i hi hi'
  simpa using h i (by simpa using hi)

theorem read_add (m : Mem) (off a b : Nat) :
    m.read off (a + b) = m.read off a ++ m.read (off + a) b := by
  simp [read,List.range_add,Nat.add_assoc,Function.comp_def]

theorem read_succ (m : Mem) (off n : Nat) : m.read off (n + 1) = m off :: m.read (off + 1) n := by
  rw [Nat.add_comm n 1,read_add]
  simp [read]

theorem read_shift (m : Mem) (k off n : Nat) : (m.shift k).read off n = m.read (k + off) n :=
  read_congr fun i _ => by simp [Nat.add_assoc]

theorem read_eq_iff (m : Mem) (off : Nat) (bs : List UInt8) :
    m.read off bs.length = bs ↔ ∀ (i : Nat) (h : i < bs.length), m (off + i) = bs[i] := by
  constructor
  · intro h i hi
    have hg := read_getElem m off bs.length i (by simpa using hi)
    rw [← hg]
    exact List.getElem_of_eq h _
  · intro h
    apply List.ext_getElem (by simp)
    intro i hi hi'
    simpa using h i hi'

theorem read_ofList (bs : List UInt8) : (ofList bs).read 0 bs.length = bs := by
  rw [read_eq_iff]
  intro i hi
  rw [Nat.zero_add,ofList_lt bs hi]

theorem copy_inside (m : Mem) (off : Nat) (bs : List UInt8) {i : Nat} (h : i < bs.length) :
    m.copy off bs (off + i) = bs[i] := by
  simp [copy,h]

theorem copy_before (m : Mem) (off : Nat) (bs : List UInt8) {j : Nat} (h : j < off) :
    m.copy off bs j = m j := by
  simp only [copy]
  rw [if_neg (by omega)]

theorem copy_after (m : Mem) (off : Nat) (bs : List UInt8) {j : Nat} (h : off + bs.length ≤ j) :
    m.copy off bs j = m j := by
  simp only [copy]
  rw [if_neg (by omega)]

@[simp] theorem copy_nil (m : Mem) (off : Nat) : m.copy off [] = m := by
  funext j
  simp only [copy,List.length_nil]
  rw [if_neg (by omega)]

theorem copy_cons (m : Mem) (off : Nat) (b : UInt8) (bs : List UInt8) :
    m.copy off (b :: bs) = (m.copy off [b]).copy (off + 1) bs := by
  funext j
  simp only [copy,List.length_cons,List.length_nil]
  by_cases hj : off + 1 ≤ j ∧ j < off + 1 + bs.length
  · rw [if_pos (by omega),if_pos hj]
    obtain ⟨k,rfl⟩ : ∃ k, j = off + 1 + k := ⟨j - (off + 1), by omega⟩
    have h1 : off + 1 + k - off = k + 1 := by omega
    have h2 : off + 1 + k - (off + 1) = k := by omega
    rw [h1,h2,List.getD_cons_succ]
  · rw [if_neg hj]
    by_cases he : j = off
    · subst he
      simp
    · rw [if_neg (by omega),if_neg (by omega)]

theorem read_copy (m : Mem) (off : Nat) (bs : List UInt8) :
    (m.copy off bs).read off bs.length = bs :=
  (read_eq_iff _ _ _).2 fun _ hi => copy_inside m off bs hi

theorem read_copy_append (m : Mem) (off : Nat) (bs : List UInt8) :
    (m.copy off bs).read 0 (off + bs.length) = m.read 0 off ++ bs := by
  rw [read_add,Nat.zero_add,read_copy]
  congr 1
  exact read_congr fun i hi => copy_before m off bs (by omega)

theorem store_ok {size off : Nat} {m : Mem} {bs : List UInt8} (h : off + bs.length ≤ size) :
    store size m off bs = .ok (m.copy off bs) := by
  simp [store,h]

theorem store_eq_ok {size off : Nat} {m m' : Mem} {bs : List UInt8}
    (h : store size m off bs = .ok m') : off + bs.length ≤ size ∧ m' = m.copy off bs := by
  simp only [store] at h
  split_ifs at h with hfit
  cases h
  exact ⟨hfit,rfl⟩

theorem store_eq_error {size off : Nat} {m : Mem} {bs : List UInt8} {e : OutOfBounds}
    (h : store size m off bs = .error e) : size < off + bs.length ∧ e = ⟨off, bs.length, size⟩ := by
  simp only [store] at h
  split_ifs at h with hfit
  cases h
  exact ⟨Nat.lt_of_not_le hfit,rfl⟩

theorem store_error {size off : Nat} {m : Mem} {bs : List UInt8} (h : size < off + bs.length) :
    store size m off bs = .error ⟨off, bs.length, size⟩ := by
  simp only [store]
  rw [if_neg (by omega)]

end Mem

theorem ofInt_toNat (b : UInt8) : UInt8.ofInt b.toNat = b := by
  have h := b.toNat_lt
  apply UInt8.toNat_inj.1
  simp only [UInt8.ofInt,UInt8.toNat_ofNat']
  omega

end ByteMem
