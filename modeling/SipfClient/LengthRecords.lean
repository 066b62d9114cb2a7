import SipfClient.Memory
set_option autoImplicit false

/-!
Concatenated records `kind, tag, length, value` with a one-byte length. The value
of a record is short enough for its length byte by construction, so the bytes of
a list of records determine the list and the offset of every record in it.
-/

namespace LengthRecords
open ByteMem

structure Record where
  kind : UInt8
  tag : UInt8
  value : List UInt8
  short : value.length < 256
  deriving DecidableEq, Repr

def Record.len (r : Record) : UInt8 := UInt8.ofNat r.value.length

def Record.bytes (r : Record) : List UInt8 := r.kind :: r.tag :: r.len :: r.value

def Record.size (r : Record) : Nat := 3 + r.value.length

@[simp] theorem Record.len_toNat (r : Record) : r.len.toNat = r.value.length := by
  have h := r.short
  simp [len,Nat.mod_eq_of_lt h]

@[simp] theorem Record.bytes_length (r : Record) : r.bytes.length = r.size := by
  simp [bytes,size]; omega

def encode : List Record → List UInt8
  | [] => []
  | r :: rs => r.bytes ++ encode rs

def totalSize (rs : List Record) : Nat := (rs.map Record.size).sum

@[simp] theorem totalSize_nil : totalSize [] = 0 := rfl

@[simp] theorem totalSize_cons (r : Record) (rs : List Record) :
    totalSize (r :: rs) = r.size + totalSize rs := by simp [totalSize]

theorem encode_length (rs : List Record) : (encode rs).length = totalSize rs := by
  induction rs with
  | nil => rfl
  | cons r rs ih => simp [encode,ih]

def starts : Nat → List Record → List Nat
  | _, [] => []
  | o, r :: rs => o :: starts (o + r.size) rs

@[simp] theorem starts_length (o : Nat) (rs : List Record) : (starts o rs).length = rs.length := by
  induction rs generalizing o with
  | nil => rfl
  | cons r rs ih => simp [starts,ih]

structure At (m : Mem) (o : Nat) (r : Record) : Prop where
  kind : m o = r.kind
  tag : m (o + 1) = r.tag
  len : m (o + 2) = r.len
  value : m.read (o + 3) r.value.length = r.value

theorem at_of_read {m : Mem} {o : Nat} {r : Record} {n : Nat} {rest : List UInt8}
    (h : m.read o n = r.bytes ++ rest) : At m o r := by
  have hn : n = r.size + rest.length := by
    have hl := congrArg List.length h
    simpa using hl
  have hr : m.read o (3 + r.value.length) = r.bytes := by
    rw [hn,Mem.read_add] at h
    exact (List.append_inj h (by simp)).1
  rw [Mem.read_add] at hr
  simp only [Record.bytes,Mem.read_succ,Mem.read_zero,List.cons_append,List.nil_append,
    List.cons.injEq] at hr
  exact ⟨hr.1,hr.2.1,hr.2.2.1,hr.2.2.2⟩

theorem at_starts {m : Mem} {o : Nat} {rs : List Record}
    (h : m.read o (totalSize rs) = encode rs) : List.Forall₂ (At m) (starts o rs) rs := by
  induction rs generalizing o with
  | nil => exact .nil
  | cons r rs ih =>
    rw [totalSize_cons] at h
    refine .cons (at_of_read h) (ih ?_)
    rw [Mem.read_add] at h
    exact (List.append_inj h (by simp)).2

/-- The walk of a reader that steps from each record to the next one: at most
`n` records, ending with the first step that does not stay below `limit`. -/
def walk (next : Nat → Nat) (limit : Nat) : Nat → Nat → List Nat
  | 0, _ => []
  | n + 1, o => o :: if next o < limit then walk next limit n (next o) else []

theorem walk_encode {m : Mem} {next : Nat → Nat} (hnext : ∀ o, next o = o + 3 + (m (o + 2)).toNat)
    {o n : Nat} {rs : List Record} (hne : rs ≠ [])
    (h : m.read o (totalSize rs) = encode rs) :
    walk next (o + totalSize rs) n o = (starts o rs).take n := by
  induction rs generalizing o n with
  | nil => exact absurd rfl hne
  | cons r rs ih =>
    cases n with
    | zero => rfl
    | succ n =>
      have hat := at_starts h
      simp only [starts,List.forall₂_cons] at hat
      have ho : next o = o + r.size := by
        rw [hnext,hat.1.len,Record.len_toNat,Record.size]; omega
      rw [totalSize_cons,Mem.read_add] at h
      have ht := (List.append_inj h (by simp)).2
      simp only [walk,starts,totalSize_cons,ho,List.take_succ_cons,List.cons.injEq,true_and]
      cases rs with
      | nil => simp [starts]
      | cons s ss =>
        have hs : 0 < s.size := by simp [Record.size]
        rw [if_pos (by simp; omega),← Nat.add_assoc]
        exact ih (by simp) ht

theorem walk_shift {next next' : Nat → Nat} {k : Nat} (h : ∀ o, next' (k + o) = k + next o)
    (limit n o : Nat) :
    (walk next limit n o).map (k + ·) = walk next' (k + limit) n (k + o) := by
  induction n generalizing o with
  | zero => rfl
  | succ n ih =>
    simp only [walk,List.map_cons,List.cons.injEq,true_and,h]
    by_cases hlt : next o < limit
    · rw [if_pos hlt,if_pos (by omega),ih]
    · rw [if_neg hlt,if_neg (by omega)]
      rfl

def Consecutive (m : Mem) : Nat → List Nat → Prop
  | _, [] => True
  | o, p :: ps => p = o ∧ Consecutive m (o + 3 + (m (o + 2)).toNat) ps

theorem walk_consecutive {m : Mem} {next : Nat → Nat}
    (hnext : ∀ o, next o = o + 3 + (m (o + 2)).toNat) (limit n o : Nat) :
    Consecutive m o (walk next limit n o) := by
  induction n generalizing o with
  | zero => trivial
  | succ n ih =>
    refine ⟨rfl,?_⟩
    by_cases h : next o < limit
    · rw [if_pos h,← hnext]
      exact ih (next o)
    · rw [if_neg h]
      trivial

theorem starts_inside {m : Mem} {o : Nat} {rs : List Record}
    (h : m.read o (totalSize rs) = encode rs) :
    ∀ p ∈ starts o rs, p + 3 + (m (p + 2)).toNat ≤ o + totalSize rs := by
  induction rs generalizing o with
  | nil => simp [starts]
  | cons r rs ih =>
    have hat := at_starts h
    simp only [starts,List.forall₂_cons] at hat
    rw [totalSize_cons,Mem.read_add] at h
    have ht := ih (List.append_inj h (by simp)).2
    intro p hp
    rw [totalSize_cons]
    simp only [starts,List.mem_cons] at hp
    rcases hp with rfl | hp
    · rw [hat.1.len,Record.len_toNat,Record.size]; omega
    · have hq := ht p hp
      omega

end LengthRecords
