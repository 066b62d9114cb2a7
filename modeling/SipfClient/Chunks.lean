import Mathlib
set_option autoImplicit false

/-!
A list cut into pieces of `k` elements, the last one shorter where the length is
not a multiple of `k`.
-/

namespace Chunks

variable {α : Type}

def chunks (k : Nat) (l : List α) : List (List α) :=
  (List.range ((l.length + k - 1) / k)).map fun i => (l.drop (k * i)).take k

theorem chunks_nil {k : Nat} (hk : 0 < k) : chunks k ([] : List α) = [] := by
  have h : (([] : List α).length + k - 1) / k = 0 := by
    rw [List.length_nil,Nat.zero_add]
    exact Nat.div_eq_of_lt (by omega)
  simp only [chunks,h,List.range_zero,List.map_nil]

theorem chunks_cons {k : Nat} (hk : 0 < k) {l : List α} (hl : l ≠ []) :
    chunks k l = l.take k :: chunks k (l.drop k) := by
  have hpos := List.length_pos_iff.2 hl
  have hcount : (l.length + k - 1) / k = ((l.drop k).length + k - 1) / k + 1 := by
    rw [List.length_drop]
    by_cases hle : k ≤ l.length
    · rw [show l.length + k - 1 = (l.length - k + k - 1) + k by omega,Nat.add_div_right _ hk]
    · have h1 : (l.length + k - 1) / k = 1 := by
        rw [show l.length + k - 1 = (l.length - 1) + k by omega,Nat.add_div_right _ hk,
          Nat.div_eq_of_lt (by omega)]
      have h2 : (l.length - k + k - 1) / k = 0 := Nat.div_eq_of_lt (by omega)
      rw [h1,h2]
  simp only [chunks,hcount,List.range_succ_eq_map,List.map_cons,List.map_map,Nat.mul_zero,
    List.drop_zero,List.drop_drop]
  congr 1
  apply List.map_congr_left
  intro i _
  simp [Nat.mul_succ,Nat.add_comm]

/-- Only a last part may have a length that is no multiple of `k`. -/
theorem chunks_append {k : Nat} (hk : 0 < k) (l r : List α) (hl : k ∣ l.length) :
    chunks k (l ++ r) = chunks k l ++ chunks k r := by
  obtain ⟨n,hn⟩ := hl
  induction n generalizing l with
  | zero =>
    obtain rfl := List.length_eq_zero_iff.1 (by simpa using hn)
    simp [chunks_nil hk]
  | succ n ih =>
    have hlen : k ≤ l.length := by rw [hn,Nat.mul_succ]; omega
    have hne : l ≠ [] := by
      rintro rfl
      simp at hlen
      omega
    rw [chunks_cons hk hne,chunks_cons hk (by simp [hne]),List.take_append_of_le_length hlen,
      List.drop_append_of_le_length hlen,
      ih (l.drop k) (by rw [List.length_drop,hn,Nat.mul_succ]; omega),List.cons_append]

theorem length_of_mem_chunks {k : Nat} {l p : List α} (h : p ∈ chunks k l) : p.length ≤ k := by
  obtain ⟨i,_,rfl⟩ := List.mem_map.1 h
  exact List.length_take_le _ _

end Chunks
