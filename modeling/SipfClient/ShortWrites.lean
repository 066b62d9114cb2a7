import Mathlib
set_option autoImplicit false

/-!
Pieces of `k` elements are written one after the other, and of each of them the
writer gets a prefix of its own length. When what has been written is a prefix of
all the pieces, whatever they hold.
-/

namespace ShortWrites

variable {α : Type} {k : Nat}

def written (ts : List Nat) (ds : List (List α)) : List α := (List.zipWith List.take ts ds).flatten

@[simp] theorem written_nil (ds : List (List α)) : written [] ds = [] := rfl

@[simp] theorem written_cons (t : Nat) (ts : List Nat) (d : List α) (ds : List (List α)) :
    written (t :: ts) (d :: ds) = d.take t ++ written ts ds := rfl

/-- Nothing is written behind a piece that was cut short. -/
def Gapless (k : Nat) (ts : List Nat) : Prop := ts.Pairwise fun a b => a < k → b = 0

instance (k : Nat) (ts : List Nat) : Decidable (Gapless k ts) :=
  inferInstanceAs (Decidable (ts.Pairwise _))

structure Pieces (k n : Nat) (ds : List (List α)) : Prop where
  count : ds.length = n
  size : ∀ d ∈ ds, d.length = k

theorem Pieces.cons {n : Nat} {d : List α} {ds : List (List α)} (hd : d.length = k)
    (h : Pieces k n ds) : Pieces k (n + 1) (d :: ds) :=
  ⟨by simp [h.count],by simpa [hd] using h.size⟩

theorem Pieces.head {n : Nat} {d : List α} {ds : List (List α)} (h : Pieces k (n + 1) (d :: ds)) :
    d.length = k ∧ Pieces k n ds :=
  ⟨h.size d (by simp),by simpa using h.count,fun x hx => h.size x (by simp [hx])⟩

theorem pieces_replicate (k n : Nat) (a : α) :
    Pieces k n (List.replicate n (List.replicate k a)) :=
  ⟨by simp,fun d hd => by rw [List.eq_of_mem_replicate hd]; simp⟩

theorem written_length {ts : List Nat} {ds : List (List α)} (hts : ∀ t ∈ ts, t ≤ k)
    (hds : Pieces k ts.length ds) : (written ts ds).length = ts.sum := by
  induction ts generalizing ds with
  | nil => rfl
  | cons t ts ih =>
    cases ds with
    | nil => exact absurd hds.count (by simp)
    | cons d ds =>
      obtain ⟨hd,hds⟩ := hds.head
      have ht := hts t (by simp)
      rw [written_cons,List.length_append,ih (fun x hx => hts x (by simp [hx])) hds]
      simp
      omega

theorem written_zeros {ts : List Nat} (ds : List (List α)) (h : ∀ t ∈ ts, t = 0) :
    written ts ds = [] := by
  induction ts generalizing ds with
  | nil => rfl
  | cons t ts ih =>
    cases ds with
    | nil => rfl
    | cons d ds =>
      rw [written_cons,h t (by simp),ih ds fun x hx => h x (by simp [hx])]
      rfl

theorem written_replicate (ts : List Nat) (a : α) (n : Nat) :
    ∀ x ∈ written ts (List.replicate n (List.replicate k a)), x = a := by
  induction ts generalizing n with
  | nil => simp
  | cons t ts ih =>
    cases n with
    | zero => simp [written]
    | succ n =>
      intro x hx
      rw [List.replicate_succ,written_cons,List.mem_append] at hx
      rcases hx with hx | hx
      · exact List.eq_of_mem_replicate (List.mem_of_mem_take hx)
      · exact ih n x hx

theorem written_gapless {ts : List Nat} {ds : List (List α)} (hts : ∀ t ∈ ts, t ≤ k)
    (hds : Pieces k ts.length ds) (h : Gapless k ts) :
    written ts ds = ds.flatten.take ts.sum := by
  induction ts generalizing ds with
  | nil => simp
  | cons t ts ih =>
    cases ds with
    | nil => exact absurd hds.count (by simp)
    | cons d ds =>
      obtain ⟨hd,hds⟩ := hds.head
      obtain ⟨hzero,h⟩ := List.pairwise_cons.1 h
      rw [written_cons,List.flatten_cons,List.sum_cons]
      rcases Nat.lt_or_ge t k with ht | ht
      · -- the piece is cut short: nothing follows
        have hz : ∀ b ∈ ts, b = 0 := fun b hb => hzero b hb ht
        have hs : ts.sum = 0 := List.sum_eq_zero hz
        rw [written_zeros ds hz,hs,List.append_nil,Nat.add_zero,List.take_append_of_le_length (by omega)]
      · have htk : t = d.length := by have := hts t (by simp); omega
        rw [ih (fun x hx => hts x (by simp [hx])) hds h,htk,List.take_length,List.take_length_add_append]

theorem gapless_of_written [Nontrivial α] {ts : List Nat} (hts : ∀ t ∈ ts, t ≤ k)
    (h : ∀ ds : List (List α), Pieces k ts.length ds → written ts ds = ds.flatten.take ts.sum) :
    Gapless k ts := by
  induction ts with
  | nil => exact List.Pairwise.nil
  | cons t ts ih =>
    obtain ⟨a,b,hab⟩ := exists_pair_ne α
    rcases Nat.lt_or_ge t k with ht | ht
    · -- a piece that differs from the others only where it is cut off
      have hs : ts.sum = 0 := by
        by_contra hs
        let d := List.replicate t a ++ b :: List.replicate (k - t - 1) a
        have hd : d.length = k := by simp [d]; omega
        have he := h (d :: List.replicate ts.length (List.replicate k a))
          ((pieces_replicate k ts.length a).cons hd)
        rw [written_cons,List.flatten_cons,List.sum_cons] at he
        have hb : b ∈ d.take (t + ts.sum) := by
          obtain ⟨m,hm⟩ : ∃ m, t + ts.sum = t + (m + 1) := ⟨ts.sum - 1, by omega⟩
          simp [d,hm,List.take_append]
        have hmem : b ∈ d.take t ++ written ts (List.replicate ts.length (List.replicate k a)) := by
          rw [he,List.take_append]
          exact List.mem_append_left _ hb
        rcases List.mem_append.1 hmem with hx | hx
        · have hta : d.take t = List.replicate t a := by simp [d]
          rw [hta] at hx
          exact hab (List.eq_of_mem_replicate hx).symm
        · exact hab (written_replicate ts a _ b hx).symm
      have hz : ∀ x ∈ ts, x = 0 := List.sum_eq_zero_iff.1 hs
      refine List.pairwise_cons.2 ⟨fun x hx _ => hz x hx,?_⟩
      exact List.pairwise_of_forall_mem_list fun x _ y hy _ => hz y hy
    · refine List.pairwise_cons.2 ⟨fun x _ hlt => absurd hlt (by omega),ih ?_ ?_⟩
      · exact fun x hx => hts x (by simp [hx])
      · intro ds hds
        have htk : t = k := by have := hts t (by simp); omega
        have he := h (List.replicate k a :: ds) (hds.cons (by simp))
        have hlen : (List.replicate k a).length = t := by simp [htk]
        rw [written_cons,List.flatten_cons,List.sum_cons,← hlen,List.take_length,
          List.take_length_add_append] at he
        exact List.append_cancel_left he

/-- What is written of every choice of pieces is the first `n` elements of them exactly
if `n` elements are written and without a gap. -/
theorem written_exact_iff [Nontrivial α] {ts : List Nat} {n : Nat} (hts : ∀ t ∈ ts, t ≤ k)
    (hn : n ≤ ts.sum) :
    (∀ ds : List (List α), Pieces k ts.length ds → written ts ds = ds.flatten.take n) ↔
      ts.sum = n ∧ Gapless k ts := by
  constructor
  · intro h
    have hsum : ts.sum = n := by
      obtain ⟨a,_,_⟩ := exists_pair_ne α
      have he := congrArg List.length (h _ (pieces_replicate k ts.length a))
      rw [written_length hts (pieces_replicate k ts.length a),List.length_take] at he
      omega
    exact ⟨hsum,gapless_of_written hts (hsum ▸ h)⟩
  · rintro ⟨rfl,hg⟩ ds hds
    exact written_gapless hts hds hg

end ShortWrites
