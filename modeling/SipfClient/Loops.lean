import SipfClient.Memory
set_option autoImplicit false

/-!
An unbounded loop `for (;;) body` with an iteration budget. A body either goes
round again with a new state or leaves the loop with a result. The rules below
carry an invariant to the result and turn a decreasing measure into termination.
-/

namespace Loops

variable {σ ρ : Type}

def loop (body : σ → σ ⊕ ρ) : Nat → σ → Option ρ
  | 0, _ => none
  | n + 1, s =>
    match body s with
    | .inl s' => loop body n s'
    | .inr r => some r

theorem loop_next {body : σ → σ ⊕ ρ} {n : Nat} {s s' : σ} (h : body s = .inl s') :
    loop body (n + 1) s = loop body n s' := by
  simp [loop,h]

theorem loop_exit {body : σ → σ ⊕ ρ} {n : Nat} {s : σ} {r : ρ} (h : body s = .inr r) :
    loop body (n + 1) s = some r := by
  simp [loop,h]

theorem loop_inv {body : σ → σ ⊕ ρ} (Inv : σ → Prop) (Post : ρ → Prop)
    (hstep : ∀ s s', Inv s → body s = .inl s' → Inv s')
    (hexit : ∀ s r, Inv s → body s = .inr r → Post r)
    {n : Nat} {s : σ} {r : ρ} (hs : Inv s) (h : loop body n s = some r) : Post r := by
  induction n generalizing s with
  | zero => simp [loop] at h
  | succ n ih =>
    cases hb : body s with
    | inl s' =>
      rw [loop_next hb] at h
      exact ih (hstep s s' hs hb) h
    | inr r' =>
      rw [loop_exit hb] at h
      cases h
      exact hexit s r hs hb

theorem loop_total {body : σ → σ ⊕ ρ} (Inv : σ → Prop) (μ : σ → Nat)
    (hstep : ∀ s s', Inv s → body s = .inl s' → Inv s' ∧ μ s' < μ s)
    {n : Nat} {s : σ} (hs : Inv s) (hn : μ s < n) : ∃ r, loop body n s = some r := by
  induction n generalizing s with
  | zero => omega
  | succ n ih =>
    cases hb : body s with
    | inl s' =>
      obtain ⟨hi, hm⟩ := hstep s s' hs hb
      rw [loop_next hb]
      exact ih hi (by omega)
    | inr r => exact ⟨r, loop_exit hb⟩

theorem loop_mono {body : σ → σ ⊕ ρ} {n m : Nat} {s : σ} {r : ρ}
    (h : loop body n s = some r) (hm : n ≤ m) : loop body m s = some r := by
  induction n generalizing s m with
  | zero => simp [loop] at h
  | succ n ih =>
    obtain ⟨k, rfl⟩ : ∃ k, m = k + 1 := ⟨m - 1, by omega⟩
    cases hb : body s with
    | inl s' =>
      rw [loop_next hb] at h ⊢
      exact ih h (by omega)
    | inr r' =>
      rw [loop_exit hb] at h ⊢
      exact h

inductive Rounds (body : σ → σ ⊕ ρ) : Nat → σ → σ → Prop
  | refl (s : σ) : Rounds body 0 s s
  | next {n : Nat} {s s' s'' : σ} (h : body s = .inl s') (hs : Rounds body n s' s'') :
      Rounds body (n + 1) s s''

theorem Rounds.trans {body : σ → σ ⊕ ρ} {n m : Nat} {s s' s'' : σ} (h : Rounds body n s s')
    (h' : Rounds body m s' s'') : Rounds body (n + m) s s'' := by
  induction h with
  | refl s => simpa using h'
  | @next n s s1 s2 hb _ ih =>
    have hn : n + 1 + m = (n + m) + 1 := by omega
    rw [hn]
    exact .next hb (ih h')

theorem Rounds.split {body : σ → σ ⊕ ρ} {n m : Nat} {s s'' : σ} (h : Rounds body (n + m) s s'') :
    ∃ s', Rounds body n s s' ∧ Rounds body m s' s'' := by
  induction n generalizing s with
  | zero => exact ⟨s,.refl s,by simpa using h⟩
  | succ n ih =>
    have hn : n + 1 + m = (n + m) + 1 := by omega
    rw [hn] at h
    cases h with
    | next hb hs =>
      obtain ⟨s',hs1,hs2⟩ := ih hs
      exact ⟨s',.next hb hs1,hs2⟩

theorem Rounds.append {body : σ → σ ⊕ ρ} {n m : Nat} {s s' : σ} {r : ρ} (h : Rounds body n s s')
    (hr : loop body m s' = some r) : loop body (n + m) s = some r := by
  induction h with
  | refl s => simpa using hr
  | @next n s s1 s2 hb _ ih =>
    have hn : n + 1 + m = (n + m) + 1 := by omega
    rw [hn,loop_next hb,ih hr]

theorem Rounds.exit {body : σ → σ ⊕ ρ} {n : Nat} {s s' : σ} {r : ρ} (h : Rounds body n s s')
    (hr : body s' = .inr r) : loop body (n + 1) s = some r :=
  h.append (loop_exit hr)

theorem loop_unique {body : σ → σ ⊕ ρ} {n m : Nat} {s : σ} {r r' : ρ}
    (h : loop body n s = some r) (h' : loop body m s = some r') : r = r' := by
  rcases Nat.le_total n m with hle | hle
  · rw [loop_mono h hle] at h'
    exact Option.some_inj.1 h'
  · rw [loop_mono h' hle] at h
    exact (Option.some_inj.1 h).symm

end Loops
