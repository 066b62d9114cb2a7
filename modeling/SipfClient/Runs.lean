import Mathlib.Logic.Basic
set_option autoImplicit false

/-!
Runs of a system of several parties: at each step one of them moves, and a move that is
not possible has no successor. What each move keeps holds after every run, and a record
whose entries are justified by what stands before them stays so as it grows.
-/

namespace Runs

variable {σ α ρ : Type}

def run (step : σ → α → Option σ) : σ → List α → Option σ
  | s, [] => some s
  | s, a :: moves => (step s a).bind fun s' => run step s' moves

theorem run_append (step : σ → α → Option σ) (s : σ) (moves moves' : List α) :
    run step s (moves ++ moves') = (run step s moves).bind fun s' => run step s' moves' := by
  induction moves generalizing s with
  | nil => rfl
  | cons a moves ih =>
    rw [List.cons_append,run,run,Option.bind_assoc]
    exact congrArg _ (funext ih)

theorem run_trans {step : σ → α → Option σ} {s s' s'' : σ} {moves moves' : List α}
    (h : run step s moves = some s') (h' : run step s' moves' = some s'') :
    run step s (moves ++ moves') = some s'' := by
  rw [run_append,h]
  exact h'

theorem run_single {step : σ → α → Option σ} {s s' : σ} {a : α} (h : step s a = some s') :
    run step s [a] = some s' := by
  simp [run,h]

/-- What every move that is allowed keeps holds after a run of such moves. -/
theorem run_inv_of {step : σ → α → Option σ} (Inv : σ → Prop) (allowed : α → Prop)
    (hstep : ∀ s a s', Inv s → allowed a → step s a = some s' → Inv s') {s s' : σ} (hs : Inv s)
    {moves : List α} (hall : ∀ a ∈ moves, allowed a) (h : run step s moves = some s') : Inv s' := by
  induction moves generalizing s with
  | nil =>
    cases h
    exact hs
  | cons a moves ih =>
    obtain ⟨next,hnext,hrest⟩ := Option.bind_eq_some_iff.1 h
    exact ih (hstep s a next hs (hall a List.mem_cons_self) hnext)
      (fun b hb => hall b (List.mem_cons_of_mem a hb)) hrest

theorem run_inv {step : σ → α → Option σ} (Inv : σ → Prop)
    (hstep : ∀ s a s', Inv s → step s a = some s' → Inv s') {s s' : σ} (hs : Inv s)
    {moves : List α} (h : run step s moves = some s') : Inv s' :=
  run_inv_of Inv (fun _ => True) (fun s a next hinv _ => hstep s a next hinv) hs
    (fun _ _ => trivial) h

/-- Where costly moves use up a measure that no move adds to, it bounds their number. -/
theorem run_spends {step : σ → α → Option σ} (Inv : σ → Prop) (allowed : α → Prop) (costly : α → Bool)
    (μ : σ → Nat)
    (hstep : ∀ s a s', Inv s → allowed a → step s a = some s' →
      Inv s' ∧ μ s' + (if costly a then 1 else 0) ≤ μ s)
    {s s' : σ} (hs : Inv s) {moves : List α} (hall : ∀ a ∈ moves, allowed a)
    (h : run step s moves = some s') : moves.countP costly + μ s' ≤ μ s := by
  induction moves generalizing s with
  | nil =>
    cases h
    simp
  | cons a moves ih =>
    obtain ⟨next,hnext,hrest⟩ := Option.bind_eq_some_iff.1 h
    obtain ⟨hinv,hle⟩ := hstep s a next hs (hall a List.mem_cons_self) hnext
    have hmoves := ih hinv (fun b hb => hall b (List.mem_cons_of_mem a hb)) hrest
    rw [List.countP_cons]
    omega

def Justified (P : List ρ → ρ → Prop) (log : List ρ) : Prop :=
  ∀ before x after, log = before ++ x :: after → P before x

theorem justified_nil (P : List ρ → ρ → Prop) : Justified P [] := by
  intro before x after h
  simp at h

theorem justified_snoc {P : List ρ → ρ → Prop} {log : List ρ} (h : Justified P log) {x : ρ}
    (hx : P log x) : Justified P (log ++ [x]) := by
  intro before y after hsplit
  rcases List.eq_nil_or_concat after with rfl | ⟨after',z,rfl⟩
  · obtain ⟨rfl,hlast⟩ := List.append_inj' hsplit rfl
    cases hlast
    exact hx
  · rw [List.concat_eq_append,← List.cons_append,← List.append_assoc] at hsplit
    obtain ⟨hlog,-⟩ := List.append_inj' hsplit rfl
    exact h before y after' hlog

theorem justified_append {P : List ρ → ρ → Prop} {log more : List ρ} (h : Justified P log)
    (hmore : Justified (fun before => P (log ++ before)) more) : Justified P (log ++ more) := by
  intro before x after hsplit
  rcases List.append_eq_append_iff.1 hsplit with ⟨front,rfl,hrest⟩ | ⟨back,hlog,hrest⟩
  · exact hmore front x after hrest
  · cases back with
    | nil =>
      rw [List.append_nil] at hlog
      subst hlog
      simpa using hmore [] x after hrest.symm
    | cons y back =>
      obtain ⟨rfl,-⟩ := List.cons.inj hrest
      exact h before x back hlog

end Runs
