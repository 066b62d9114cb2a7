import Mathlib.Logic.Function.Basic
import Mathlib.Data.List.Induction
set_option autoImplicit false

/-!
A store of values under keys that can be written, read and reset, and the rule that
carries a simulation of it along a sequence of operations. What it holds under a key
is the value of the last write there since the last reset.
-/

namespace Stores

variable {α β σ : Type} [DecidableEq α]

inductive Op (α β : Type)
  | reset
  | write (key : α) (value : β)
  | read (key : α)

def Op.run (init : β) (s : α → β) : Op α β → α → β
  | .reset => fun _ => init
  | .write key value => Function.update s key value
  | .read _ => s

def run (init : β) (s : α → β) (ops : List (Op α β)) : α → β := ops.foldl (Op.run init) s

def lastWrite (init : β) (key : α) : List (Op α β) → β
  | [] => init
  | .reset :: _ => init
  | .write k value :: ops => if k = key then value else lastWrite init key ops
  | .read _ :: ops => lastWrite init key ops

theorem run_snoc (init : β) (s : α → β) (ops : List (Op α β)) (op : Op α β) :
    run init s (ops ++ [op]) = op.run init (run init s ops) := by
  simp [run]

theorem run_lastWrite (init : β) (ops : List (Op α β)) (key : α) :
    run init (fun _ => init) ops key = lastWrite init key ops.reverse := by
  induction ops using List.reverseRecOn with
  | nil => rfl
  | append_singleton ops op ih =>
    rw [run_snoc,List.reverse_concat]
    cases op with
    | reset => rfl
    | write k value =>
      by_cases hk : k = key
      · subst hk
        simp [Op.run,lastWrite]
      · simp [Op.run,lastWrite,hk,Function.update_of_ne (Ne.symm hk),ih]
    | read k => simpa [Op.run,lastWrite] using ih

/-- What each operation keeps between an implementation and the store holds after any
sequence of them. -/
theorem run_simulates {init : β} {step : σ → Op α β → σ} (R : σ → (α → β) → Prop)
    (hstep : ∀ c s op, R c s → R (step c op) (op.run init s)) {c : σ} {s : α → β} (h : R c s)
    (ops : List (Op α β)) : R (ops.foldl step c) (run init s ops) := by
  induction ops generalizing c s with
  | nil => exact h
  | cons op ops ih => exact ih (hstep c s op h)

end Stores
