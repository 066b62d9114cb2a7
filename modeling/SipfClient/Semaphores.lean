import SipfClient.Runs
import Mathlib.Data.List.Induction
set_option autoImplicit false

/-!
A binary semaphore and the history of what was done to it. It counts 1 exactly behind a
`give`, so every `take` has a `give` of its own, the last operation in front of it.
-/

namespace Semaphores
open Runs

inductive SemOp
  | give
  | take
  deriving DecidableEq, Repr

/-- A `give` beyond the limit is lost. -/
def giveSem (limit n : Nat) : Nat := min (n + 1) limit

def takeSem : Nat → Option Nat
  | 0 => none
  | n + 1 => some n

def gives (ops : List SemOp) : Nat := ops.countP fun op => op = .give

def takes (ops : List SemOp) : Nat := ops.countP fun op => op = .take

@[simp] theorem gives_append (ops ops' : List SemOp) : gives (ops ++ ops') = gives ops + gives ops' :=
  List.countP_append

@[simp] theorem takes_append (ops ops' : List SemOp) : takes (ops ++ ops') = takes ops + takes ops' :=
  List.countP_append

/-- Each `take` stands right behind a `give`. -/
def Backed (ops : List SemOp) : Prop :=
  Justified (fun before op => op = .take → before.getLast? = some .give) ops

structure Counts (ops : List SemOp) (n : Nat) : Prop where
  backed : Backed ops
  count : n = if ops.getLast? = some .give then 1 else 0

theorem counts_nil : Counts [] 0 := ⟨justified_nil _,rfl⟩

theorem Counts.give {ops : List SemOp} {n : Nat} (h : Counts ops n) :
    Counts (ops ++ [.give]) (giveSem 1 n) := by
  refine ⟨justified_snoc h.backed (by simp),?_⟩
  simp [giveSem]

theorem Counts.take {ops : List SemOp} {n n' : Nat} (h : Counts ops n) (ht : takeSem n = some n') :
    ops.getLast? = some .give ∧ Counts (ops ++ [.take]) n' := by
  obtain ⟨hb,hn⟩ := h
  have hlast : ops.getLast? = some .give := by
    by_contra hne
    rw [if_neg hne] at hn
    subst hn
    cases ht
  rw [if_pos hlast] at hn
  subst hn
  cases ht
  exact ⟨hlast,justified_snoc hb fun _ => hlast,by simp⟩

theorem Counts.unsignalled {ops : List SemOp} (h : Counts ops 0) (ht : takes ops = 0) :
    gives ops = 0 := by
  rcases List.eq_nil_or_concat ops with rfl | ⟨front,op,rfl⟩
  · rfl
  · rw [List.concat_eq_append] at h ht
    cases op with
    | give =>
      have hone := h.count
      simp at hone
    | take =>
      rw [takes_append] at ht
      simp [takes] at ht

theorem Backed.init {ops : List SemOp} {op : SemOp} (h : Backed (ops ++ [op])) : Backed ops := by
  intro before x after hsplit
  exact h before x (after ++ [op]) (by rw [hsplit]; simp)

/-- One `give` more than takes, where it is still to be taken. -/
theorem Backed.balance {ops : List SemOp} (h : Backed ops) :
    takes ops + (if ops.getLast? = some .give then 1 else 0) ≤ gives ops := by
  induction ops using List.reverseRecOn with
  | nil => simp [takes,gives]
  | append_singleton ops op ih =>
    have hle := ih h.init
    cases op with
    | give =>
      simp only [gives_append,takes_append,List.getLast?_concat,if_true]
      simp only [takes,gives,List.countP_singleton,decide_true,if_true,reduceCtorEq,decide_false,
        Bool.false_eq_true,if_false] at hle ⊢
      omega
    | take =>
      have hlast : ops.getLast? = some .give := h ops .take [] rfl rfl
      rw [if_pos hlast] at hle
      simp only [gives_append,takes_append,List.getLast?_concat]
      simp only [takes,gives,List.countP_singleton,decide_true,if_true,reduceCtorEq,decide_false,
        Bool.false_eq_true,if_false,Option.some.injEq] at hle ⊢
      omega

theorem Backed.takes_le {ops : List SemOp} (h : Backed ops) : takes ops ≤ gives ops :=
  Nat.le_trans (Nat.le_add_right _ _) h.balance

theorem Backed.fresh {ops more : List SemOp} (h : Backed ops) (hbal : gives ops ≤ takes ops)
    (hlast : (ops ++ more).getLast? = some .give) : 1 ≤ gives more := by
  rcases List.eq_nil_or_concat more with rfl | ⟨more,op,rfl⟩
  · rw [List.append_nil] at hlast
    have hle := h.balance
    rw [if_pos hlast] at hle
    omega
  · rw [List.concat_eq_append,← List.append_assoc,List.getLast?_concat] at hlast
    obtain rfl : op = .give := Option.some_inj.1 hlast
    rw [List.concat_eq_append,gives_append]
    simp [gives]

end Semaphores
