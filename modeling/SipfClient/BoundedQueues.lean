import SipfClient.Runs
set_option autoImplicit false

/-!
Message queues of a bounded length. What was put in is what was taken out followed by
what still waits: the order is kept, and nothing is lost between the two ends.
-/

namespace BoundedQueues

structure Queue (α : Type) (cap : Nat) where
  items : List α
  le : items.length ≤ cap

variable {α : Type} {cap : Nat}

namespace Queue

def empty : Queue α cap := ⟨[], Nat.zero_le cap⟩

def Full (q : Queue α cap) : Prop := q.items.length = cap

instance (q : Queue α cap) : Decidable q.Full := inferInstanceAs (Decidable (q.items.length = cap))

theorem room (q : Queue α cap) (x : α) (h : q.items.length < cap) :
    (q.items ++ [x]).length ≤ cap := by
  rw [List.length_append,List.length_singleton]
  omega

def put (q : Queue α cap) (x : α) : Option (Queue α cap) :=
  if h : q.items.length < cap then some ⟨q.items ++ [x], q.room x h⟩ else none

def get (q : Queue α cap) : Option (α × Queue α cap) :=
  match h : q.items with
  | [] => none
  | x :: rest => some (x, ⟨rest, by have := q.le; simp only [h, List.length_cons] at this; omega⟩)

@[simp] theorem empty_items : (empty : Queue α cap).items = [] := rfl

theorem put_items {q q' : Queue α cap} {x : α} (h : q.put x = some q') :
    q'.items = q.items ++ [x] := by
  unfold put at h
  split at h
  · cases h
    rfl
  · cases h

theorem put_isNone {q : Queue α cap} {x : α} : q.put x = none ↔ q.Full := by
  have hle := q.le
  unfold put Full
  split
  · simp only [reduceCtorEq, false_iff]
    omega
  · simp only [true_iff]
    omega

theorem get_items {q q' : Queue α cap} {x : α} (h : q.get = some (x, q')) :
    q.items = x :: q'.items := by
  unfold get at h
  split at h
  · cases h
  · rename_i y rest hq
    cases h
    exact hq

theorem get_isNone {q : Queue α cap} : q.get = none ↔ q.items = [] := by
  unfold get
  split <;> simp [*]

theorem get_cons {q : Queue α cap} {x : α} {rest : List α} (h : q.items = x :: rest) :
    ∃ q', q.get = some (x, q') ∧ q'.items = rest := by
  cases hg : q.get with
  | none =>
    rw [get_isNone.1 hg] at h
    cases h
  | some r =>
    obtain ⟨y,q'⟩ := r
    have hq := get_items hg
    rw [h] at hq
    cases hq
    exact ⟨q',rfl,rfl⟩

end Queue

/-- `accepted` has gone in and `removed` has come out, and the rest waits. -/
def Conserved (q : Queue α cap) (accepted removed : List α) : Prop :=
  accepted = removed ++ q.items

theorem conserved_empty : Conserved (Queue.empty : Queue α cap) [] [] := rfl

theorem Conserved.put {q q' : Queue α cap} {accepted removed : List α} {x : α}
    (h : Conserved q accepted removed) (hp : q.put x = some q') :
    Conserved q' (accepted ++ [x]) removed := by
  rw [Conserved,Queue.put_items hp,← List.append_assoc,← h]

theorem Conserved.get {q q' : Queue α cap} {accepted removed : List α} {x : α}
    (h : Conserved q accepted removed) (hg : q.get = some (x, q')) :
    Conserved q' accepted (removed ++ [x]) := by
  rw [Conserved] at h ⊢
  rw [h,Queue.get_items hg,List.append_assoc,List.singleton_append]

theorem Conserved.purge {q : Queue α cap} {accepted removed : List α}
    (h : Conserved q accepted removed) :
    Conserved (Queue.empty : Queue α cap) accepted (removed ++ q.items) := by
  rw [Conserved] at h ⊢
  simp [h]

theorem Conserved.isPrefix {q : Queue α cap} {accepted removed : List α}
    (h : Conserved q accepted removed) : removed <+: accepted :=
  ⟨q.items,h.symm⟩

theorem Conserved.length {q : Queue α cap} {accepted removed : List α}
    (h : Conserved q accepted removed) :
    accepted.length = removed.length + q.items.length := by
  rw [h,List.length_append]

end BoundedQueues
