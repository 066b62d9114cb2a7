import Mathlib.Data.List.Basic
set_option autoImplicit false

/-!
Readers of the front of a text. A reader reads a piece of text back if it finds the value and
stops behind the piece, whatever follows; pieces that are read back one after another are read
back together.
-/

namespace PrefixReaders

variable {τ α β : Type}

abbrev Scanner (τ : Type) := StateT (List τ) Option

def Reads (p : Scanner τ α) (piece : List τ) (a : α) : Prop :=
  ∀ rest, p.run (piece ++ rest) = some (a, rest)

theorem Reads.pure (a : α) : Reads (Pure.pure a : Scanner τ α) [] a := fun _ => rfl

theorem Reads.bind {p : Scanner τ α} {f : α → Scanner τ β} {piece piece' : List τ} {a : α} {b : β}
    (h : Reads p piece a) (h' : Reads (f a) piece' b) : Reads (p >>= f) (piece ++ piece') b := by
  intro rest
  rw [List.append_assoc,StateT.run_bind,h]
  exact h' rest

theorem Reads.last {p : Scanner τ α} {piece : List τ} {a : α} (h : Reads p piece a) (f : α → β) :
    Reads (p >>= fun x => Pure.pure (f x)) piece (f a) := by
  have hboth := @Reads.bind τ α β p (fun x => Pure.pure (f x)) piece [] a (f a) h (Reads.pure (f a))
  rwa [List.append_nil] at hboth

theorem Reads.whole {p : Scanner τ α} {text : List τ} {a : α} (h : Reads p text a) :
    p.run text = some (a, []) := by
  have hrun := h []
  rwa [List.append_nil] at hrun

section Tokens

variable [DecidableEq τ]

def literal (t : List τ) : Scanner τ Unit := fun s =>
  if s.take t.length = t then some ((), s.drop t.length) else none

theorem literal_reads (t : List τ) : Reads (literal t) t () := fun rest => by
  have htake : (t ++ rest).take t.length = t := List.take_left' rfl
  have hdrop : (t ++ rest).drop t.length = rest := List.drop_left' rfl
  show literal t (t ++ rest) = _
  rw [literal,if_pos htake,hdrop]

def flag (yes no : List τ) : Scanner τ Bool := fun s =>
  if s.take yes.length = yes then some (true, s.drop yes.length)
  else if s.take no.length = no then some (false, s.drop no.length) else none

theorem flag_reads {yes no : List τ} (hlen : yes.length ≤ no.length) (hne : no.take yes.length ≠ yes)
    (b : Bool) : Reads (flag yes no) (if b then yes else no) b := by
  intro rest
  show flag yes no _ = _
  cases b with
  | true =>
    have htake : (yes ++ rest).take yes.length = yes := List.take_left' rfl
    have hdrop : (yes ++ rest).drop yes.length = rest := List.drop_left' rfl
    rw [if_pos rfl,flag,if_pos htake,hdrop]
  | false =>
    have hfront : (no ++ rest).take yes.length ≠ yes := by
      rw [List.take_append_of_le_length hlen]
      exact hne
    have htake : (no ++ rest).take no.length = no := List.take_left' rfl
    have hdrop : (no ++ rest).drop no.length = rest := List.drop_left' rfl
    rw [if_neg (by decide),flag,if_neg hfront,if_pos htake,hdrop]

def upTo (c : τ) : Scanner τ (List τ) := fun s =>
  if c ∈ s then some (s.takeWhile (· ≠ c), (s.dropWhile (· ≠ c)).tail) else none

theorem upTo_reads {c : τ} {t : List τ} (h : c ∉ t) : Reads (upTo c) (t ++ [c]) t := by
  intro rest
  show upTo c _ = _
  have hall : ∀ x ∈ t, decide (x ≠ c) = true := fun x hx => by
    simpa using fun heq : x = c => h (heq ▸ hx)
  have htext : t ++ [c] ++ rest = t ++ c :: rest := by simp
  have htake : (t ++ c :: rest).takeWhile (· ≠ c) = t := by
    rw [List.takeWhile_append_of_pos hall]
    simp
  have hdrop : (t ++ c :: rest).dropWhile (· ≠ c) = c :: rest := by
    rw [List.dropWhile_append_of_pos hall]
    simp
  rw [htext,upTo,if_pos (by simp),htake,hdrop,List.tail_cons]

end Tokens

def decoded (g : α → Option β) (p : Scanner τ α) : Scanner τ β := do
  let a ← p
  fun s => (g a).map fun b => (b, s)

theorem decoded_reads {g : α → Option β} {p : Scanner τ α} {piece : List τ} {a : α} {b : β}
    (h : Reads p piece a) (hg : g a = some b) : Reads (decoded g p) piece b := by
  intro rest
  rw [decoded,StateT.run_bind,h]
  show (g a).map _ = _
  rw [hg]
  rfl

def times (p : Scanner τ α) : Nat → Scanner τ (List α)
  | 0 => pure []
  | n + 1 => do
    let a ← p
    let as ← times p n
    pure (a :: as)

theorem times_reads {p : Scanner τ α} {print : α → List τ} (h : ∀ a, Reads p (print a) a)
    (as : List α) : Reads (times p as.length) (as.flatMap print) as := by
  induction as with
  | nil => exact Reads.pure []
  | cons a as ih => exact (h a).bind (ih.last (a :: ·))

end PrefixReaders
