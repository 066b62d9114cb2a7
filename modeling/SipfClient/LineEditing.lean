import SipfClient.CommandLine
set_option autoImplicit false

/-!
A line as the person at the terminal sees it, and what the parser's buffer holds
behind it: a backspace takes a byte off the line but leaves it in the buffer.
-/

namespace SipfClient.Command
open ByteMem HexText

/-- A line being typed. `held` is what the backspaces left of it, `stale` the erased
bytes behind it that no later byte has replaced. -/
structure Line where
  held : List UInt8
  stale : List UInt8
  deriving DecidableEq, Repr

def Line.bytes (l : Line) : List UInt8 := l.held ++ l.stale

def Line.typed (l : Line) (b : UInt8) : Line := ⟨l.held ++ [b], l.stale.tail⟩

def Line.erased (l : Line) : Line := ⟨l.held.dropLast, l.held.getLast?.toList ++ l.stale⟩

abbrev EndsLine (b : UInt8) : Prop := b = 0x0a ∨ b = 0x0d

def Line.next (l : Line) (b : UInt8) : Option Line :=
  if EndsLine b then none
  else if b = 0x08 then (if l.held = [] then none else some l.erased)
  else some (l.typed b)

def lineNext : Option Line → UInt8 → Option Line
  | none, b => if b = 0x24 then some ⟨[],[]⟩ else none
  | some l, b => l.next b

def lines : Option Line → List UInt8 → List Line
  | _, [] => []
  | none, b :: bs => lines (lineNext none b) bs
  | some l, b :: bs =>
    if EndsLine b then l :: lines none bs else lines (l.next b) bs

def LinesFit : Option Line → List UInt8 → Prop
  | none, [] => True
  | some l, [] => l.held.length ≤ 4095
  | none, b :: bs => LinesFit (lineNext none b) bs
  | some l, b :: bs => l.held.length ≤ 4095 ∧ LinesFit (l.next b) bs

/-- The stream without its backspaces: each one inside a line goes together with the
byte it erases, and a line cancelled at its start goes altogether. -/
def editFrom : Option (List UInt8) → List UInt8 → List UInt8
  | none, [] => []
  | some held, [] => 0x24 :: held
  | none, b :: bs => if b = 0x24 then editFrom (some []) bs else b :: editFrom none bs
  | some held, b :: bs =>
    if EndsLine b then 0x24 :: (held ++ b :: editFrom none bs)
    else if b = 0x08 then
      (if held = [] then editFrom none bs else editFrom (some held.dropLast) bs)
    else editFrom (some (held ++ [b])) bs

def edit (bs : List UInt8) : List UInt8 := editFrom none bs

def Plain (bs : List UInt8) : Prop := ∀ b ∈ bs, ¬ EndsLine b ∧ b ≠ 0x08

theorem LinesFit.held_le {l : Line} {bs : List UInt8} (h : LinesFit (some l) bs) :
    l.held.length ≤ 4095 := by
  cases bs with
  | nil => exact h
  | cons b bs => exact h.1

theorem lines_typing {held : List UInt8} (h : Plain held) (pre rest : List UInt8) :
    lines (some ⟨pre,[]⟩) (held ++ rest) = lines (some ⟨pre ++ held,[]⟩) rest := by
  induction held generalizing pre with
  | nil => simp
  | cons b held ih =>
    obtain ⟨he,hb⟩ := h b (by simp)
    have hrest : Plain held := fun c hc => h c (by simp [hc])
    simp only [List.cons_append,lines,Line.next,if_neg he,if_neg hb,Line.typed,List.tail_nil]
    rw [ih hrest (pre ++ [b])]
    simp

theorem linesFit_typing {held : List UInt8} (h : Plain held) (pre rest : List UInt8)
    (hfit : LinesFit (some ⟨pre ++ held,[]⟩) rest) :
    LinesFit (some ⟨pre,[]⟩) (held ++ rest) := by
  induction held generalizing pre with
  | nil => simpa using hfit
  | cons b held ih =>
    obtain ⟨he,hb⟩ := h b (by simp)
    have hlen := hfit.held_le
    simp only [List.length_append,List.length_cons] at hlen
    refine ⟨by show pre.length ≤ 4095; omega,?_⟩
    simp only [Line.next,if_neg he,if_neg hb,Line.typed,List.tail_nil]
    exact ih (fun c hc => h c (by simp [hc])) (pre ++ [b]) (by simpa using hfit)

theorem Plain.dropLast {held : List UInt8} (h : Plain held) : Plain held.dropLast :=
  fun b hb => h b (List.mem_of_mem_dropLast hb)

theorem Plain.typed {held : List UInt8} (h : Plain held) {b : UInt8} (he : ¬ EndsLine b)
    (hb : b ≠ 0x08) : Plain (held ++ [b]) := by
  intro c hc
  rcases List.mem_append.1 hc with hc | hc
  · exact h c hc
  · obtain rfl := List.mem_singleton.1 hc
    exact ⟨he,hb⟩

def Line.clean (l : Line) : Line := ⟨l.held,[]⟩

theorem editFrom_lines (o : Option Line) (bs : List UInt8)
    (hplain : ∀ l, o = some l → Plain l.held) :
    lines none (editFrom (o.map Line.held) bs) = (lines o bs).map Line.clean := by
  induction bs generalizing o with
  | nil =>
    cases o with
    | none => rfl
    | some l =>
      have ht := lines_typing (hplain l rfl) [] []
      simp only [List.append_nil,List.nil_append] at ht
      simp [editFrom,lines,lineNext,ht]
  | cons b bs ih =>
    cases o with
    | none =>
      by_cases hb : b = 0x24
      · have hi := ih (some ⟨[],[]⟩) (by simp [Plain])
        simpa [editFrom,lines,lineNext,hb] using hi
      · have hi := ih none (by simp)
        simpa [editFrom,lines,lineNext,hb] using hi
    | some l =>
      have hl := hplain l rfl
      by_cases he : EndsLine b
      · have ht := lines_typing hl [] (b :: editFrom none bs)
        have hi := ih none (by simp)
        simp only [Option.map_none] at hi
        simp only [Option.map_some,editFrom,lines,if_pos he,List.map_cons,lineNext,
          if_true,ht,List.nil_append,hi]
        rfl
      · by_cases hb : b = 0x08
        · subst hb
          by_cases hnil : l.held = []
          · have hi := ih none (by simp)
            simpa [editFrom,lines,Line.next,he,hnil] using hi
          · have hi := ih (some l.erased) (by
              rintro m ⟨⟩
              exact hl.dropLast)
            simpa [editFrom,lines,Line.next,he,hnil,Line.erased] using hi
        · have hi := ih (some (l.typed b)) (by
            rintro m ⟨⟩
            exact hl.typed he hb)
          simpa [editFrom,lines,Line.next,he,hb,Line.typed] using hi

theorem editFrom_fit (o : Option Line) (bs : List UInt8)
    (hplain : ∀ l, o = some l → Plain l.held) (hfit : LinesFit o bs) :
    LinesFit none (editFrom (o.map Line.held) bs) := by
  induction bs generalizing o with
  | nil =>
    cases o with
    | none => trivial
    | some l =>
      have ht := linesFit_typing (hplain l rfl) [] [] hfit
      simpa [editFrom,LinesFit,lineNext] using ht
  | cons b bs ih =>
    cases o with
    | none =>
      by_cases hb : b = 0x24
      · have hi := ih (some ⟨[],[]⟩) (by simp [Plain])
          (by simpa [LinesFit,lineNext,hb] using hfit)
        simpa [editFrom,lineNext,hb] using hi
      · have hi := ih none (by simp) (by simpa [LinesFit,lineNext,hb] using hfit)
        simpa [editFrom,LinesFit,lineNext,hb] using hi
    | some l =>
      have hl := hplain l rfl
      obtain ⟨hlen,hnext⟩ := hfit
      by_cases he : EndsLine b
      · simp only [Line.next,if_pos he] at hnext
        have hi := ih none (by simp) hnext
        have ht := linesFit_typing hl [] (b :: editFrom none bs)
          ⟨hlen,by simpa [Line.next,he] using hi⟩
        simpa [editFrom,LinesFit,lineNext,he] using ht
      · by_cases hb : b = 0x08
        · subst hb
          by_cases hnil : l.held = []
          · have hi := ih none (by simp) (by simpa [Line.next,he,hnil] using hnext)
            simpa [editFrom,he,hnil] using hi
          · have hi := ih (some l.erased) (by
              rintro m ⟨⟩
              exact hl.dropLast) (by simpa [Line.next,he,hnil] using hnext)
            simpa [editFrom,he,hnil,Line.erased] using hi
        · have hi := ih (some (l.typed b)) (by
            rintro m ⟨⟩
            exact hl.typed he hb) (by simpa [Line.next,he,hb] using hnext)
          simpa [editFrom,he,hb,Line.typed] using hi

end SipfClient.Command
