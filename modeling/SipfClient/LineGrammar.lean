import SipfClient.EditingLaws
set_option autoImplicit false

namespace SipfClient.Command
open ByteMem HexText

/-- A reading of a byte stream: its complete lines, and the line still being typed at
its end (empty outside a line). -/
inductive Reading : List UInt8 → List (List UInt8) → List UInt8 → Prop
  | idle {pre : List UInt8} (hpre : ∀ b ∈ pre, b ≠ 0x24) : Reading pre [] []
  | typing {pre text : List UInt8} (hpre : ∀ b ∈ pre, b ≠ 0x24) (htext : ∀ b ∈ text, ¬ EndsLine b) :
      Reading (pre ++ 0x24 :: text) [] text
  | line {pre text rest : List UInt8} {e : UInt8} {ls : List (List UInt8)} {last : List UInt8}
      (hpre : ∀ b ∈ pre, b ≠ 0x24) (htext : ∀ b ∈ text, ¬ EndsLine b) (he : EndsLine e)
      (h : Reading rest ls last) : Reading (pre ++ 0x24 :: (text ++ e :: rest)) (text :: ls) last

def firstWord (line : List UInt8) : List UInt8 := line.takeWhile (· ≠ 0x20)

def named (line : List UInt8) : Option CmdAsciiCmd :=
  cmdfunc.find? fun c => c.cmdName = firstWord line

/-- The call a line asks for: the rest of it behind the name, with its length and zeros
behind it. -/
def readLine (line : List UInt8) : UInt16 × Option CmdCall :=
  (UInt16.ofNat line.length, (named line).map fun c =>
    let rest := line.drop c.cmdName.length
    ⟨c, Mem.ofList rest, UInt16.ofNat rest.length⟩)

def answerLine (handler : CmdCall → List UInt8) (line : UInt16 × Option CmdCall) : List UInt8 :=
  match line.2 with
  | none => cmdCreateResNg
  | some call => handler call

theorem split_first (p : UInt8 → Prop) [DecidablePred p] (bs : List UInt8) :
    (∀ b ∈ bs, ¬ p b) ∨ ∃ pre b rest, bs = pre ++ b :: rest ∧ (∀ x ∈ pre, ¬ p x) ∧ p b := by
  induction bs with
  | nil => exact .inl (by simp)
  | cons b bs ih =>
    by_cases hb : p b
    · exact .inr ⟨[],b,bs,rfl,by simp,hb⟩
    rcases ih with h | ⟨pre,c,rest,rfl,hpre,hc⟩
    · exact .inl (by simpa [hb] using h)
    · exact .inr ⟨b :: pre,c,rest,rfl,by simpa [hb] using hpre,hc⟩

theorem reading_exists (bs : List UInt8) : ∃ ls last, Reading bs ls last := by
  induction hn : bs.length using Nat.strong_induction_on generalizing bs with
  | _ n ih =>
    rcases split_first (· = 0x24) bs with h | ⟨pre,_,bs,rfl,hpre,rfl⟩
    · exact ⟨[],[],.idle h⟩
    rcases split_first EndsLine bs with h | ⟨text,e,rest,rfl,htext,he⟩
    · exact ⟨[],bs,.typing hpre h⟩
    · obtain ⟨ls,last,h⟩ := ih rest.length (by rw [← hn]; simp; omega) rest rfl
      exact ⟨text :: ls,last,.line hpre htext he h⟩

theorem lines_idle {pre : List UInt8} (h : ∀ b ∈ pre, b ≠ 0x24) (rest : List UInt8) :
    lines none (pre ++ rest) = lines none rest ∧
      (LinesFit none rest → LinesFit none (pre ++ rest)) := by
  induction pre with
  | nil => exact ⟨rfl,id⟩
  | cons b pre ih =>
    obtain ⟨hl,hf⟩ := ih fun c hc => h c (by simp [hc])
    have hb := h b (by simp)
    simp only [List.cons_append,lines,LinesFit,lineNext,if_neg hb]
    exact ⟨hl,hf⟩

/-- A reading of a stream without backspaces is what the line editor keeps of it. -/
theorem Reading.lines {bs last : List UInt8} {ls : List (List UInt8)} (h : Reading bs ls last)
    (hbs : (0x08 : UInt8) ∉ bs) (hls : ∀ l ∈ ls, l.length ≤ 4095) (hlast : last.length ≤ 4095) :
    lines none bs = ls.map (fun l => ⟨l,[]⟩) ∧ LinesFit none bs := by
  have hplain : ∀ {text : List UInt8}, (∀ b ∈ text, ¬ EndsLine b) → (0x08 : UInt8) ∉ text →
      Plain text := fun ht hb b hm => ⟨ht b hm,fun he => hb (he ▸ hm)⟩
  induction h with
  | @idle pre hpre =>
    obtain ⟨hl,hf⟩ := lines_idle hpre []
    rw [List.append_nil] at hl hf
    exact ⟨hl,hf trivial⟩
  | @typing pre text hpre htext =>
    obtain ⟨hl,hf⟩ := lines_idle hpre (0x24 :: text)
    have ht := hplain htext fun hm => hbs (by simp [hm])
    have hline := lines_typing ht [] []
    have hfit := linesFit_typing ht [] [] (by simpa [LinesFit] using hlast)
    rw [List.append_nil] at hline hfit
    exact ⟨hl.trans hline,hf hfit⟩
  | @line pre text rest e ls last hpre htext he _ ih =>
    obtain ⟨hl,hf⟩ := lines_idle hpre (0x24 :: (text ++ e :: rest))
    have ht := hplain htext fun hm => hbs (by simp [hm])
    have hlen := hls text (by simp)
    obtain ⟨hrest,hfits⟩ := ih (fun hm => hbs (by simp [hm])) (fun l hm => hls l (by simp [hm])) hlast
    have hline := lines_typing ht [] (e :: rest)
    have hfit := linesFit_typing ht [] (e :: rest) ⟨hlen,by simpa [Line.next,he] using hfits⟩
    refine ⟨hl.trans (hline.trans ?_),hf hfit⟩
    rw [List.nil_append,Command.lines,if_pos he,hrest,List.map_cons]

theorem cmdName_spaceless : ∀ c ∈ cmdfunc, (0x20 : UInt8) ∉ c.cmdName := by decide

theorem firstWord_append {name rest : List UInt8} (h : (0x20 : UInt8) ∉ name)
    (hrest : rest = [] ∨ rest.head? = some 0x20) : firstWord (name ++ rest) = name := by
  have hname : ∀ b ∈ name, decide (b ≠ 0x20) = true := by
    intro b hb
    simpa using fun he : b = 0x20 => h (he ▸ hb)
  rw [firstWord,List.takeWhile_append_of_pos hname]
  rcases hrest with rfl | hrest
  · simp
  · obtain ⟨tail,rfl⟩ := List.head?_eq_some_iff.1 hrest
    simp

/-- The prefix comparison of `CmdAsciiParse` finds exactly the first word of the line. -/
theorem names_iff {c : CmdAsciiCmd} (hc : c ∈ cmdfunc) (line : List UInt8) :
    Line.Names ⟨line,[]⟩ c ↔ c.cmdName = firstWord line := by
  simp only [Line.Names,Line.bytes,List.append_nil]
  constructor
  · rintro ⟨hname,hend⟩
    have hline := (List.take_append_drop c.cmdName.length line).symm
    rw [hname] at hline
    rw [hline]
    refine (firstWord_append (cmdName_spaceless c hc) ?_).symm
    rcases hend with hlen | hsep
    · exact .inl (List.drop_eq_nil_of_le (by omega))
    · exact .inr (by rw [List.head?_drop,hsep])
  · intro hname
    have hline : line = c.cmdName ++ line.dropWhile (· ≠ 0x20) := by
      rw [hname,firstWord,List.takeWhile_append_dropWhile]
    have htail := List.head?_dropWhile_not (fun b : UInt8 => decide (b ≠ 0x20)) line
    generalize line.dropWhile (· ≠ 0x20) = tail at hline htail
    subst hline
    refine ⟨List.take_left,?_⟩
    cases tail with
    | nil => exact .inl (by simp)
    | cons b tail =>
      have hb : b = 0x20 := by simpa using htail
      exact .inr (by simp [hb])

theorem ofList_shift (bs : List UInt8) (k : Nat) :
    (Mem.ofList bs).shift k = Mem.ofList (bs.drop k) := by
  funext i
  simp [Mem.ofList,List.getD_eq_getElem?_getD]

theorem parsed_readLine {line : List UInt8} (hlen : line.length ≤ 4095) :
    (Line.mk line []).parsed = readLine line := by
  have hbytes : (Line.mk line []).bytes = line := List.append_nil line
  have hfind : (cmdfunc.find? fun c =>
      decide (Matches (Mem.ofList line) (Line.mk line []).length c)) = named line := by
    apply List.find?_congr
    intro c hc
    have hm := matches_names (l := ⟨line,[]⟩) hlen hc
    rw [hbytes] at hm
    simp only [hm,names_iff hc]
  rw [Line.parsed,hbytes,cmdAsciiParse,searchCmd_eq_find,hfind,readLine]
  refine Prod.ext rfl ?_
  cases hn : named line with
  | none => rfl
  | some c =>
    have hname : c.cmdName = firstWord line := by simpa using List.find?_some hn
    have hle : c.cmdName.length ≤ line.length := by
      rw [hname]
      exact (List.takeWhile_sublist _).length_le
    have hsub : UInt16.ofNat line.length - UInt16.ofNat c.cmdName.length =
        UInt16.ofNat (line.length - c.cmdName.length) := (UInt16.ofNat_sub hle).symm
    simp only [Option.map_some,callOf,ofList_shift,List.length_drop,Line.length,hsub]

theorem Reading.dispatches {bs last : List UInt8} {ls : List (List UInt8)} (h : Reading bs ls last)
    (hbs : (0x08 : UInt8) ∉ bs) (hls : ∀ l ∈ ls, l.length ≤ 4095) (hlast : last.length ≤ 4095) :
    Command.dispatches bs = .ok (ls.map readLine) := by
  obtain ⟨hlines,hfit⟩ := h.lines hbs hls hlast
  rw [dispatches_lines bs hfit,hlines,List.map_map]
  exact congrArg _ (List.map_congr_left fun l hl => parsed_readLine (hls l hl))

def twoLines : List UInt8 :=
  [0x78] ++ 0x24 :: (ascii "$TXRAW 01 41" ++ 0x0d :: 0x24 :: (ascii "R 00" ++ [0x0a]))

end SipfClient.Command
