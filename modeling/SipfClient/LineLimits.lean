import SipfClient.EditingLaws
set_option autoImplicit false

/-!
The end of the line buffer. The index is compared with the size only after the byte
has been stored, so the 4097th byte of a line is written behind the buffer; and after
that the parser waits for a '$' in the middle of the line.
-/

namespace SipfClient.Command
open ByteMem HexText

def writeIndex (p : CmdParser) (b : UInt8) : Option Int :=
  if p.state = .bufferingAscii ∧ ¬ EndsLine b ∧ b ≠ 0x08 then some p.inBuffIdx else none

def parseIndex (p : CmdParser) (b : UInt8) : Option Int :=
  if p.state = .bufferingAscii ∧ EndsLine b then some p.inBuffIdx else none

def InBuffer (i : Int) : Prop := 0 ≤ i ∧ i < cmdBuffSz

def IndexSafe (p : CmdParser) : List UInt8 → Prop
  | [] => True
  | b :: bs => (∀ i ∈ writeIndex p b, InBuffer i) ∧ (∀ i ∈ parseIndex p b, InBuffer i) ∧
      ∀ p' e, cmdParse p b = .ok (p', e) → IndexSafe p' bs

/-- A line that has grown to 4096 bytes is shortened before anything else happens to it. -/
def ErasedWhenFull : Option Line → List UInt8 → Prop
  | _, [] => True
  | o, b :: bs => (∀ l ∈ o, 4096 ≤ l.held.length → b = 0x08) ∧ ErasedWhenFull (lineNext o b) bs

theorem lineNext_held {o : Option Line} {b : UInt8} {n : Nat} (hb : ∀ l ∈ o, l.held.length ≤ n)
    (hfull : ∀ l ∈ o, n ≤ l.held.length → b = 0x08 ∨ EndsLine b) :
    ∀ l ∈ lineNext o b, l.held.length ≤ n := by
  cases o with
  | none =>
    intro l hl
    simp only [lineNext] at hl
    split_ifs at hl
    · cases hl
      exact Nat.zero_le n
    · cases hl
  | some l =>
    have hl := hb l rfl
    have hf := hfull l rfl
    intro l' hl'
    simp only [lineNext,Line.next] at hl'
    split_ifs at hl' with he hbs hnil
    · cases hl'
    · cases hl'
    · cases hl'
      simp only [Line.erased,List.length_dropLast]
      omega
    · cases hl'
      simp only [Line.typed,List.length_append,List.length_singleton]
      by_contra hlt
      exact (hf (by omega)).elim hbs he

theorem indexSafe_tracks {p : CmdParser} {o : Option Line} (h : Tracks p o)
    (hheld : ∀ l ∈ o, l.held.length ≤ 4096) (bs : List UInt8) :
    IndexSafe p bs ↔ ErasedWhenFull o bs := by
  induction bs generalizing p o with
  | nil => simp [IndexSafe,ErasedWhenFull]
  | cons b bs ih =>
    have hnow : (∀ i ∈ writeIndex p b, InBuffer i) ∧ (∀ i ∈ parseIndex p b, InBuffer i) ↔
        ∀ l ∈ o, 4096 ≤ l.held.length → b = 0x08 := by
      cases o with
      | none =>
        have hw : p.state = .wait := h
        simp [writeIndex,parseIndex,hw]
      | some l =>
        have hp : p = ⟨.bufferingAscii, Mem.ofList l.bytes, l.held.length⟩ := h
        subst hp
        have hbs : EndsLine 0x08 ↔ False := by decide
        by_cases hb : b = 0x08
        · subst hb
          simp [writeIndex,parseIndex,hbs]
        · by_cases he : EndsLine b <;>
            simp [writeIndex,parseIndex,InBuffer,cmdBuffSz,he,hb]
    rw [IndexSafe,ErasedWhenFull,← and_assoc,hnow]
    refine and_congr_right fun hfull => ?_
    obtain ⟨p',e,hstep,htracks,-⟩ := cmdParse_tracks h b (by
      rintro l rfl _ hb
      have hl := hfull l rfl
      by_contra hlt
      exact hb (hl (by omega)))
    have hi := ih htracks (lineNext_held hheld fun l hl hle => .inl (hfull l hl hle))
    rw [hstep]
    constructor
    · intro hall
      exact hi.1 (hall p' e rfl)
    · rintro hall p'' e' he
      cases he
      exact hi.2 hall

/-- From the start, exactly the streams in which no line of 4096 bytes is continued or
ended keep the parser inside its buffer. -/
theorem index_safe_iff (bs : List UInt8) : IndexSafe .init bs ↔ ErasedWhenFull none bs :=
  @indexSafe_tracks .init none rfl (by simp) bs

theorem erasedWhenFull_typing {text : List UInt8} (h : Plain text) (pre rest : List UInt8)
    (hlen : pre.length + text.length ≤ 4096) : ErasedWhenFull (some ⟨pre,[]⟩) (text ++ rest) ↔
      ErasedWhenFull (some ⟨pre ++ text,[]⟩) rest := by
  induction text generalizing pre with
  | nil => simp
  | cons b text ih =>
    obtain ⟨he,hb⟩ := h b (by simp)
    simp only [List.length_cons] at hlen
    have hfull : ∀ l ∈ some (⟨pre,[]⟩ : Line), 4096 ≤ l.held.length → b = 0x08 := by
      intro l hl hle
      cases hl
      simp only at hle
      omega
    have hnext : lineNext (some ⟨pre,[]⟩) b = some ⟨pre ++ [b],[]⟩ := by
      simp [lineNext,Line.next,he,hb,Line.typed]
    have hi := ih (fun c hc => h c (by simp [hc])) (pre ++ [b]) (by simp; omega)
    rw [List.append_assoc] at hi
    rw [List.cons_append,ErasedWhenFull,hnext]
    exact (and_iff_right hfull).trans hi

theorem plain_replicate {b : UInt8} (he : ¬ EndsLine b) (hb : b ≠ 0x08) (n : Nat) :
    Plain (List.replicate n b) := by
  intro c hc
  obtain rfl := List.eq_of_mem_replicate hc
  exact ⟨he,hb⟩

theorem filled_leaves_buffer {text : List UInt8} (h : Plain text) (hlen : text.length = 4096) {b : UInt8}
    (hb : b ≠ 0x08) : ¬ IndexSafe .init (0x24 :: (text ++ [b])) := by
  intro hsafe
  have herased := (@indexSafe_tracks .init none rfl (by simp) _).1 hsafe
  have hline := (erasedWhenFull_typing h [] [b] (by simp [hlen])).1 herased.2
  exact hb (hline.1 _ rfl (by simp [hlen]))

/-- A line of 4096 bytes is handed over without a byte behind it, and one more byte is
written outside the buffer. -/
theorem full_line_leaves_buffer :
    ¬ IndexSafe .init (0x24 :: (List.replicate 4096 0x41 ++ [0x0d])) ∧
      ¬ IndexSafe .init (0x24 :: (List.replicate 4096 0x41 ++ [0x41])) := by
  have hplain := plain_replicate (b := 0x41) (by decide) (by decide) 4096
  exact ⟨filled_leaves_buffer hplain List.length_replicate (by decide),
    filled_leaves_buffer hplain List.length_replicate (by decide)⟩

/-- The byte behind `in_buff` taken to be one that nothing uses: the 4097th byte of a
line is stored there, and then the index is found to be too large. -/
def cmdParseSpill (p : CmdParser) (b : UInt8) : CmdParser × CmdEvent :=
  match cmdParse p b with
  | .ok r => r
  | .error _ => (⟨.wait, p.inBuff, p.inBuffIdx + 1⟩, .bufferFull)

def spillRun (p : CmdParser) : List UInt8 → CmdParser × List CmdEvent
  | [] => (p, [])
  | b :: bs =>
    let (p, e) := cmdParseSpill p b
    let (p, es) := spillRun p bs
    (p, e :: es)

def CmdEvent.isFull : CmdEvent → Bool
  | .bufferFull => true
  | _ => false

/-- One NG of the full buffer, and no call of `CmdAsciiParse`. -/
def Dropped (es : List CmdEvent) : Prop :=
  es.countP CmdEvent.isFull = 1 ∧ es.filterMap CmdEvent.line = []

def Silent (es : List CmdEvent) : Prop :=
  es.countP CmdEvent.isFull = 0 ∧ es.filterMap CmdEvent.line = []

/-- Each '$' that starts a line in these bytes is taken back by backspaces, before the
bytes end and before they fill the buffer; `some n` is a line of `n` bytes. -/
def TakenBack : Option Nat → List UInt8 → Prop
  | none, [] => True
  | some _, [] => False
  | none, b :: bs => TakenBack (if b = 0x24 then some 0 else none) bs
  | some n, b :: bs =>
    if b = 0x08 then TakenBack (if n = 0 then none else some (n - 1)) bs
    else n < 4096 ∧ TakenBack (some (n + 1)) bs

def Counts (p : CmdParser) : Option Nat → Prop
  | none => p.state = .wait
  | some n => p.state = .bufferingAscii ∧ p.inBuffIdx = n

section Spill

variable {p : CmdParser} {b : UInt8} {n : Nat}

theorem spill_wait (h : p.state = .wait) :
    Counts (cmdParseSpill p b).1 (if b = 0x24 then some 0 else none) ∧
      (cmdParseSpill p b).2 = .none := by
  simp only [cmdParseSpill,cmdParse,h,stateWait]
  split_ifs
  · exact ⟨⟨rfl,rfl⟩,rfl⟩
  · exact ⟨h,rfl⟩

theorem spill_end (h : Counts p (some n)) (he : EndsLine b) :
    (cmdParseSpill p b).2.line ≠ none := by
  simp [cmdParseSpill,cmdParse,h.1,stateBufferingAscii,he,CmdEvent.line]

theorem spill_erase (h : Counts p (some n)) (hb : b = 0x08) :
    Counts (cmdParseSpill p b).1 (if n = 0 then none else some (n - 1)) ∧
      (cmdParseSpill p b).2 = .none := by
  obtain ⟨hst,hidx⟩ := h
  have he : ¬ EndsLine 0x08 := by decide
  subst hb
  simp only [cmdParseSpill,cmdParse,hst,stateBufferingAscii,if_neg he,if_true,hidx]
  split_ifs with hn hn' hn'
  · exact ⟨rfl,trivial⟩
  · omega
  · omega
  · exact ⟨⟨rfl,show (n : Int) - 1 = (n - 1 : Nat) by omega⟩,trivial⟩

theorem spill_type (h : Counts p (some n)) (he : ¬ EndsLine b) (hb : b ≠ 0x08) (hn : n < 4096) :
    Counts (cmdParseSpill p b).1 (some (n + 1)) ∧ (cmdParseSpill p b).2 = .none := by
  obtain ⟨hst,hidx⟩ := h
  have hroom : ¬ ((cmdBuffSz : Int) < n + 1) := by simp only [cmdBuffSz]; omega
  simp only [cmdParseSpill,cmdParse,hst,stateBufferingAscii,if_neg he,if_neg hb,hidx,Int.toNat_natCast]
  rw [Mem.store_ok (by simp [cmdBuffSz]; omega)]
  simp only [bind,Except.bind,if_neg hroom]
  exact ⟨⟨rfl,rfl⟩,rfl⟩

theorem spill_full (h : Counts p (some n)) (he : ¬ EndsLine b) (hb : b ≠ 0x08) (hn : 4096 ≤ n) :
    Counts (cmdParseSpill p b).1 none ∧ (cmdParseSpill p b).2 = .bufferFull := by
  obtain ⟨hst,hidx⟩ := h
  simp only [cmdParseSpill,cmdParse,hst,stateBufferingAscii,if_neg he,if_neg hb,hidx,Int.toNat_natCast]
  rw [Mem.store_error (by simp [cmdBuffSz]; omega)]
  exact ⟨rfl,rfl⟩

end Spill

theorem silent_cons {e : CmdEvent} {es : List CmdEvent} (h : e = .none) :
    (Silent (e :: es) ↔ Silent es) ∧ (Dropped (e :: es) ↔ Dropped es) := by
  subst h
  simp [Silent,Dropped,CmdEvent.isFull,CmdEvent.line]

theorem full_cons {e : CmdEvent} {es : List CmdEvent} (h : e = .bufferFull) :
    (Dropped (e :: es) ↔ Silent es) ∧ ¬ Silent (e :: es) := by
  subst h
  have hcount : (CmdEvent.bufferFull :: es).countP CmdEvent.isFull = es.countP CmdEvent.isFull + 1 :=
    List.countP_cons_of_pos rfl
  have hlines : (CmdEvent.bufferFull :: es).filterMap CmdEvent.line = es.filterMap CmdEvent.line := rfl
  rw [Dropped,Silent,Silent,hcount,hlines]
  exact ⟨by simp only [Nat.add_eq_right],fun hs => absurd hs.1 (Nat.succ_ne_zero _)⟩

theorem tail_silent_iff {p : CmdParser} {o : Option Nat} (h : Counts p o) (ho : ∀ n ∈ o, n ≤ 4096)
    {tail : List UInt8} (htail : ∀ b ∈ tail, ¬ EndsLine b) {e : UInt8} (he : EndsLine e) :
    Silent (spillRun p (tail ++ [e])).2 ↔ TakenBack o tail := by
  induction tail generalizing p o with
  | nil =>
    cases o with
    | none =>
      obtain ⟨-,hev⟩ := @spill_wait p e h
      rw [List.nil_append,spillRun]
      simp [hev,spillRun,Silent,TakenBack,CmdEvent.isFull,CmdEvent.line]
    | some n =>
      have hline := spill_end h he
      cases hl : (cmdParseSpill p e).2.line with
      | none => exact absurd hl hline
      | some l => simp [spillRun,Silent,TakenBack,hl]
  | cons b tail ih =>
    have hb := htail b (by simp)
    have hrest : ∀ c ∈ tail, ¬ EndsLine c := fun c hc => htail c (by simp [hc])
    rw [List.cons_append,spillRun]
    cases o with
    | none =>
      obtain ⟨hc,hev⟩ := @spill_wait p b h
      rw [(silent_cons hev).1,TakenBack]
      refine ih hc ?_ hrest
      split_ifs <;> simp
    | some n =>
      have hn := ho n rfl
      by_cases hbs : b = 0x08
      · obtain ⟨hc,hev⟩ := spill_erase h hbs
        rw [(silent_cons hev).1,TakenBack,if_pos hbs]
        refine ih hc ?_ hrest
        split_ifs
        · simp
        · intro m hm
          cases hm
          omega
      rw [TakenBack,if_neg hbs]
      by_cases hlt : n < 4096
      · obtain ⟨hc,hev⟩ := spill_type h hb hbs hlt
        rw [(silent_cons hev).1,and_iff_right hlt]
        refine ih hc ?_ hrest
        intro m hm
        cases hm
        omega
      · obtain ⟨hc,hev⟩ := spill_full h hb hbs (by omega)
        exact iff_of_false (full_cons hev).2 fun hall => hlt hall.1

theorem head_dropped {p : CmdParser} {n : Nat} (h : Counts p (some n)) {first : List UInt8}
    (hfirst : Plain first) (hlen : n + first.length = 4097) (hn : n ≤ 4096) (rest : List UInt8) :
    ∃ p', Counts p' none ∧ (Dropped (spillRun p (first ++ rest)).2 ↔ Silent (spillRun p' rest).2) ∧
      (spillRun p (first ++ rest)).2.filterMap CmdEvent.line =
        (spillRun p' rest).2.filterMap CmdEvent.line := by
  induction first generalizing p n with
  | nil =>
    simp at hlen
    omega
  | cons b first ih =>
    obtain ⟨he,hb⟩ := hfirst b (by simp)
    rw [List.cons_append,spillRun]
    by_cases hlt : n < 4096
    · obtain ⟨hc,hev⟩ := spill_type h he hb hlt
      obtain ⟨p',hp',hiff,hlines⟩ := ih hc (fun c hm => hfirst c (by simp [hm]))
        (by simp only [List.length_cons] at hlen; omega) (by omega)
      refine ⟨p',hp',(silent_cons hev).2.trans hiff,?_⟩
      simp [List.filterMap_cons,hev,CmdEvent.line,hlines]
    · obtain ⟨hc,hev⟩ := spill_full h he hb (by omega)
      have hnil : first = [] := by
        apply List.length_eq_zero_iff.1
        simp only [List.length_cons] at hlen
        omega
      subst hnil
      exact ⟨_,hc,(full_cons hev).1,by simp [List.filterMap_cons,hev,CmdEvent.line]⟩

/-- A line of more than 4096 bytes, wherever it begins, is dropped whole exactly if no
'$' beyond the limit starts a line that is still there when it ends. -/
theorem long_line_dropped_iff {p : CmdParser} (h : p.state = .wait) {first tail : List UInt8}
    (hfirst : Plain first) (hlen : first.length = 4097) (htail : ∀ b ∈ tail, ¬ EndsLine b) {e : UInt8}
    (he : EndsLine e) :
    Dropped (spillRun p (0x24 :: (first ++ (tail ++ [e])))).2 ↔ TakenBack none tail := by
  obtain ⟨hc,hev⟩ := @spill_wait p 0x24 h
  rw [if_pos rfl] at hc
  obtain ⟨p',hp',hiff,-⟩ := head_dropped hc hfirst (by omega) (by omega) (tail ++ [e])
  rw [spillRun,(silent_cons hev).2]
  exact hiff.trans (tail_silent_iff hp' (by simp) htail he)

theorem long_line_dropped_iff_erased :
    Dropped (spillRun .init (0x24 :: (List.replicate 4097 0x41 ++ ([0x24,0x42,0x08,0x08] ++ [0x0d])))).2 ↔
      TakenBack none [0x24,0x42,0x08,0x08] :=
  long_line_dropped_iff rfl (plain_replicate (by decide) (by decide) 4097) List.length_replicate
    (by decide +kernel) (.inr rfl)

theorem long_line_tail {first : List UInt8} (hfirst : Plain first) (hlen : first.length = 4097)
    (tail : List UInt8) : (spillRun .init (0x24 :: (first ++ 0x24 :: tail))).2.filterMap CmdEvent.line =
      (spillRun ⟨.bufferingAscii, Mem.zero, 0⟩ tail).2.filterMap CmdEvent.line := by
  obtain ⟨hc,hev⟩ := @spill_wait .init 0x24 rfl
  rw [if_pos rfl] at hc
  obtain ⟨p,hp,-,hlines⟩ := head_dropped hc hfirst (by omega) (by omega) (0x24 :: tail)
  have hstart : cmdParseSpill p 0x24 = (⟨.bufferingAscii, Mem.zero, 0⟩, .none) := by
    have hw : p.state = .wait := hp
    simp [cmdParseSpill,cmdParse,hw,stateWait]
  simp only [spillRun,hstart,List.filterMap_cons,CmdEvent.line] at hlines
  simp only [spillRun,List.filterMap_cons,hev,CmdEvent.line]
  exact hlines

def lineCall (r : UInt16 × Option CmdCall) : Option (CmdFunc × List UInt8 × UInt16) :=
  r.2.map fun c => (c.cmd.cmdFunc, c.inBuff.read 0 4, c.inLen)

/-- 4097 bytes, and then `$R 00`: the register is read. -/
theorem long_line_tail_called :
    ((spillRun .init (0x24 :: (List.replicate 4097 0x41 ++ 0x24 :: (ascii "R 00" ++ [0x0d])))).2.filterMap
      CmdEvent.line).map lineCall = [some (.cmdAsciiCmdR, ascii " 00\x00", 3)] := by
  have htail : ((spillRun ⟨.bufferingAscii, Mem.zero, 0⟩ (ascii "R 00" ++ [0x0d])).2.filterMap
      CmdEvent.line).map lineCall = [some (.cmdAsciiCmdR, ascii " 00\x00", 3)] := by
    decide +kernel
  rw [long_line_tail (plain_replicate (by decide) (by decide) 4097) List.length_replicate]
  exact htail

end SipfClient.Command
