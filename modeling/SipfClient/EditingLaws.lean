import SipfClient.LineEditing
set_option autoImplicit false

/-!
The parser's buffer is the edited line followed by its stale bytes. A command
sees the stale bytes unless a zero comes first, which decides when editing a line
makes no difference to it.
-/

namespace SipfClient.Command
open ByteMem HexText

def Tracks (p : CmdParser) : Option Line → Prop
  | none => p.state = .wait
  | some l => p = ⟨.bufferingAscii, Mem.ofList l.bytes, l.held.length⟩

def Line.length (l : Line) : UInt16 := UInt16.ofNat l.held.length

def Line.parsed (l : Line) : UInt16 × Option CmdCall :=
  (l.length, cmdAsciiParse (Mem.ofList l.bytes) l.length)

theorem ofInt_natCast (n : Nat) : UInt16.ofInt (n : Int) = UInt16.ofNat n := by
  apply UInt16.toNat_inj.1
  simp only [UInt16.ofInt,UInt16.toNat_ofNat']
  omega

theorem ofList_typed (l : Line) (b : UInt8) :
    (Mem.ofList l.bytes).copy l.held.length [b] = Mem.ofList (l.typed b).bytes := by
  obtain ⟨held,stale⟩ := l
  funext j
  simp only [Mem.copy,Mem.ofList,Line.bytes,Line.typed,List.length_singleton]
  by_cases hj : j < held.length
  · rw [if_neg (by omega)]
    simp [List.getD_eq_getElem?_getD,List.getElem?_append_left hj,List.append_assoc]
  · by_cases he : j = held.length
    · subst he
      simp [List.getD_eq_getElem?_getD]
    · rw [if_neg (by omega)]
      have h1 : held.length ≤ j := by omega
      have h2 : (held ++ [b]).length ≤ j := by simp; omega
      rw [List.getD_eq_getElem?_getD,List.getD_eq_getElem?_getD,List.getElem?_append_right h1,
        List.getElem?_append_right h2]
      obtain ⟨k,rfl⟩ : ∃ k, j = held.length + 1 + k := ⟨j - held.length - 1, by omega⟩
      have h3 : held.length + 1 + k - held.length = k + 1 := by omega
      have h4 : held.length + 1 + k - (held ++ [b]).length = k := by simp
      rw [h3,h4,List.getElem?_tail]

theorem erased_bytes {l : Line} (h : l.held ≠ []) : l.erased.bytes = l.bytes := by
  obtain ⟨held,stale⟩ := l
  simp only [Line.bytes,Line.erased] at h ⊢
  rw [← List.append_assoc,List.getLast?_eq_some_getLast h,Option.toList_some,
    List.dropLast_append_getLast h]

theorem cmdParse_tracks {p : CmdParser} {o : Option Line} (h : Tracks p o) (b : UInt8)
    (hfit : ∀ l, o = some l → ¬ EndsLine b → b ≠ 0x08 → l.held.length ≤ 4095) :
    ∃ p' e, cmdParse p b = .ok (p', e) ∧ Tracks p' (lineNext o b) ∧
      e.line = if EndsLine b then o.map Line.parsed else none := by
  cases o with
  | none =>
    have hw : p.state = .wait := h
    have hline : ∀ e : CmdEvent, e = .none →
        e.line = if EndsLine b then (none : Option Line).map Line.parsed else none := by
      rintro e rfl
      simp [CmdEvent.line]
    by_cases hb : b = 0x24
    · refine ⟨_,_,by rw [cmdParse,hw,stateWait,if_pos hb],?_,hline _ rfl⟩
      simp only [lineNext,if_pos hb]
      exact congrArg (CmdParser.mk _ · _) (funext fun i => by simp [Mem.zero,Mem.ofList,Line.bytes])
    · refine ⟨_,_,by rw [cmdParse,hw,stateWait,if_neg hb],?_,hline _ rfl⟩
      simpa [lineNext,hb,Tracks] using hw
  | some l =>
    have hp : p = ⟨.bufferingAscii, Mem.ofList l.bytes, l.held.length⟩ := h
    subst hp
    simp only [cmdParse,stateBufferingAscii,lineNext,Line.next]
    by_cases he : EndsLine b
    · have hn : UInt16.ofInt (l.held.length : Int) = l.length := ofInt_natCast _
      exact ⟨_,_,by rw [if_pos he],by rw [if_pos he]; rfl,by rw [if_pos he,hn]; rfl⟩
    · simp only [if_neg he]
      by_cases hb : b = 0x08
      · subst hb
        simp only [if_true]
        refine ⟨_,_,rfl,?_,rfl⟩
        by_cases hnil : l.held = []
        · simp [hnil,Tracks]
        · have hpos : l.held.length ≠ 0 := fun h0 => hnil (List.length_eq_zero_iff.1 h0)
          have hne : (l.held.length : Int) ≠ 0 := by omega
          have hidx : (l.held.length : Int) - 1 = (l.erased.held.length : Nat) := by
            simp only [Line.erased,List.length_dropLast]
            omega
          simp only [if_neg hnil,if_neg hne,Tracks,erased_bytes hnil,hidx]
      · have hlen := hfit l rfl he hb
        simp only [if_neg hb,Int.toNat_natCast]
        rw [Mem.store_ok (by simp [cmdBuffSz]; omega),ofList_typed]
        have hroom : ¬ ((cmdBuffSz : Int) < l.held.length + 1) := by
          simp only [cmdBuffSz]
          omega
        simp only [bind,Except.bind,if_neg hroom]
        refine ⟨_,_,rfl,?_,rfl⟩
        simp [Tracks,Line.typed]

theorem lines_cons (o : Option Line) (b : UInt8) (bs : List UInt8) :
    lines o (b :: bs) = (if EndsLine b then o.toList else []) ++ lines (lineNext o b) bs := by
  cases o with
  | none => simp [lines]
  | some l =>
    by_cases he : EndsLine b
    · simp [lines,lineNext,Line.next,he]
    · simp [lines,lineNext,he]

theorem LinesFit.next {o : Option Line} {b : UInt8} {bs : List UInt8} (h : LinesFit o (b :: bs)) :
    LinesFit (lineNext o b) bs := by
  cases o with
  | none => exact h
  | some l => exact h.2

theorem cmdRun_lines {p : CmdParser} {o : Option Line} (h : Tracks p o) (bs : List UInt8)
    (hfit : LinesFit o bs) :
    ∃ es, cmdRun p bs = .ok es ∧ es.filterMap CmdEvent.line = (lines o bs).map Line.parsed := by
  induction bs generalizing p o with
  | nil => exact ⟨[],rfl,by cases o <;> rfl⟩
  | cons b bs ih =>
    obtain ⟨p',e,hstep,htracks,hline⟩ := cmdParse_tracks h b (by
      rintro l rfl _ _
      exact hfit.held_le)
    obtain ⟨es,hrun,hlines⟩ := ih htracks hfit.next
    refine ⟨e :: es,?_,?_⟩
    · simp [cmdRun,hstep,hrun,bind,Except.bind,pure,Except.pure]
    · rw [lines_cons,List.filterMap_cons,hline,hlines,List.map_append]
      by_cases he : EndsLine b
      · cases o <;> simp [he]
      · simp [he]

theorem dispatches_lines (bs : List UInt8) (hfit : LinesFit none bs) :
    dispatches bs = .ok ((lines none bs).map Line.parsed) := by
  obtain ⟨es,hrun,hlines⟩ := cmdRun_lines (o := none) (p := .init) rfl bs hfit
  simp [dispatches,hrun,hlines,bind,Except.bind,pure,Except.pure]

def Matches (m : Mem) (n : UInt16) (c : CmdAsciiCmd) : Prop :=
  m.read 0 c.cmdName.length = c.cmdName ∧
    (n.toNat = c.cmdName.length ∨ m c.cmdName.length = 0x20)

instance (m : Mem) (n : UInt16) (c : CmdAsciiCmd) : Decidable (Matches m n c) :=
  inferInstanceAs (Decidable (_ ∧ _))

def callOf (m : Mem) (n : UInt16) (c : CmdAsciiCmd) : CmdCall :=
  ⟨c, m.shift c.cmdName.length, n - UInt16.ofNat c.cmdName.length⟩

theorem searchCmd_eq_find (m : Mem) (n : UInt16) (cs : List CmdAsciiCmd) :
    searchCmd m n cs = (cs.find? fun c => decide (Matches m n c)).map (callOf m n) := by
  induction cs with
  | nil => rfl
  | cons c cs ih =>
    by_cases h : Matches m n c
    · have hc := h
      simp only [Matches] at hc
      rw [searchCmd,if_pos hc]
      simp [h,callOf]
    · have hc := h
      simp only [Matches] at hc
      rw [searchCmd,if_neg hc,ih]
      simp [h]

theorem cmdName_nonzero : ∀ c ∈ cmdfunc, (0 : UInt8) ∉ c.cmdName := by decide

theorem read_name {m : Mem} {c : CmdAsciiCmd} (h : m.read 0 c.cmdName.length = c.cmdName)
    {i : Nat} (hi : i < c.cmdName.length) : m i ∈ c.cmdName := by
  rw [Mem.read_eq_iff] at h
  have hb := h i hi
  rw [Nat.zero_add] at hb
  rw [hb]
  exact List.getElem_mem hi

theorem Matches.length_le {m : Mem} {n : UInt16} {c : CmdAsciiCmd} (h : Matches m n c)
    (hc : c ∈ cmdfunc) {k : Nat} (hk : m k = 0) : c.cmdName.length ≤ k := by
  by_contra hlt
  have hmem := read_name h.1 (show k < c.cmdName.length by omega)
  rw [hk] at hmem
  exact cmdName_nonzero c hc hmem

theorem Matches.congr {m m' : Mem} {n : UInt16} {c : CmdAsciiCmd} (h : Matches m n c)
    (hc : c ∈ cmdfunc) {k : Nat} (hk : m k = 0) (hsame : ∀ i ≤ k, m i = m' i) :
    Matches m' n c := by
  have hlen := h.length_le hc hk
  refine ⟨?_,?_⟩
  · have hread : m'.read 0 c.cmdName.length = m.read 0 c.cmdName.length :=
      Mem.read_congr fun i hi => (hsame (0 + i) (by omega)).symm
    rw [hread]
    exact h.1
  · rw [← hsame _ hlen]
    exact h.2

def SameText (m m' : Mem) : Prop := ∀ i, (∀ j < i, m' j ≠ 0) → m i = m' i

/-- Two ends of a line mean the same: no command in both, or the same command with
the same text, and with the length of the edited line less that of the name. -/
def SameCall (a b : UInt16 × Option CmdCall) : Prop :=
  match a.2, b.2 with
  | none, none => True
  | some c, some c' =>
    c.cmd = c'.cmd ∧ c.inLen = c'.inLen ∧
      c.cmd.cmdName.length + c.inLen.toNat = b.1.toNat ∧ SameText c.inBuff c'.inBuff
  | _, _ => False

def Line.Names (l : Line) (c : CmdAsciiCmd) : Prop :=
  l.bytes.take c.cmdName.length = c.cmdName ∧
    (l.held.length = c.cmdName.length ∨ l.bytes[c.cmdName.length]? = some 0x20)

/-- A zero is met in the line or right behind it, or no command is named. -/
def Line.Settled (l : Line) : Prop :=
  (0 ∈ l.held ∨ l.stale.head?.getD 0 = 0) ∨ ∀ c ∈ cmdfunc, ¬ l.Names c

theorem ofList_eq_space (bs : List UInt8) (i : Nat) :
    Mem.ofList bs i = 0x20 ↔ bs[i]? = some 0x20 := by
  simp only [Mem.ofList,List.getD_eq_getElem?_getD]
  cases h : bs[i]? with
  | none => simp
  | some b => simp

theorem ofList_read_eq {bs name : List UInt8} (h : (0 : UInt8) ∉ name) :
    (Mem.ofList bs).read 0 name.length = name ↔ bs.take name.length = name := by
  constructor
  · intro hr
    have hlen : name.length ≤ bs.length := by
      by_contra hlt
      rw [Mem.read_eq_iff] at hr
      have hb := hr bs.length (by omega)
      rw [Nat.zero_add,Mem.ofList_ge bs (Nat.le_refl _)] at hb
      exact h (hb ▸ List.getElem_mem _)
    rw [Mem.read_eq_iff] at hr
    apply List.ext_getElem (by simpa using hlen)
    intro i hi hi'
    have hb := hr i hi'
    rw [Nat.zero_add,Mem.ofList_lt bs (by omega)] at hb
    simpa using hb
  · intro ht
    rw [Mem.read_eq_iff]
    intro i hi
    have hlen : name.length ≤ bs.length := by
      have hl := congrArg List.length ht
      simp at hl
      omega
    rw [Nat.zero_add,Mem.ofList_lt bs (by omega)]
    have hg := List.getElem_of_eq ht (by simpa using ⟨hi,by omega⟩ : i < (bs.take name.length).length)
    simpa using hg

section OneLine

variable {l : Line}

theorem length_toNat (hlen : l.held.length ≤ 4095) : l.length.toNat = l.held.length := by
  simp only [Line.length,UInt16.toNat_ofNat']
  omega

theorem matches_names (hlen : l.held.length ≤ 4095) {c : CmdAsciiCmd} (hc : c ∈ cmdfunc) :
    Matches (Mem.ofList l.bytes) l.length c ↔ l.Names c := by
  rw [Matches,Line.Names,ofList_read_eq (cmdName_nonzero c hc),ofList_eq_space,
    length_toNat hlen]

theorem held_agrees {i : Nat} (h : i < l.held.length) :
    Mem.ofList l.bytes i = Mem.ofList l.held i := by
  simp [Mem.ofList,Line.bytes,List.getD_eq_getElem?_getD,List.getElem?_append_left h]

theorem stale_head : Mem.ofList l.bytes l.held.length = l.stale.head?.getD 0 := by
  obtain ⟨held,stale⟩ := l
  cases stale <;> simp [Mem.ofList,Line.bytes,List.getD_eq_getElem?_getD]

theorem zero_before_stale (h : 0 ∈ l.held ∨ l.stale.head?.getD 0 = 0) :
    ∃ k ≤ l.held.length, Mem.ofList l.bytes k = 0 ∧
      ∀ i ≤ k, Mem.ofList l.bytes i = Mem.ofList l.held i := by
  rcases h with h | h
  · obtain ⟨k,hk,hz⟩ := List.mem_iff_getElem.1 h
    refine ⟨k,by omega,?_,fun i hi => held_agrees (by omega)⟩
    rw [held_agrees hk,Mem.ofList_lt _ hk,hz]
  · refine ⟨l.held.length,Nat.le_refl _,by rw [stale_head,h],fun i hi => ?_⟩
    by_cases hi' : i < l.held.length
    · exact held_agrees hi'
    · have he : i = l.held.length := by omega
      rw [he,stale_head,h,Mem.ofList_ge _ (Nat.le_refl _)]

theorem clean_parsed : l.clean.parsed = (l.length, cmdAsciiParse (Mem.ofList l.held) l.length) := by
  simp [Line.parsed,Line.clean,Line.length,Line.bytes]

theorem Matches.of_clean {c : CmdAsciiCmd} (h : Matches (Mem.ofList l.held) l.length c)
    (hlen : l.held.length ≤ 4095) (hc : c ∈ cmdfunc) :
    Matches (Mem.ofList l.bytes) l.length c := by
  have hle := h.length_le hc (Mem.ofList_ge l.held (Nat.le_refl _))
  obtain ⟨hname,hsep⟩ := h
  constructor
  · have hread : (Mem.ofList l.bytes).read 0 c.cmdName.length =
        (Mem.ofList l.held).read 0 c.cmdName.length :=
      Mem.read_congr fun i hi => held_agrees (show 0 + i < l.held.length by omega)
    rw [hread,hname]
  · by_cases he : c.cmdName.length = l.held.length
    · exact .inl (by rw [length_toNat hlen,he])
    · rw [held_agrees (show c.cmdName.length < l.held.length by omega)]
      exact hsep

theorem sameCall_of_zero (hlen : l.held.length ≤ 4095)
    (h : 0 ∈ l.held ∨ l.stale.head?.getD 0 = 0) :
    SameCall l.parsed l.clean.parsed := by
  obtain ⟨k,hk,hz,hsame⟩ := zero_before_stale h
  have hz' : Mem.ofList l.held k = 0 := by rw [← hsame k (Nat.le_refl k),hz]
  have hfind : cmdfunc.find? (fun c => decide (Matches (Mem.ofList l.bytes) l.length c)) =
      cmdfunc.find? (fun c => decide (Matches (Mem.ofList l.held) l.length c)) := by
    apply List.find?_congr
    intro c hc
    apply decide_eq_decide.2
    exact ⟨fun hm => hm.congr hc hz hsame,
      fun hm => hm.congr hc hz' fun i hi => (hsame i hi).symm⟩
  rw [clean_parsed,Line.parsed,cmdAsciiParse,cmdAsciiParse,searchCmd_eq_find,
    searchCmd_eq_find,hfind]
  cases hf : cmdfunc.find? (fun c => decide (Matches (Mem.ofList l.held) l.length c)) with
  | none => trivial
  | some c =>
    have hc := List.mem_of_find?_eq_some hf
    have hm : Matches (Mem.ofList l.held) l.length c := by simpa using List.find?_some hf
    have hle := hm.length_le hc hz'
    have hn : (UInt16.ofNat c.cmdName.length).toNat = c.cmdName.length := by
      rw [UInt16.toNat_ofNat']
      omega
    refine ⟨rfl,rfl,?_,fun i hi => ?_⟩
    · show c.cmdName.length + (l.length - UInt16.ofNat c.cmdName.length).toNat = l.length.toNat
      rw [UInt16.toNat_sub_of_le _ _ (by rw [UInt16.le_iff_toNat_le,hn,length_toNat hlen]; omega),
        hn,length_toNat hlen]
      omega
    · apply hsame
      by_contra hgt
      apply hi (k - c.cmdName.length) (by omega)
      show Mem.ofList l.held (c.cmdName.length + (k - c.cmdName.length)) = 0
      rw [Nat.add_sub_cancel' hle,hz']

theorem zero_of_sameCall (hlen : l.held.length ≤ 4095)
    (h : SameCall l.parsed l.clean.parsed) {c : CmdAsciiCmd} (hc : c ∈ cmdfunc) (hnames : l.Names c) : 0 ∈ l.held ∨ l.stale.head?.getD 0 = 0 := by
  by_contra hn
  obtain ⟨hheld,hstale⟩ := not_or.1 hn
  rw [clean_parsed,Line.parsed,cmdAsciiParse,cmdAsciiParse,searchCmd_eq_find,
    searchCmd_eq_find] at h
  have hz : Mem.ofList l.held l.held.length = 0 := Mem.ofList_ge _ (Nat.le_refl _)
  cases hf : cmdfunc.find? (fun c => decide (Matches (Mem.ofList l.bytes) l.length c)) with
  | none =>
    have hno := List.find?_eq_none.1 hf c hc
    exact hno (by simpa using (matches_names hlen hc).2 hnames)
  | some d =>
    cases hf' : cmdfunc.find? (fun c => decide (Matches (Mem.ofList l.held) l.length c)) with
    | none => simp [hf,hf',SameCall] at h
    | some d' =>
      simp only [hf,hf',Option.map_some,SameCall,callOf] at h
      obtain ⟨rfl,_,_,htext⟩ := h
      have hd := List.mem_of_find?_eq_some hf'
      have hm : Matches (Mem.ofList l.held) l.length d := by simpa using List.find?_some hf'
      have hle := hm.length_le hd hz
      have hend := htext (l.held.length - d.cmdName.length) fun j hj => by
        have hlt : d.cmdName.length + j < l.held.length := by omega
        simp only [Mem.shift_apply,Mem.ofList_lt _ hlt]
        exact fun h0 => hheld (h0 ▸ List.getElem_mem hlt)
      simp only [Mem.shift_apply,Nat.add_sub_cancel' hle,stale_head,hz] at hend
      exact hstale hend

/-- Exactly when editing a line makes no difference to what is called. -/
theorem sameCall_iff (hlen : l.held.length ≤ 4095) :
    SameCall l.parsed l.clean.parsed ↔ l.Settled := by
  constructor
  · intro h
    by_cases hz : 0 ∈ l.held ∨ l.stale.head?.getD 0 = 0
    · exact .inl hz
    · exact .inr fun c hc hnames => hz (zero_of_sameCall hlen h hc hnames)
  · rintro (hz | hnone)
    · exact sameCall_of_zero hlen hz
    · have hno : ∀ c ∈ cmdfunc, ¬ Matches (Mem.ofList l.bytes) l.length c := fun c hc hm =>
        hnone c hc ((matches_names hlen hc).1 hm)
      have hno' : ∀ c ∈ cmdfunc, ¬ Matches (Mem.ofList l.held) l.length c := fun c hc hm =>
        hno c hc (hm.of_clean hlen hc)
      have hf : searchCmd (Mem.ofList l.bytes) l.length cmdfunc = none := by
        rw [searchCmd_eq_find,List.find?_eq_none.2 (by simpa using hno),Option.map_none]
      have hf' : searchCmd (Mem.ofList l.held) l.length cmdfunc = none := by
        rw [searchCmd_eq_find,List.find?_eq_none.2 (by simpa using hno'),Option.map_none]
      rw [clean_parsed,Line.parsed,cmdAsciiParse,cmdAsciiParse,hf,hf']
      trivial

end OneLine

theorem lines_held_le {o : Option Line} {bs : List UInt8} (h : LinesFit o bs) :
    ∀ l ∈ lines o bs, l.held.length ≤ 4095 := by
  induction bs generalizing o with
  | nil => cases o <;> simp [lines]
  | cons b bs ih =>
    intro l hl
    rw [lines_cons] at hl
    rcases List.mem_append.1 hl with hl | hl
    · cases o with
      | none => simp at hl
      | some l' =>
        by_cases he : EndsLine b
        · obtain rfl : l = l' := by simpa [he] using hl
          exact h.held_le
        · simp [he] at hl
    · exact ih h.next l hl

theorem dispatches_edit {bs : List UInt8} (h : LinesFit none bs) :
    dispatches (edit bs) = .ok ((lines none bs).map fun l => l.clean.parsed) := by
  have hfit := editFrom_fit none bs (by simp) h
  have hlines := editFrom_lines none bs (by simp)
  rw [Option.map_none] at hfit hlines
  rw [edit,dispatches_lines _ hfit,hlines,List.map_map]
  rfl

theorem calls_same_iff {ls : List Line} (h : ∀ l ∈ ls, l.held.length ≤ 4095) :
    List.Forall₂ SameCall (ls.map Line.parsed) (ls.map fun l => l.clean.parsed) ↔
      ∀ l ∈ ls, l.Settled := by
  induction ls with
  | nil => simp
  | cons l ls ih =>
    have hi := ih fun m hm => h m (by simp [hm])
    simp only [List.map_cons,List.forall₂_cons,List.forall_mem_cons,hi,
      sameCall_iff (h l (by simp))]

def Transparent (bs : List UInt8) : Prop :=
  ∃ calls edited, dispatches bs = .ok calls ∧ dispatches (edit bs) = .ok edited ∧
    List.Forall₂ SameCall calls edited

theorem transparent_iff_calls {bs : List UInt8} (h : LinesFit none bs) :
    Transparent bs ↔ List.Forall₂ SameCall ((lines none bs).map Line.parsed)
      ((lines none bs).map fun l => l.clean.parsed) := by
  constructor
  · rintro ⟨calls,edited,hc,he,hsame⟩
    rw [dispatches_lines _ h] at hc
    rw [dispatches_edit h] at he
    cases hc
    cases he
    exact hsame
  · intro hsame
    exact ⟨_,_,dispatches_lines _ h,dispatches_edit h,hsame⟩

/-- A stream is dispatched like the edited one exactly if each of its lines is settled. -/
theorem backspace_transparent_iff {bs : List UInt8} (h : LinesFit none bs) :
    Transparent bs ↔ ∀ l ∈ lines none bs, l.Settled := by
  rw [transparent_iff_calls h]
  exact calls_same_iff (lines_held_le h)

theorem backspace_transparent_iff_retyped :
    LinesFit none (0x24 :: ascii "R 02" ++ 0x08 :: ascii "1\r") ∧
      (Transparent (0x24 :: ascii "R 02" ++ 0x08 :: ascii "1\r") ↔
        ∀ l ∈ lines none (0x24 :: ascii "R 02" ++ 0x08 :: ascii "1\r"), l.Settled) := by
  have hfit : LinesFit none (0x24 :: ascii "R 02" ++ 0x08 :: ascii "1\r") := by
    simp [LinesFit,lineNext,Line.next,Line.typed,Line.erased,ascii,EndsLine]
  exact ⟨hfit,backspace_transparent_iff hfit⟩

/-- `$$FGET abc` with the `c` erased still calls with `abc`. -/
theorem erased_byte_seen : ¬ ∀ bs : List UInt8, LinesFit none bs → Transparent bs := by
  intro h
  have hfit : LinesFit none (0x24 :: ascii "$FGET abc" ++ 0x08 :: ascii "\r") := by
    simp [LinesFit,lineNext,Line.next,Line.typed,Line.erased,ascii,EndsLine]
  have hcalls := (transparent_iff_calls hfit).1 (h _ hfit)
  have hl := (calls_same_iff (lines_held_le hfit)).1 hcalls ⟨ascii "$FGET ab",ascii "c"⟩ (by decide)
  rcases hl with (hz | hz) | hn
  · revert hz; decide
  · revert hz; decide
  · exact hn ⟨ascii "$FGET",.cmdAsciiCmdFget⟩ (by decide) ⟨by decide,.inr (by decide)⟩

/-- A line erased to its start and ended there: the length passed on wraps around. -/
example : ((Line.mk [] (ascii "W 1")).parsed.2.map CmdCall.inLen) = some 65535 := by decide

end SipfClient.Command
