import SipfClient.TxCommand
set_option autoImplicit false

namespace SipfClient.Command
open ByteMem HexText Loops LengthRecords Object Http

structure TxObject where
  tag : List UInt8
  type : List UInt8
  digits : List UInt8
  deriving DecidableEq, Repr

structure TxRead where
  obj : TxObject
  tag : UInt8
  kind : UInt8
  value : List UInt8
  tagText : bytesOf obj.tag = some [tag]
  kindText : bytesOf obj.type = some [kind]
  valueText : bytesOf obj.digits = some value

def TxObject.text (o : TxObject) : List UInt8 :=
  0x20 :: o.tag ++ 0x20 :: o.type ++ 0x20 :: o.digits

def TxRead.text (r : TxRead) : List UInt8 := r.obj.text

def TxRead.lenByte (r : TxRead) : UInt8 := UInt8.ofNat r.value.length

def TxRead.wire (r : TxRead) : List UInt8 := r.kind :: r.tag :: r.lenByte :: r.value

def TxRead.Checked (r : TxRead) : Prop := checkTypeLen r.kind r.lenByte.toUInt16 = true

theorem wire_length (r : TxRead) : r.wire.length = 3 + r.value.length := by
  simp [TxRead.wire]
  omega

theorem text_length (r : TxRead) : r.text.length = 7 + 2 * r.value.length := by
  have htag := bytesOf_length r.tagText
  have hkind := bytesOf_length r.kindText
  have hvalue := bytesOf_length r.valueText
  simp only [TxRead.text,TxObject.text,List.length_append,List.length_cons,List.length_nil] at htag hkind ⊢
  omega

theorem texts_length (rs : List TxRead) :
    3 * (rs.flatMap TxRead.text).length ≤ 7 * (rs.flatMap TxRead.wire).length := by
  induction rs with
  | nil => simp
  | cons r rs ih =>
    simp only [List.flatMap_cons,List.length_append,text_length,wire_length]
    omega

theorem bytesOf_pair {a b v : UInt8} (h : pairValue a b = some v) : bytesOf [a,b] = some [v] := by
  simp [bytesOf,h]

theorem bytesOf_append {ds bs : List UInt8} (h : bytesOf ds = some bs) {a b v : UInt8}
    (hv : pairValue a b = some v) : bytesOf (ds ++ [a,b]) = some (bs ++ [v]) := by
  induction ds using bytesOf.induct generalizing bs with
  | case1 =>
    cases h
    exact bytesOf_pair hv
  | case2 hi lo rest ih =>
    simp only [bytesOf,bind,Option.bind_eq_some_iff] at h
    obtain ⟨w,hw,ws,hws,hlast⟩ := h
    cases hlast
    simp [bytesOf,hw,ih hws]
  | case3 c => simp [bytesOf] at h

theorem pairValue_no_space {a b v : UInt8} (h : pairValue a b = some v) : a ≠ 0x20 ∧ b ≠ 0x20 := by
  simp only [pairValue,bind,Option.bind_eq_some_iff] at h
  obtain ⟨hi,hhi,lo,hlo,_⟩ := h
  exact ⟨digitValue_ne_space hhi,digitValue_ne_space hlo⟩

theorem bytesOf_no_space {ds bs : List UInt8} (h : bytesOf ds = some bs) : (0x20 : UInt8) ∉ ds := by
  induction ds using bytesOf.induct generalizing bs with
  | case1 => simp
  | case2 hi lo rest ih =>
    simp only [bytesOf,bind,Option.bind_eq_some_iff] at h
    obtain ⟨w,hw,ws,hws,_⟩ := h
    obtain ⟨h1,h2⟩ := pairValue_no_space hw
    simp [ih hws,Ne.symm h1,Ne.symm h2]
  | case3 c => simp [bytesOf] at h

theorem u16_small {n : Nat} (h : n < 65536) : u16 n = n := Nat.mod_eq_of_lt h

def Stage (m : Mem) (len : Nat) (s : TxParse) : Prop :=
  match s.parseState with
  | .begin => s.idxInBuff = 0 ∧ s.idxTxBuff = 0
  | .tagId => ∃ rs : List TxRead, (∀ r ∈ rs, r.Checked) ∧
      m.read 0 s.idxInBuff = rs.flatMap TxRead.text ++ [0x20] ∧
      s.txBuff.read 0 s.idxTxBuff = rs.flatMap TxRead.wire
  | .type => ∃ (rs : List TxRead) (tag : List UInt8), (∀ r ∈ rs, r.Checked) ∧
      m.read 0 s.idxInBuff = rs.flatMap TxRead.text ++ 0x20 :: tag ++ [0x20] ∧
      bytesOf tag = some [s.tagId] ∧
      s.txBuff.read 0 s.idxTxBuff = rs.flatMap TxRead.wire
  | .value => ∃ (rs : List TxRead) (r : TxRead), (∀ r ∈ rs, r.Checked) ∧
      m.read 0 s.idxInBuff = rs.flatMap TxRead.text ++ r.text ∧
      r.kind = s.typeId ∧ r.lenByte = s.valueLen ∧
      s.idxTxBuff = s.idxValueLen + 1 + r.value.length ∧
      s.txBuff.read 0 s.idxValueLen = rs.flatMap TxRead.wire ++ [r.kind,r.tag] ∧
      s.txBuff.read (s.idxValueLen + 1) r.value.length = r.value ∧
      (s.idxInBuff ≤ len + 1 ∨ r.value = [])
  | .done => ∃ (rs : List TxRead) (r : TxRead), (∀ q ∈ rs ++ [r], q.Checked) ∧
      m.read 0 s.idxInBuff = rs.flatMap TxRead.text ++ r.text ∧
      s.txBuff.read 0 s.idxTxBuff = (rs ++ [r]).flatMap TxRead.wire ∧
      (s.idxInBuff ≤ len + 1 ∨ r.value = []) ∧ len ≤ s.idxInBuff

/-- Only the reading of a value looks for the end of the line, so the two fields in
front of it can run over the end. -/
def slack : TxState → Nat
  | .begin => 0
  | .tagId => 0
  | .type => 3
  | .value => 6
  | .done => 6

structure TxInv (m : Mem) (len : Nat) (s : TxParse) : Prop where
  ahead : ∀ i, s.idxInBuff ≤ i → s.inBuff i = m i
  inside : s.idxInBuff ≤ len + slack s.parseState
  room : s.idxTxBuff ≤ txBuffSz + 1
  stage : Stage m len s

section Steps

variable {m : Mem} {len : Nat} {s s' : TxParse}

/-- `tx_buff` is full before the index into the line can wrap around. -/
theorem TxInv.pace (h : TxInv m len s) : s.idxInBuff ≤ 4000 := by
  have hroom := h.room
  rw [txBuffSz] at hroom
  have hstage := h.stage
  suffices 3 * s.idxInBuff ≤ 7 * s.idxTxBuff + 12 by omega
  cases hst : s.parseState with
  | begin =>
    simp only [Stage,hst] at hstage
    omega
  | tagId =>
    simp only [Stage,hst] at hstage
    obtain ⟨rs,-,hread,htx⟩ := hstage
    have hin := congrArg List.length hread
    have hout := congrArg List.length htx
    have hpace := texts_length rs
    simp only [Mem.read_length,List.length_append,List.length_singleton] at hin hout
    omega
  | type =>
    simp only [Stage,hst] at hstage
    obtain ⟨rs,tag,-,hread,htag,htx⟩ := hstage
    have hin := congrArg List.length hread
    have hout := congrArg List.length htx
    have hpace := texts_length rs
    have htag := bytesOf_length htag
    simp only [Mem.read_length,List.length_append,List.length_cons,List.length_nil] at hin hout htag
    omega
  | value =>
    simp only [Stage,hst] at hstage
    obtain ⟨rs,r,-,hread,-,-,hidx,hhead,-,-⟩ := hstage
    have hin := congrArg List.length hread
    have hout := congrArg List.length hhead
    have hpace := texts_length rs
    simp only [Mem.read_length,List.length_append,text_length,List.length_cons,List.length_nil] at hin hout
    omega
  | done =>
    simp only [Stage,hst] at hstage
    obtain ⟨rs,r,-,hread,htx,-,-⟩ := hstage
    have hin := congrArg List.length hread
    have hout := congrArg List.length htx
    have hpace := texts_length (rs ++ [r])
    simp only [Mem.read_length] at hin hout
    simp only [List.flatMap_append,List.flatMap_singleton,List.length_append] at hin hout hpace
    omega

theorem stBegin_inv (hpos : 0 < len) (h : TxInv m len s) (hst : s.parseState = .begin)
    (hs : stBegin s = .inl s') : TxInv m len s' := by
  have hstage := h.stage
  simp only [Stage,hst] at hstage
  obtain ⟨hidx,htx⟩ := hstage
  simp only [stBegin] at hs
  split_ifs at hs with hsep
  · cases hs
    have hm : m 0 = 0x20 := by rw [← h.ahead 0 (by omega),← hidx,hsep]
    have hu : u16 (s.idxInBuff + 1) = 1 := by rw [hidx]; rfl
    refine ⟨fun i hi => h.ahead i (by omega),?_,by simp [htx],?_⟩
    · simp only [hu,slack]
      omega
    · refine ⟨[],by simp,?_,by simp [htx]⟩
      simp [hu,Mem.read_succ,hm]
  · exact absurd hs (by simp [refuse])

theorem digits_kept (m : Mem) (i : Nat) :
    (m.set (i + 2) 0).shift i 0 = m i ∧ (m.set (i + 2) 0).shift i 1 = m (i + 1) := by
  constructor
  · rw [Mem.shift_apply,Mem.set_other _ _ (by omega),Nat.add_zero]
  · rw [Mem.shift_apply,Mem.set_other _ _ (by omega)]

theorem digits_ahead (h : TxInv m len s) :
    (s.inBuff.set (s.idxInBuff + 2) 0).shift s.idxInBuff 0 = m s.idxInBuff ∧
    (s.inBuff.set (s.idxInBuff + 2) 0).shift s.idxInBuff 1 = m (s.idxInBuff + 1) := by
  obtain ⟨h0,h1⟩ := digits_kept s.inBuff s.idxInBuff
  rw [h0,h1]
  exact ⟨h.ahead _ (Nat.le_refl _),h.ahead _ (by omega)⟩

theorem ahead_overwritten (h : TxInv m len s) (i : Nat) (hi : s.idxInBuff + 3 ≤ i) :
    (s.inBuff.set (s.idxInBuff + 2) 0) i = m i := by
  rw [Mem.set_other _ _ (by omega)]
  exact h.ahead _ (by omega)

theorem read_field {i : Nat} (hsep : m (i + 2) = 0x20) :
    m.read 0 (i + 3) = m.read 0 i ++ [m i,m (i + 1)] ++ [0x20] := by
  rw [Mem.read_add,Nat.zero_add]
  simp [Mem.read_succ,hsep]

theorem field_read (h : TxInv m len s) :
    (hexToUint8 ((s.inBuff.set (s.idxInBuff + 2) 0).shift s.idxInBuff)).2 ≠ 0 ∨
    ∃ v, pairValue (m s.idxInBuff) (m (s.idxInBuff + 1)) = some v ∧
      hexToUint8 ((s.inBuff.set (s.idxInBuff + 2) 0).shift s.idxInBuff) = (v, 0) := by
  obtain ⟨hd0,hd1⟩ := digits_ahead h
  cases hp : pairValue (m s.idxInBuff) (m (s.idxInBuff + 1)) with
  | none => exact .inl (hexToUint8_err (by rw [hd0,hd1,hp]))
  | some v => exact .inr ⟨v,rfl,hexToUint8_ok (by rw [hd0,hd1,hp])⟩

/-- What `stTagId` and `stType` have in common: a byte in two characters, and a space. -/
def readField (s : TxParse) (next : UInt8 → TxNext) : TxNext :=
  if s.inBuff (s.idxInBuff + 2) = 0x20 then
    let r := hexToUint8 ((s.inBuff.set (s.idxInBuff + 2) 0).shift s.idxInBuff)
    if r.2 ≠ 0 then refuse else next r.1
  else refuse

theorem readField_cases (h : TxInv m len s) (next : UInt8 → TxNext) : readField s next = refuse ∨
    ∃ v, pairValue (m s.idxInBuff) (m (s.idxInBuff + 1)) = some v ∧ m (s.idxInBuff + 2) = 0x20 ∧
      readField s next = next v := by
  simp only [readField]
  by_cases hsep : s.inBuff (s.idxInBuff + 2) = 0x20
  · rw [if_pos hsep]
    rcases field_read h with herr | ⟨v,hp,hv⟩
    · exact .inl (if_pos herr)
    · rw [hv]
      exact .inr ⟨v,hp,by rw [← h.ahead _ (by omega),hsep],rfl⟩
  · exact .inl (if_neg hsep)

theorem stTagId_eq (s : TxParse) : stTagId s = readField s fun v => .inl { s with
    inBuff := s.inBuff.set (s.idxInBuff + 2) 0
    tagId := v, idxInBuff := u16 (s.idxInBuff + 3), parseState := .type } := rfl

theorem stType_eq (s : TxParse) : stType s = readField s fun v => goOn (do
    let txBuff ← s.txBuff.store txBuffSz s.idxTxBuff [v]
    let txBuff ← txBuff.store txBuffSz (u16 (s.idxTxBuff + 1)) [s.tagId]
    pure { s with
      inBuff := s.inBuff.set (s.idxInBuff + 2) 0
      typeId := v, idxInBuff := u16 (s.idxInBuff + 3), txBuff := txBuff
      idxValueLen := u16 (s.idxTxBuff + 2), idxTxBuff := u16 (s.idxTxBuff + 3), valueLen := 0
      parseState := .value }) := rfl

theorem stTagId_inv (h : TxInv m len s) (hst : s.parseState = .tagId) (hs : stTagId s = .inl s') : TxInv m len s' := by
  have hstage := h.stage
  simp only [Stage,hst] at hstage
  obtain ⟨rs,hchk,hread,htx⟩ := hstage
  have hin := h.inside
  simp only [hst,slack] at hin
  have hpace := h.pace
  rw [stTagId_eq] at hs
  rcases readField_cases h _ with hno | ⟨v,hp,hsep,hrun⟩
  · rw [hno] at hs
    exact absurd hs (by simp [refuse])
  · rw [hrun] at hs
    cases hs
    have hu : u16 (s.idxInBuff + 3) = s.idxInBuff + 3 := u16_small (by omega)
    refine ⟨fun i hi => ahead_overwritten h i (by simpa [hu] using hi),?_,h.room,?_⟩
    · simp only [hu,slack]
      omega
    refine ⟨rs,[m s.idxInBuff,m (s.idxInBuff + 1)],hchk,?_,bytesOf_pair hp,htx⟩
    simp [hu,read_field hsep,hread]

theorem goOn_inl {x : Except OutOfBounds TxParse} (h : goOn x = .inl s') : x = .ok s' := by
  cases x with
  | error e => simp [goOn] at h
  | ok t => simpa [goOn] using h

theorem flatMap_snoc {α : Type} (f : α → List UInt8) (rs : List α) (r : α) :
    (rs ++ [r]).flatMap f = rs.flatMap f ++ f r := by simp

theorem stType_inv (h : TxInv m len s) (hst : s.parseState = .type) (hs : stType s = .inl s') : TxInv m len s' := by
  have hstage := h.stage
  simp only [Stage,hst] at hstage
  obtain ⟨rs,tag,hchk,hread,htag,htx⟩ := hstage
  have hin := h.inside
  simp only [hst,slack] at hin
  have hroom := h.room
  have hpace := h.pace
  rw [stType_eq] at hs
  rcases readField_cases h _ with hno | ⟨v,hp,hsep,hrun⟩
  · rw [hno] at hs
    exact absurd hs (by simp [refuse])
  · rw [hrun] at hs
    have hok := goOn_inl hs
    cases h1 : s.txBuff.store txBuffSz s.idxTxBuff [v] with
    | error e => simp [h1,bind,Except.bind] at hok
    | ok t1 =>
      obtain ⟨hfit1,rfl⟩ := Mem.store_eq_ok h1
      have hu1 : u16 (s.idxTxBuff + 1) = s.idxTxBuff + 1 :=
        u16_small (by simp only [txBuffSz] at hroom; omega)
      simp only [h1,hu1,bind,Except.bind] at hok
      cases h2 : (s.txBuff.copy s.idxTxBuff [v]).store txBuffSz (s.idxTxBuff + 1) [s.tagId] with
      | error e => simp [h2] at hok
      | ok t2 =>
        obtain ⟨hfit2,rfl⟩ := Mem.store_eq_ok h2
        simp only [h2,pure,Except.pure,Except.ok.injEq] at hok
        cases hok
        simp only [txBuffSz,List.length_singleton] at hroom hfit2
        have hu : u16 (s.idxInBuff + 3) = s.idxInBuff + 3 := u16_small (by omega)
        have hu2 : u16 (s.idxTxBuff + 2) = s.idxTxBuff + 2 := u16_small (by omega)
        have hu3 : u16 (s.idxTxBuff + 3) = s.idxTxBuff + 3 := u16_small (by omega)
        refine ⟨fun i hi => ahead_overwritten h i (by simpa [hu] using hi),
          by simp only [hu,slack]; omega,by simp only [hu3,txBuffSz]; omega,?_⟩
        refine ⟨rs,⟨⟨tag, [m s.idxInBuff,m (s.idxInBuff + 1)], []⟩, s.tagId, v, [], htag,
          bytesOf_pair hp, rfl⟩,hchk,?_,rfl,rfl,by simp [hu2,hu3],?_,rfl,.inr rfl⟩
        · simp [hu,read_field hsep,hread,TxRead.text,TxObject.text]
        · have ha := Mem.read_copy_append (s.txBuff.copy s.idxTxBuff [v]) (s.idxTxBuff + 1)
            [s.tagId]
          have hb := Mem.read_copy_append s.txBuff s.idxTxBuff [v]
          simp only [List.length_singleton,Nat.add_assoc] at ha hb
          simp [hu2,ha,hb,htx]

theorem closeValue_inl {next : TxState} {idx : Nat} (hs : closeValue s next idx = .inl s') :
    checkTypeLen s.typeId s.valueLen.toUInt16 = true ∧ s.idxValueLen + 1 ≤ txBuffSz ∧
      s' = { s with
        txBuff := s.txBuff.copy s.idxValueLen [s.valueLen], parseState := next,
        idxInBuff := idx } := by
  simp only [closeValue] at hs
  split_ifs at hs with hchk
  · exact absurd hs (by simp [refuse])
  · have hok := goOn_inl hs
    cases h1 : s.txBuff.store txBuffSz s.idxValueLen [s.valueLen] with
    | error e => simp [h1,bind,Except.bind] at hok
    | ok t1 =>
      obtain ⟨hfit1,rfl⟩ := Mem.store_eq_ok h1
      simp only [h1,bind,Except.bind,pure,Except.pure,Except.ok.injEq] at hok
      exact ⟨by simpa using hchk,by simpa using hfit1,hok.symm⟩

theorem read_closed {t : Mem} {done : List UInt8} {r : TxRead} {i : Nat}
    (hhead : t.read 0 i = done ++ [r.kind,r.tag]) (hvalue : t.read (i + 1) r.value.length = r.value) :
    (t.copy i [r.lenByte]).read 0 (i + 1 + r.value.length) = done ++ r.wire := by
  have ha := Mem.read_copy_append t i [r.lenByte]
  have hb : (t.copy i [r.lenByte]).read (i + 1) r.value.length = t.read (i + 1) r.value.length :=
    Mem.read_congr fun j _ => Mem.copy_after _ _ _ (by simp)
  simp only [List.length_singleton] at ha
  rw [Mem.read_add,Nat.zero_add,ha,hb,hhead,hvalue]
  simp [TxRead.wire]

theorem closeValue_inv (h : TxInv m len s) (hst : s.parseState = .value) {next : TxState}
    {idx : Nat} (hs : closeValue s next idx = .inl s') :
    ∃ (rs : List TxRead) (r : TxRead), (∀ q ∈ rs ++ [r], q.Checked) ∧
      m.read 0 s.idxInBuff = rs.flatMap TxRead.text ++ r.text ∧
      s'.txBuff.read 0 s.idxTxBuff = (rs ++ [r]).flatMap TxRead.wire ∧
      (s.idxInBuff ≤ len + 1 ∨ r.value = []) ∧
      s'.inBuff = s.inBuff ∧ s'.idxTxBuff = s.idxTxBuff ∧ s'.parseState = next ∧
      s'.idxInBuff = idx := by
  have hstage := h.stage
  simp only [Stage,hst] at hstage
  obtain ⟨rs,r,hchk,hread,hkind,hlenb,hidx,hhead,hvalue,hend⟩ := hstage
  obtain ⟨hc,_,rfl⟩ := closeValue_inl hs
  refine ⟨rs,r,?_,hread,?_,hend,rfl,rfl,rfl,rfl⟩
  · intro q hq
    rcases List.mem_append.1 hq with hq | hq
    · exact hchk q hq
    · obtain rfl := List.mem_singleton.1 hq
      rw [TxRead.Checked,hkind,hlenb]
      exact hc
  · rw [flatMap_snoc,hidx,← hlenb]
    exact read_closed hhead hvalue

theorem stValue_byte (hend : ¬ len ≤ s.idxInBuff) (hsep : s.inBuff s.idxInBuff ≠ 0x20)
    (hs : stValue len s = .inl s') :
    ∃ v, pairValue (s.inBuff s.idxInBuff) (s.inBuff (s.idxInBuff + 1)) = some v ∧
      s.idxTxBuff + 1 ≤ txBuffSz ∧
      s' = { s with
        txBuff := s.txBuff.copy s.idxTxBuff [v], idxTxBuff := u16 (s.idxTxBuff + 1),
        valueLen := s.valueLen + 1, idxInBuff := u16 (s.idxInBuff + 2) } := by
  simp only [stValue,if_neg hend,if_neg hsep] at hs
  cases hst : s.txBuff.store txBuffSz s.idxTxBuff [(hexToUint8 (s.inBuff.shift s.idxInBuff)).1] with
  | error e => simp [hst] at hs
  | ok t =>
    obtain ⟨hfit,rfl⟩ := Mem.store_eq_ok hst
    simp only [hst] at hs
    cases hp : pairValue (s.inBuff s.idxInBuff) (s.inBuff (s.idxInBuff + 1)) with
    | none =>
      have herr := hexToUint8_err (m := s.inBuff.shift s.idxInBuff) hp
      rw [if_pos herr] at hs
      exact absurd hs (by simp [refuse])
    | some v =>
      have hhex := hexToUint8_ok (m := s.inBuff.shift s.idxInBuff) hp
      simp only [hhex,ne_eq,not_true_eq_false,if_false,Sum.inl.injEq] at hs
      exact ⟨v,rfl,by simpa using hfit,hs.symm⟩

def TxRead.more (r : TxRead) {a b v : UInt8} (h : pairValue a b = some v) : TxRead :=
  ⟨{ r.obj with digits := r.obj.digits ++ [a,b] }, r.tag, r.kind, r.value ++ [v], r.tagText,
    r.kindText, bytesOf_append r.valueText h⟩

theorem TxRead.more_text (r : TxRead) {a b v : UInt8} (h : pairValue a b = some v) :
    (r.more h).text = r.text ++ [a,b] := by
  simp [TxRead.text,TxObject.text,TxRead.more]

theorem TxRead.more_lenByte (r : TxRead) {a b v : UInt8} (h : pairValue a b = some v) :
    (r.more h).lenByte = r.lenByte + 1 := by
  simp [TxRead.lenByte,TxRead.more]

theorem stValue_inv (h : TxInv m len s) (hst : s.parseState = .value)
    (hs : stValue len s = .inl s') : TxInv m len s' := by
  have hin := h.inside
  simp only [hst,slack] at hin
  have hroom := h.room
  have hpace := h.pace
  by_cases hend : len ≤ s.idxInBuff
  · simp only [stValue,if_pos hend] at hs
    obtain ⟨rs,r,hchk,hread,htx,hshort,hbuff,hidx,hstate,hnext⟩ := closeValue_inv h hst hs
    refine ⟨by rw [hbuff,hnext]; exact h.ahead,by rw [hnext,hstate]; exact hin,
      by rw [hidx]; exact hroom,?_⟩
    simp only [Stage,hstate,hidx,hnext]
    exact ⟨rs,r,hchk,hread,htx,hshort,hend⟩
  by_cases hsep : s.inBuff s.idxInBuff = 0x20
  · simp only [stValue,if_neg hend,if_pos hsep] at hs
    have hsep' : m s.idxInBuff = 0x20 := by rw [← h.ahead _ (Nat.le_refl _),hsep]
    have hu : u16 (s.idxInBuff + 1) = s.idxInBuff + 1 := u16_small (by omega)
    obtain ⟨rs,r,hchk,hread,htx,_,hbuff,hidx,hstate,hnext⟩ := closeValue_inv h hst hs
    rw [hu] at hnext
    refine ⟨fun i hi => ?_,by rw [hnext,hstate,slack]; omega,by rw [hidx]; exact hroom,?_⟩
    · rw [hbuff]
      exact h.ahead i (by omega)
    · simp only [Stage,hstate,hidx,hnext]
      refine ⟨rs ++ [r],hchk,?_,htx⟩
      rw [flatMap_snoc,Mem.read_add,hread,Nat.zero_add]
      simp [Mem.read_succ,hsep']
  · have hstage := h.stage
    simp only [Stage,hst] at hstage
    obtain ⟨rs,r,hchk,hread,hkind,hlenb,hidx,hhead,hvalue,_⟩ := hstage
    obtain ⟨v,hp,hfit,rfl⟩ := stValue_byte hend hsep hs
    rw [h.ahead _ (Nat.le_refl _),h.ahead _ (by omega)] at hp
    simp only [txBuffSz] at hfit hroom
    have hu : u16 (s.idxInBuff + 2) = s.idxInBuff + 2 := u16_small (by omega)
    have hu1 : u16 (s.idxTxBuff + 1) = s.idxTxBuff + 1 := u16_small (by omega)
    refine ⟨fun i hi => h.ahead i (by simp only [hu] at hi; omega),
      by simp only [hu,hst,slack]; omega,by simp only [hu1,txBuffSz]; omega,?_⟩
    simp only [Stage,hst,hu,hu1]
    refine ⟨rs,r.more hp,hchk,?_,hkind,?_,?_,?_,?_,.inl (by omega)⟩
    · rw [Mem.read_add,hread,Nat.zero_add,TxRead.more_text]
      simp [Mem.read_succ]
    · rw [TxRead.more_lenByte,hlenb]
    · simp only [hidx,TxRead.more,List.length_append,List.length_singleton]
      omega
    · refine Eq.trans ?_ hhead
      exact Mem.read_congr fun i hi => Mem.copy_before _ _ _ (by omega)
    · show Mem.read _ (s.idxValueLen + 1) (r.value ++ [v]).length = r.value ++ [v]
      have hlast := Mem.read_copy s.txBuff s.idxTxBuff [v]
      have hold : (s.txBuff.copy s.idxTxBuff [v]).read (s.idxValueLen + 1) r.value.length =
          s.txBuff.read (s.idxValueLen + 1) r.value.length :=
        Mem.read_congr fun i hi => Mem.copy_before _ _ _ (by omega)
      rw [List.length_append,Mem.read_add,hold,hvalue,← hidx,hlast]

theorem txBody_inv (hpos : 0 < len) (h : TxInv m len s)
    (hs : txBody len s = .inl s') : TxInv m len s' := by
  unfold txBody at hs
  cases hst : s.parseState with
  | begin => exact stBegin_inv hpos h hst (by simpa [hst] using hs)
  | tagId => exact stTagId_inv h hst (by simpa [hst] using hs)
  | type => exact stType_inv h hst (by simpa [hst] using hs)
  | value => exact stValue_inv h hst (by simpa [hst] using hs)
  | done => simp [hst] at hs

theorem goOn_parsed (x : Except OutOfBounds TxParse) (e : TxEnd) : goOn x ≠ .inr (.ok e) := by
  cases x <;> simp [goOn]

theorem txBody_parsed {buf : Mem} {size : UInt16}
    (hs : txBody len s = .inr (.ok (.parsed buf size))) :
    s.parseState = .done ∧ buf = s.txBuff ∧ size = UInt16.ofNat s.idxTxBuff := by
  have hclose : ∀ next idx, closeValue s next idx ≠ .inr (.ok (.parsed buf size)) := by
    intro next idx hc
    simp only [closeValue] at hc
    split_ifs at hc
    · simp [refuse] at hc
    · exact goOn_parsed _ _ hc
  unfold txBody at hs
  cases hst : s.parseState with
  | begin =>
    simp only [hst,stBegin] at hs
    split_ifs at hs
    simp [refuse] at hs
  | tagId =>
    simp only [hst,stTagId] at hs
    split_ifs at hs <;> simp [refuse] at hs
  | type =>
    simp only [hst,stType] at hs
    split_ifs at hs
    · simp [refuse] at hs
    · exact absurd hs (goOn_parsed _ _)
    · simp [refuse] at hs
  | value =>
    simp only [hst,stValue] at hs
    split_ifs at hs
    · exact absurd hs (hclose _ _)
    · exact absurd hs (hclose _ _)
    all_goals
      cases hst1 : s.txBuff.store txBuffSz s.idxTxBuff
          [(hexToUint8 (s.inBuff.shift s.idxInBuff)).1] <;> simp [hst1,refuse] at hs
  | done =>
    simp only [hst,Sum.inr.injEq,Except.ok.injEq,TxEnd.parsed.injEq] at hs
    exact ⟨rfl,hs.1.symm,hs.2.symm⟩

theorem closeValue_moves {next : TxState} {idx : Nat} (hs : closeValue s next idx = .inl s') :
    s'.idxInBuff = idx ∧ s'.parseState = next := by
  obtain ⟨_,_,rfl⟩ := closeValue_inl hs
  exact ⟨rfl,rfl⟩

/-- Every round moves the index on, but for the one that ends a value with the line. -/
theorem txBody_moves (hs : txBody len s = .inl s') :
    (∃ k, 0 < k ∧ k < 4 ∧ s'.idxInBuff = u16 (s.idxInBuff + k)) ∨
      (s.parseState = .value ∧ s'.parseState = .done ∧ s'.idxInBuff = s.idxInBuff) := by
  unfold txBody at hs
  cases hst : s.parseState with
  | begin =>
    simp only [hst,stBegin] at hs
    split_ifs at hs
    · cases hs
      exact .inl ⟨1,by omega,by omega,rfl⟩
    · simp [refuse] at hs
  | tagId =>
    simp only [hst,stTagId] at hs
    split_ifs at hs
    · simp [refuse] at hs
    · cases hs
      exact .inl ⟨3,by omega,by omega,rfl⟩
    · simp [refuse] at hs
  | type =>
    simp only [hst,stType] at hs
    split_ifs at hs
    · simp [refuse] at hs
    · have hok := goOn_inl hs
      simp only [bind,Except.bind,pure,Except.pure] at hok
      split at hok
      · cases hok
      split at hok
      · cases hok
      · cases hok
        exact .inl ⟨3,by omega,by omega,rfl⟩
    · simp [refuse] at hs
  | value =>
    simp only [hst] at hs
    by_cases hend : len ≤ s.idxInBuff
    · simp only [stValue,if_pos hend] at hs
      obtain ⟨hidx,hnext⟩ := closeValue_moves hs
      exact .inr ⟨rfl,hnext,hidx⟩
    by_cases hsep : s.inBuff s.idxInBuff = 0x20
    · simp only [stValue,if_neg hend,if_pos hsep] at hs
      exact .inl ⟨1,by omega,by omega,(closeValue_moves hs).1⟩
    · obtain ⟨v,_,_,rfl⟩ := stValue_byte hend hsep hs
      exact .inl ⟨2,by omega,by omega,rfl⟩
  | done => simp [hst] at hs

def TxParse.rank (len : Nat) (s : TxParse) : Nat :=
  (len + 6 - s.idxInBuff) + if s.parseState = .done then 0 else 1

theorem TxInv.le_end (h : TxInv m len s) : s.idxInBuff ≤ len + 6 := by
  have hin := h.inside
  have hslack : slack s.parseState ≤ 6 := by cases s.parseState <;> decide
  omega

theorem txBody_rank (h : TxInv m len s) (h' : TxInv m len s')
    (hs : txBody len s = .inl s') : s'.rank len < s.rank len := by
  have hin := h.le_end
  have hin' := h'.le_end
  have hpace := h.pace
  have hlive : s.parseState ≠ .done := by
    intro hd
    simp [txBody,hd] at hs
  simp only [TxParse.rank,if_neg hlive]
  rcases txBody_moves hs with ⟨k,hk,hk4,hidx⟩ | ⟨_,hnext,hidx⟩
  · rw [u16_small (by omega)] at hidx
    split_ifs <;> omega
  · rw [hnext,hidx]
    simp

end Steps

theorem txInv_init (m : Mem) (len : Nat) : TxInv m len (TxParse.init m) :=
  ⟨fun _ _ => rfl,Nat.zero_le _,Nat.zero_le _,⟨rfl,rfl⟩⟩

/-- What the loop has read when it ends with a payload: whole objects up to the end
of the line, or beyond it by at most one digit or by empty fields. -/
structure TxResult (m : Mem) (len : Nat) (buf : Mem) (size : UInt16) where
  before : List TxRead
  last : TxRead
  upTo : Nat
  checked : ∀ q ∈ before ++ [last], q.Checked
  text : m.read 0 upTo = before.flatMap TxRead.text ++ last.text
  wire : buf.read 0 size.toNat = (before ++ [last]).flatMap TxRead.wire
  overrun : upTo ≤ len + 1 ∨ last.value = []
  low : len ≤ upTo
  high : upTo ≤ len + 6

section Line

variable {m : Mem} {len : Nat}

theorem txLoop_total (m : Mem) (hpos : 0 < len) :
    ∃ r, loop (txBody len) (len + 10) (TxParse.init m) = some r := by
  refine loop_total (TxInv m len) (TxParse.rank len) (fun s s' h hs => ?_) (txInv_init m len) ?_
  · have h' := txBody_inv hpos h hs
    exact ⟨h',txBody_rank h h' hs⟩
  · show len + 6 - 0 + 1 < len + 10
    omega

theorem txLoop_parsed (hpos : 0 < len) {n : Nat} {buf : Mem} {size : UInt16}
    (h : loop (txBody len) n (TxParse.init m) = some (.ok (.parsed buf size))) :
    Nonempty (TxResult m len buf size) := by
  refine loop_inv (TxInv m len)
    (fun r => ∀ buf size, r = .ok (.parsed buf size) → Nonempty (TxResult m len buf size))
    (fun s s' hi hs => txBody_inv hpos hi hs) (fun s r hi hs buf size hr => ?_)
    (txInv_init m len) h buf size rfl
  subst hr
  obtain ⟨hst,rfl,rfl⟩ := txBody_parsed hs
  have hstage := hi.stage
  have hroom := hi.room
  simp only [Stage,hst] at hstage
  obtain ⟨rs,r,hchk,hread,htx,hshort,hlow⟩ := hstage
  have hsize : (UInt16.ofNat s.idxTxBuff).toNat = s.idxTxBuff := by
    rw [UInt16.toNat_ofNat']
    simp only [txBuffSz] at hroom
    omega
  exact ⟨⟨rs,r,_,hchk,hread,by rw [hsize,htx],hshort,hlow,hi.le_end⟩⟩

end Line

end SipfClient.Command
