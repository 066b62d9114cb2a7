import SipfClient.TxParsing
set_option autoImplicit false

namespace SipfClient.Command
open ByteMem HexText Loops

theorem bytesOf_one {ds : List UInt8} {v : UInt8} (h : bytesOf ds = some [v]) :
    ∃ a b, ds = [a,b] ∧ pairValue a b = some v := by
  have hl := bytesOf_length h
  obtain ⟨a,b,rfl⟩ := List.length_eq_two.1 (show ds.length = 2 by simpa using hl)
  refine ⟨a,b,rfl,?_⟩
  cases hp : pairValue a b with
  | none => simp [bytesOf,hp] at h
  | some w => simpa [bytesOf,hp] using h

section Forward

variable {len : Nat} {s : TxParse}

theorem stTagId_reads (hst : s.parseState = .tagId) (hsep : s.inBuff (s.idxInBuff + 2) = 0x20)
    {v : UInt8} (hp : pairValue (s.inBuff s.idxInBuff) (s.inBuff (s.idxInBuff + 1)) = some v)
    (hidx : s.idxInBuff + 3 < 65536) :
    txBody len s = .inl { s with
      inBuff := s.inBuff.set (s.idxInBuff + 2) 0, tagId := v, idxInBuff := s.idxInBuff + 3,
      parseState := .type } := by
  obtain ⟨h0,h1⟩ := digits_kept s.inBuff s.idxInBuff
  simp only [txBody,hst,stTagId]
  rw [if_pos hsep,hexToUint8_ok (by rw [h0,h1,hp]),u16_small hidx]
  simp

theorem stType_reads (hst : s.parseState = .type) (hsep : s.inBuff (s.idxInBuff + 2) = 0x20)
    {v : UInt8} (hp : pairValue (s.inBuff s.idxInBuff) (s.inBuff (s.idxInBuff + 1)) = some v)
    (hidx : s.idxInBuff + 3 < 65536) (hroom : s.idxTxBuff + 2 ≤ txBuffSz) :
    txBody len s = .inl { s with
      inBuff := s.inBuff.set (s.idxInBuff + 2) 0, typeId := v, idxInBuff := s.idxInBuff + 3,
      txBuff := (s.txBuff.copy s.idxTxBuff [v]).copy (s.idxTxBuff + 1) [s.tagId],
      idxValueLen := s.idxTxBuff + 2, idxTxBuff := s.idxTxBuff + 3, valueLen := 0,
      parseState := .value } := by
  obtain ⟨h0,h1⟩ := digits_kept s.inBuff s.idxInBuff
  simp only [txBuffSz] at hroom
  simp only [txBody,hst,stType]
  rw [if_pos hsep,hexToUint8_ok (by rw [h0,h1,hp]),u16_small hidx,
    u16_small (show s.idxTxBuff + 1 < 65536 by omega),
    u16_small (show s.idxTxBuff + 2 < 65536 by omega),
    u16_small (show s.idxTxBuff + 3 < 65536 by omega)]
  have h2 : s.idxTxBuff + [v].length ≤ txBuffSz := by simp [txBuffSz]; omega
  have h3 : s.idxTxBuff + 1 + [s.tagId].length ≤ txBuffSz := by simp [txBuffSz]; omega
  simp [Mem.store_ok h2,Mem.store_ok h3,bind,Except.bind,goOn,pure,Except.pure]

theorem stValue_reads (hst : s.parseState = .value) {v : UInt8}
    (hp : pairValue (s.inBuff s.idxInBuff) (s.inBuff (s.idxInBuff + 1)) = some v)
    (hin : s.idxInBuff < len) (hpace : s.idxInBuff ≤ 3 * s.idxTxBuff) (hroom : s.idxTxBuff + 1 ≤ txBuffSz) :
    txBody len s = .inl { s with
      txBuff := s.txBuff.copy s.idxTxBuff [v], idxTxBuff := s.idxTxBuff + 1,
      valueLen := s.valueLen + 1, idxInBuff := s.idxInBuff + 2 } := by
  have hhex : hexToUint8 (s.inBuff.shift s.idxInBuff) = (v, 0) := by
    apply hexToUint8_ok
    rw [Mem.shift_apply,Mem.shift_apply,Nat.add_zero,hp]
  have hstore : s.idxTxBuff + [v].length ≤ txBuffSz := hroom
  simp only [txBuffSz] at hroom
  simp only [txBody,hst,stValue]
  rw [if_neg (by omega),if_neg (pairValue_no_space hp).1,hhex,Mem.store_ok hstore,
    u16_small (show s.idxTxBuff + 1 < 65536 by omega),
    u16_small (show s.idxInBuff + 2 < 65536 by omega)]
  simp

theorem loop_value {ds bs : List UInt8} (h : bytesOf ds = some bs)
    (hst : s.parseState = .value) (hread : s.inBuff.read s.idxInBuff ds.length = ds)
    (hpace : s.idxInBuff ≤ 3 * s.idxTxBuff)
    (hfit : bs = [] ∨ s.idxInBuff + ds.length ≤ len + 1 ∧ s.idxTxBuff + bs.length ≤ txBuffSz)
    (n : Nat) :
    loop (txBody len) (n + bs.length) s = loop (txBody len) n { s with
      txBuff := s.txBuff.copy s.idxTxBuff bs, idxTxBuff := s.idxTxBuff + bs.length,
      valueLen := s.valueLen + UInt8.ofNat bs.length,
      idxInBuff := s.idxInBuff + ds.length } := by
  induction ds using bytesOf.induct generalizing s bs with
  | case1 =>
    cases h
    simp
  | case2 hi lo rest ih =>
    simp only [bytesOf,bind,Option.bind_eq_some_iff] at h
    obtain ⟨v,hv,vs,hvs,hlast⟩ := h
    cases hlast
    obtain ⟨hin,hroom⟩ := hfit.resolve_left (by simp)
    simp only [List.length_cons,Mem.read_succ,List.cons.injEq] at hread hin hroom
    obtain ⟨h0,h1,hrest⟩ := hread
    have hstep := @stValue_reads len s hst v (by rw [h0,h1,hv]) (by omega) hpace (by omega)
    rw [List.length_cons,← Nat.add_assoc,loop_next hstep,
      ih (s := { s with
        txBuff := s.txBuff.copy s.idxTxBuff [v], idxTxBuff := s.idxTxBuff + 1,
        valueLen := s.valueLen + 1, idxInBuff := s.idxInBuff + 2 }) hvs hst hrest
        (by simp only; omega) (.inr ⟨by simp only; omega,by simp only; omega⟩)]
    have h1 : s.idxTxBuff + 1 + vs.length = s.idxTxBuff + (vs.length + 1) := by omega
    have h2 : s.idxInBuff + 2 + rest.length = s.idxInBuff + (hi :: lo :: rest).length := by
      simp; omega
    have h3 : s.valueLen + 1 + UInt8.ofNat vs.length = s.valueLen + UInt8.ofNat (vs.length + 1) := by
      rw [Nat.add_comm vs.length 1,UInt8.ofNat_add,UInt8.add_assoc]
      rfl
    simp only [← Mem.copy_cons,h1,h2,h3]
  | case3 c => simp [bytesOf] at h

/-- Behind the space in front of an object: `done` is packed, the line is as written
from here on. -/
structure AtTag (m : Mem) (done : List UInt8) (s : TxParse) : Prop where
  state : s.parseState = .tagId
  ahead : ∀ i, s.idxInBuff ≤ i → s.inBuff i = m i
  pace : s.idxInBuff ≤ 3 * s.idxTxBuff + 1
  packed : s.txBuff.read 0 s.idxTxBuff = done

structure AtValueEnd (m : Mem) (done : List UInt8) (r : TxRead) (s : TxParse) : Prop where
  state : s.parseState = .value
  ahead : ∀ i, s.idxInBuff ≤ i → s.inBuff i = m i
  pace : s.idxInBuff ≤ 3 * s.idxTxBuff
  kind : s.typeId = r.kind
  count : s.valueLen = r.lenByte
  index : s.idxTxBuff = s.idxValueLen + 1 + r.value.length
  head : s.txBuff.read 0 s.idxValueLen = done ++ [r.kind,r.tag]
  value : s.txBuff.read (s.idxValueLen + 1) r.value.length = r.value

theorem AtValueEnd.idx_tx {m : Mem} {done : List UInt8} {r : TxRead} (h : AtValueEnd m done r s) :
    s.idxTxBuff = done.length + r.wire.length := by
  have hl := congrArg List.length h.head
  simp only [Mem.read_length,List.length_append,List.length_cons,List.length_nil] at hl
  rw [h.index,hl,wire_length]
  omega

def TxRead.fields (r : TxRead) : List UInt8 :=
  r.obj.tag ++ 0x20 :: r.obj.type ++ 0x20 :: r.obj.digits

theorem TxRead.text_eq (r : TxRead) : r.text = 0x20 :: r.fields := by
  simp [TxRead.text,TxObject.text,TxRead.fields]

def TxRead.head (r : TxRead) : TxRead :=
  ⟨{ r.obj with digits := [] }, r.tag, r.kind, [], r.tagText, r.kindText, rfl⟩

theorem TxRead.fields_eq (r : TxRead) : r.fields = r.head.fields ++ r.obj.digits := by
  simp [TxRead.fields,TxRead.head]

theorem TxRead.head_length (r : TxRead) : r.head.fields.length = 6 := by
  have htag := bytesOf_length r.tagText
  have hkind := bytesOf_length r.kindText
  simp only [TxRead.fields,TxRead.head,List.length_append,List.length_cons,List.length_nil] at htag hkind ⊢
  omega

structure AtType (m : Mem) (done : List UInt8) (r : TxRead) (s : TxParse) : Prop where
  state : s.parseState = .type
  ahead : ∀ i, s.idxInBuff + 3 ≤ i → s.inBuff i = m i
  pace : s.idxInBuff ≤ 3 * s.idxTxBuff + 4
  packed : s.txBuff.read 0 s.idxTxBuff = done
  tag : s.tagId = r.tag
  kind : pairValue (s.inBuff s.idxInBuff) (s.inBuff (s.idxInBuff + 1)) = some r.kind
  sep : s.inBuff (s.idxInBuff + 2) = 0x20

theorem packed_length {t : Mem} {i : Nat} {done : List UInt8} (h : t.read 0 i = done) :
    i = done.length := by
  rw [← h,Mem.read_length]

theorem reads_tag {m : Mem} {done : List UInt8} (r : TxRead) (h : AtTag m done s)
    (hread : m.read s.idxInBuff 6 = r.head.fields) (hroom : done.length ≤ txBuffSz) :
    ∃ s', AtType m done r s' ∧ s'.idxInBuff = s.idxInBuff + 3 ∧ txBody len s = .inl s' := by
  obtain ⟨a,b,htag,hpt⟩ := bytesOf_one r.tagText
  obtain ⟨c,d,hkind,hpk⟩ := bytesOf_one r.kindText
  have hfields : r.head.fields = [a,b,0x20,c,d,0x20] := by
    simp [TxRead.fields,TxRead.head,htag,hkind]
  rw [hfields] at hread
  simp only [Mem.read_succ,Mem.read_zero,List.cons.injEq,and_true] at hread
  obtain ⟨m0,m1,m2,m3,m4,m5⟩ := hread
  have hahead := h.ahead
  have hpace := h.pace
  rw [txBuffSz,← packed_length h.packed] at hroom
  have hstep := @stTagId_reads len s h.state (by rw [hahead _ (by omega)]; exact m2) r.tag
    (by rw [hahead _ (by omega),hahead _ (by omega),m0,m1,hpt]) (by omega)
  have hnext : ∀ i, s.idxInBuff + 3 ≤ i → (s.inBuff.set (s.idxInBuff + 2) 0) i = m i := fun i hi =>
    (Mem.set_other _ _ (by omega)).trans (hahead i (by omega))
  refine ⟨{ s with
      inBuff := s.inBuff.set (s.idxInBuff + 2) 0, tagId := r.tag, idxInBuff := s.idxInBuff + 3,
      parseState := .type },
    ⟨rfl,fun i hi => hnext i (by simp only at hi; omega),by simp only; omega,h.packed,rfl,?_,?_⟩,rfl,hstep⟩
  · simp only
    rw [hnext _ (Nat.le_refl _),hnext _ (by omega)]
    exact (congrArg₂ pairValue m3 m4).trans hpk
  · exact (hnext _ (by simp only; omega)).trans m5

theorem reads_type {m : Mem} {done : List UInt8} (r : TxRead) (h : AtType m done r s)
    (hroom : done.length + 2 ≤ txBuffSz) :
    ∃ s', AtValueEnd m done r.head s' ∧ s'.idxInBuff = s.idxInBuff + 3 ∧ txBody len s = .inl s' := by
  have hpace := h.pace
  rw [← packed_length h.packed] at hroom
  have hstep := @stType_reads len s h.state h.sep r.kind h.kind (by rw [txBuffSz] at hroom; omega) hroom
  refine ⟨{ s with
      inBuff := s.inBuff.set (s.idxInBuff + 2) 0, typeId := r.kind, idxInBuff := s.idxInBuff + 3,
      txBuff := (s.txBuff.copy s.idxTxBuff [r.kind]).copy (s.idxTxBuff + 1) [s.tagId],
      idxValueLen := s.idxTxBuff + 2, idxTxBuff := s.idxTxBuff + 3, valueLen := 0,
      parseState := .value },
    ⟨rfl,fun i hi => ?_,by simp only; omega,rfl,rfl,rfl,?_,rfl⟩,rfl,hstep⟩
  · simp only at hi
    exact (Mem.set_other _ _ (by omega)).trans (h.ahead i (by omega))
  · have hb := Mem.read_copy_append s.txBuff s.idxTxBuff [r.kind]
    have ha := Mem.read_copy_append (s.txBuff.copy s.idxTxBuff [r.kind]) (s.idxTxBuff + 1) [s.tagId]
    simp only [List.length_singleton,Nat.add_assoc] at ha hb
    simp only
    rw [ha,hb,h.packed,h.tag,List.append_assoc]
    rfl

theorem reads_head {m : Mem} {done : List UInt8} (r : TxRead) (h : AtTag m done s)
    (hread : m.read s.idxInBuff 6 = r.head.fields) (hroom : done.length + 2 ≤ txBuffSz) :
    ∃ s', AtValueEnd m done r.head s' ∧ s'.idxInBuff = s.idxInBuff + 6 ∧
      ∀ n, loop (txBody len) (n + 2) s = loop (txBody len) n s' := by
  obtain ⟨s1,h1,hidx1,hstep1⟩ := @reads_tag len s m done r h hread (by omega)
  obtain ⟨s2,h2,hidx2,hstep2⟩ := @reads_type len s1 m done r h1 hroom
  refine ⟨s2,h2,by omega,fun n => ?_⟩
  rw [loop_next hstep1,loop_next hstep2]

theorem reads_value {m : Mem} {done : List UInt8} (r : TxRead)
    (h : AtValueEnd m done r.head s) (hread : m.read s.idxInBuff r.obj.digits.length = r.obj.digits)
    (hfit : r.value = [] ∨ s.idxInBuff + r.obj.digits.length ≤ len + 1 ∧
      done.length + r.wire.length ≤ txBuffSz) :
    ∃ s', AtValueEnd m done r s' ∧ s'.idxInBuff = s.idxInBuff + r.obj.digits.length ∧
      ∀ n, loop (txBody len) (n + r.value.length) s = loop (txBody len) n s' := by
  have hindex : s.idxTxBuff = done.length + 3 := h.idx_tx
  have hdigits : s.inBuff.read s.idxInBuff r.obj.digits.length = r.obj.digits :=
    (Mem.read_congr fun i _ => h.ahead _ (by omega)).trans hread
  rw [wire_length] at hfit
  have hval := @loop_value len s r.obj.digits r.value r.valueText h.state hdigits h.pace
    (hfit.imp id fun hle => ⟨hle.1,by omega⟩)
  refine ⟨{ s with
      txBuff := s.txBuff.copy s.idxTxBuff r.value, idxTxBuff := s.idxTxBuff + r.value.length,
      valueLen := s.valueLen + UInt8.ofNat r.value.length,
      idxInBuff := s.idxInBuff + r.obj.digits.length },
    ⟨h.state,fun i hi => h.ahead i ?_,?_,h.kind,?_,?_,?_,?_⟩,rfl,hval⟩
  · simp only at hi
    omega
  · have hpace := h.pace
    have hdig := bytesOf_length r.valueText
    simp only
    omega
  · rw [h.count]
    exact UInt8.zero_add _
  · simp only [h.index,TxRead.head,List.length_nil,Nat.add_zero]
  · -- the bytes in front of the value stand
    refine Eq.trans (Mem.read_congr fun i hi => Mem.copy_before _ _ _ ?_) h.head
    have hi' := h.index
    simp only at hi ⊢
    omega
  · have hi := h.index
    simp only [TxRead.head,List.length_nil,Nat.add_zero] at hi
    simp only [← hi]
    exact Mem.read_copy _ _ _

theorem reads_fields {m : Mem} {done : List UInt8} (r : TxRead)
    (h : AtTag m done s) (hread : m.read s.idxInBuff r.fields.length = r.fields)
    (hin : s.idxInBuff + r.fields.length ≤ len)
    (hroom : done.length + r.wire.length ≤ txBuffSz) :
    ∃ s', AtValueEnd m done r s' ∧ s'.idxInBuff = s.idxInBuff + r.fields.length ∧
      ∀ n, loop (txBody len) (n + r.value.length + 2) s = loop (txBody len) n s' := by
  have hwire := wire_length r
  rw [r.fields_eq,List.length_append,r.head_length] at hread hin ⊢
  rw [Mem.read_add] at hread
  obtain ⟨hhead,hdigits⟩ := List.append_inj hread (by rw [Mem.read_length,r.head_length])
  obtain ⟨s1,h1,hidx1,hloop1⟩ := @reads_head len s m done r h hhead (by omega)
  rw [← hidx1] at hdigits
  obtain ⟨s2,h2,hidx2,hloop2⟩ := @reads_value len s1 m done r h1 hdigits (.inr ⟨by omega,hroom⟩)
  refine ⟨s2,h2,by omega,fun n => ?_⟩
  rw [hloop1,hloop2]

theorem closes {m : Mem} {done : List UInt8} {r : TxRead} (h : AtValueEnd m done r s)
    (hchk : r.Checked) (hroom : done.length + r.wire.length ≤ txBuffSz) (next : TxState)
    (idx : Nat) :
    ∃ s', closeValue s next idx = .inl s' ∧ s'.parseState = next ∧ s'.idxInBuff = idx ∧
      s'.inBuff = s.inBuff ∧ s'.txBuff.read 0 s'.idxTxBuff = done ++ r.wire := by
  have hidx : s.idxValueLen = done.length + 2 := by
    have hl := congrArg List.length h.head
    simpa using hl
  rw [wire_length] at hroom
  have hc : ¬ checkTypeLen s.typeId s.valueLen.toUInt16 = false := by
    rw [h.kind,h.count,show checkTypeLen r.kind r.lenByte.toUInt16 = true from hchk]
    simp
  have hstore : s.idxValueLen + [s.valueLen].length ≤ txBuffSz := by
    rw [List.length_singleton]
    omega
  refine ⟨{ s with
    txBuff := s.txBuff.copy s.idxValueLen [s.valueLen], parseState := next, idxInBuff := idx },
    ?_,rfl,rfl,rfl,?_⟩
  · simp only [closeValue,if_neg hc,Mem.store_ok hstore,bind,Except.bind,goOn,pure,Except.pure]
  · simp only [h.index,h.count]
    exact read_closed h.head h.value

theorem reads_next {m : Mem} {done : List UInt8} (r : TxRead) (h : AtTag m done s)
    (hread : m.read s.idxInBuff r.fields.length = r.fields)
    (hin : s.idxInBuff + r.fields.length < len) (hsep : m (s.idxInBuff + r.fields.length) = 0x20)
    (hchk : r.Checked) (hroom : done.length + r.wire.length ≤ txBuffSz) :
    ∃ s', AtTag m (done ++ r.wire) s' ∧ s'.idxInBuff = s.idxInBuff + r.fields.length + 1 ∧
      ∀ n, loop (txBody len) (n + 1 + r.value.length + 2) s = loop (txBody len) n s' := by
  obtain ⟨s1,h1,hidx,hloop⟩ := @reads_fields len s m done r h hread hin.le hroom
  obtain ⟨s2,hclose,hst,hnext,hbuff,hpacked⟩ := closes h1 hchk hroom .tagId (s1.idxInBuff + 1)
  have hpace := h1.pace
  have hsize := packed_length hpacked
  rw [h1.idx_tx] at hpace
  rw [List.length_append] at hsize
  have hsmall : s1.idxInBuff + 1 < 65536 := by
    rw [txBuffSz] at hroom
    omega
  have hsep' : s1.inBuff s1.idxInBuff = 0x20 := by
    rw [h1.ahead _ (Nat.le_refl _),hidx,hsep]
  have hstep : txBody len s1 = .inl s2 := by
    simp only [txBody,h1.state,stValue]
    rw [if_neg (by omega),if_pos hsep',u16_small hsmall,hclose]
  refine ⟨s2,⟨hst,fun i hi => ?_,by omega,hpacked⟩,by omega,fun n => ?_⟩
  · rw [hbuff]
    exact h1.ahead i (by omega)
  · rw [hloop,loop_next hstep]

theorem reads_objects {m : Mem} {q : TxRead} {qs : List TxRead}
    {done : List UInt8} (h : AtTag m done s) (hchk : ∀ r ∈ q :: qs, r.Checked)
    (hread : m.read s.idxInBuff (q.fields ++ qs.flatMap TxRead.text).length =
      q.fields ++ qs.flatMap TxRead.text)
    (hend : len = s.idxInBuff + (q.fields ++ qs.flatMap TxRead.text).length)
    (hroom : (done ++ (q :: qs).flatMap TxRead.wire).length ≤ txBuffSz) :
    ∃ k buf, loop (txBody len) k s = some (.ok (.parsed buf
        (UInt16.ofNat (done ++ (q :: qs).flatMap TxRead.wire).length))) ∧
      buf.read 0 (done ++ (q :: qs).flatMap TxRead.wire).length =
        done ++ (q :: qs).flatMap TxRead.wire := by
  induction qs generalizing q done s with
  | nil =>
    simp only [List.flatMap_nil,List.append_nil,List.flatMap_cons,List.length_append] at hread hend hroom ⊢
    obtain ⟨s',hs',hidx,hloop⟩ := @reads_fields len s m done q h hread (by omega) hroom
    obtain ⟨s2,hclose,hst,-,-,hpacked⟩ := closes hs' (hchk q (by simp)) hroom .done s'.idxInBuff
    have hsize : s2.idxTxBuff = done.length + q.wire.length :=
      (packed_length hpacked).trans List.length_append
    have hstep : txBody len s' = .inl s2 := by
      simp only [txBody,hs'.state,stValue]
      rw [if_pos (by omega),hclose]
    have hdone : txBody len s2 = .inr (.ok (.parsed s2.txBuff (UInt16.ofNat s2.idxTxBuff))) := by
      simp only [txBody,hst]
    refine ⟨2 + q.value.length + 2,s2.txBuff,?_,by rw [← hsize,hpacked]⟩
    rw [hloop,loop_next hstep,loop_exit hdone,hsize]
  | cons p qs ih =>
    have hsplit : q.fields ++ (p :: qs).flatMap TxRead.text =
        q.fields ++ 0x20 :: (p.fields ++ qs.flatMap TxRead.text) := by
      simp [TxRead.text_eq]
    have hwire : done ++ (q :: p :: qs).flatMap TxRead.wire =
        done ++ q.wire ++ (p :: qs).flatMap TxRead.wire := by
      simp [List.flatMap_cons]
    rw [hsplit,List.length_append,Mem.read_add] at hread
    obtain ⟨hfields,hrest⟩ := List.append_inj hread (by simp)
    rw [List.length_cons,Mem.read_succ,List.cons.injEq] at hrest
    rw [hsplit] at hend
    simp only [List.length_append,List.length_cons] at hend
    rw [hwire] at hroom ⊢
    have hroom' : done.length + q.wire.length ≤ txBuffSz := by
      simp only [List.length_append] at hroom
      omega
    obtain ⟨s',hs',hidx,hloop⟩ := @reads_next len s m done q h hfields (by omega) hrest.1
      (hchk q (by simp)) hroom'
    obtain ⟨k,buf,hk,hbuf⟩ := ih hs' (fun r hr => hchk r (by simp [hr]))
      (by rw [hidx]; exact hrest.2)
      (by rw [hidx]; simp only [List.length_append]; omega) hroom
    exact ⟨k + 1 + q.value.length + 2,buf,(hloop k).trans hk,hbuf⟩

end Forward

theorem txLoop_reads {m : Mem} {qs : List TxRead} (hne : qs ≠ [])
    (hread : m.read 0 (qs.flatMap TxRead.text).length = qs.flatMap TxRead.text)
    (hchk : ∀ r ∈ qs, r.Checked)
    (hroom : (qs.flatMap TxRead.wire).length ≤ txBuffSz) :
    ∃ buf, loop (txBody (qs.flatMap TxRead.text).length) ((qs.flatMap TxRead.text).length + 10)
        (TxParse.init m) =
          some (.ok (.parsed buf (UInt16.ofNat (qs.flatMap TxRead.wire).length))) ∧
      buf.read 0 (qs.flatMap TxRead.wire).length = qs.flatMap TxRead.wire := by
  obtain ⟨q,qs,rfl⟩ := List.exists_cons_of_ne_nil hne
  have htext : (q :: qs).flatMap TxRead.text = 0x20 :: (q.fields ++ qs.flatMap TxRead.text) := by
    simp [TxRead.text_eq]
  have hread' := hread
  rw [htext,List.length_cons,Mem.read_succ,List.cons.injEq] at hread'
  let len := ((q :: qs).flatMap TxRead.text).length
  have hl : len = 1 + (q.fields ++ qs.flatMap TxRead.text).length := by
    simp only [len,htext,List.length_cons]
    omega
  let s : TxParse := ⟨.tagId, m, Mem.zero, 1, 0, 0, 0, 0, 0⟩
  have hbegin : txBody len (TxParse.init m) = .inl s := by
    simp [txBody,TxParse.init,stBegin,hread'.1,u16,s]
  obtain ⟨k,buf,hk,hbuf⟩ := @reads_objects len s m q qs [] ⟨rfl,fun _ _ => rfl,Nat.le_refl _,rfl⟩ hchk
    hread'.2 hl hroom
  obtain ⟨r,hr⟩ := txLoop_total m (show 0 < len by omega)
  have hloop := loop_unique hr ((loop_next hbegin).trans hk)
  exact ⟨buf,hloop ▸ hr,hbuf⟩

end SipfClient.Command
