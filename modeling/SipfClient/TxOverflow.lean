import SipfClient.TxRounds
set_option autoImplicit false

namespace SipfClient.Command
open ByteMem HexText Loops Object Http

/-- The objects read up to `i`, the last of them perhaps not to its end, take `n` bytes. -/
def TakesUp (m : Mem) (i n : Nat) (r : TxRead) : Prop :=
  ∃ rs : List TxRead, (∀ q ∈ rs, q.Checked) ∧ m.read 0 i = rs.flatMap TxRead.text ++ r.text ∧
    n = (rs.flatMap TxRead.wire).length + r.wire.length

/-- The objects of the line do not fit: there is no room for the first two bytes of
one, for the next byte of a value, or for the length byte when the value ends. What is
read up to there is read from the line: only the fields of an object whose value has not
begun, or the second digit of a byte, lie behind it. -/
def TxLeaves (m : Mem) (len : Nat) : Prop :=
  ∃ i n r, TakesUp m i n r ∧ (i ≤ len + 1 ∨ (r.value = [] ∧ i ≤ len + 6)) ∧
    (txBuffSz + 1 < n ∨ (i < len ∧ m i ≠ 0x20 ∧ txBuffSz ≤ n) ∨
      ((len ≤ i ∨ m i = 0x20) ∧ r.Checked ∧ txBuffSz < n))

section Faults

variable {m : Mem} {len : Nat} {s : TxParse} {e : OutOfBounds}

theorem goOn_error {x : Except OutOfBounds TxParse} (h : goOn x = .inr (.error e)) : x = .error e := by
  cases x with
  | error e' => simpa [goOn] using h
  | ok t => simp [goOn] at h

theorem store_fault {t : Mem} {i : Nat} {b : UInt8}
    (h : t.store txBuffSz i [b] = .error e) : txBuffSz < i + 1 := by
  by_contra hfit
  rw [Mem.store_ok (by simpa using hfit)] at h
  cases h

theorem stType_leaves (h : TxInv m len s) (hst : s.parseState = .type)
    (hs : stType s = .inr (.error e)) : TxLeaves m len := by
  have hstage := h.stage
  simp only [Stage,hst] at hstage
  obtain ⟨rs,tag,hchk,hread,htag,htx⟩ := hstage
  have hroom := h.room
  have hin := h.inside
  simp only [hst,slack] at hin
  have hpacked := congrArg List.length htx
  rw [Mem.read_length] at hpacked
  rw [stType_eq] at hs
  rcases readField_cases h _ with hno | ⟨v,hp,hsep,hrun⟩
  · rw [hno] at hs
    exact absurd hs (by simp [refuse])
  · rw [hrun] at hs
    refine ⟨s.idxInBuff + 3,_,⟨⟨tag, [m s.idxInBuff,m (s.idxInBuff + 1)], []⟩, s.tagId, v, [], htag,
      bytesOf_pair hp, rfl⟩,⟨rs,hchk,?_,rfl⟩,.inr ⟨rfl,by omega⟩,.inl ?_⟩
    · simp [read_field hsep,hread,TxRead.text,TxObject.text]
    · have hu1 : u16 (s.idxTxBuff + 1) = s.idxTxBuff + 1 :=
        u16_small (by simp only [txBuffSz] at hroom; omega)
      rw [wire_length,← hpacked]
      have herror := goOn_error hs
      cases h1 : s.txBuff.store txBuffSz s.idxTxBuff [v] with
      | error e1 =>
        have hfull := store_fault h1
        simp only [List.length_nil]
        omega
      | ok t1 =>
        simp only [h1,hu1,bind,Except.bind] at herror
        cases h2 : t1.store txBuffSz (s.idxTxBuff + 1) [s.tagId] with
        | error e2 =>
          have hfull := store_fault h2
          simp only [List.length_nil]
          omega
        | ok t2 => simp [h2,pure,Except.pure] at herror

theorem closeValue_fault {next : TxState} {idx : Nat} (hs : closeValue s next idx = .inr (.error e)) :
    checkTypeLen s.typeId s.valueLen.toUInt16 = true ∧ txBuffSz < s.idxValueLen + 1 := by
  simp only [closeValue] at hs
  split_ifs at hs with hchk
  · exact absurd hs (by simp [refuse])
  · have herror := goOn_error hs
    cases h1 : s.txBuff.store txBuffSz s.idxValueLen [s.valueLen] with
    | error e1 => exact ⟨by simpa using hchk,store_fault h1⟩
    | ok t1 => simp [h1,bind,Except.bind,pure,Except.pure] at herror

theorem stValue_leaves (h : TxInv m len s) (hst : s.parseState = .value)
    (hs : stValue len s = .inr (.error e)) : TxLeaves m len := by
  have hstage := h.stage
  simp only [Stage,hst] at hstage
  obtain ⟨rs,r,hchk,hread,hkind,hlenb,hidx,hhead,-,hshort⟩ := hstage
  have hreach : s.idxInBuff ≤ len + 1 ∨ (r.value = [] ∧ s.idxInBuff ≤ len + 6) :=
    hshort.imp id fun hnil => ⟨hnil,h.le_end⟩
  have hpacked := congrArg List.length hhead
  rw [Mem.read_length,List.length_append,List.length_cons,List.length_singleton] at hpacked
  have hahead := h.ahead s.idxInBuff (Nat.le_refl _)
  have hclosed : ∀ {next idx}, closeValue s next idx = .inr (.error e) →
      (len ≤ s.idxInBuff ∨ m s.idxInBuff = 0x20) → TxLeaves m len := by
    intro next idx hc hend
    obtain ⟨hcheck,hfull⟩ := closeValue_fault hc
    refine ⟨s.idxInBuff,_,r,⟨rs,hchk,hread,rfl⟩,hreach,.inr (.inr ⟨hend,?_,?_⟩)⟩
    · rw [TxRead.Checked,hkind,hlenb]
      exact hcheck
    · rw [wire_length]
      omega
  by_cases hend : len ≤ s.idxInBuff
  · simp only [stValue,if_pos hend] at hs
    exact hclosed hs (.inl hend)
  by_cases hsep : s.inBuff s.idxInBuff = 0x20
  · simp only [stValue,if_neg hend,if_pos hsep] at hs
    exact hclosed hs (.inr (hahead ▸ hsep))
  · simp only [stValue,if_neg hend,if_neg hsep] at hs
    refine ⟨s.idxInBuff,_,r,⟨rs,hchk,hread,rfl⟩,hreach,.inr (.inl ⟨by omega,hahead ▸ hsep,?_⟩)⟩
    cases h1 : s.txBuff.store txBuffSz s.idxTxBuff [(hexToUint8 (s.inBuff.shift s.idxInBuff)).1] with
    | error e1 =>
      have hfull := store_fault h1
      rw [wire_length]
      omega
    | ok t1 =>
      simp only [h1] at hs
      split_ifs at hs
      exact absurd hs (by simp [refuse])

theorem txBody_leaves (h : TxInv m len s) (hs : txBody len s = .inr (.error e)) : TxLeaves m len := by
  unfold txBody at hs
  cases hst : s.parseState with
  | begin =>
    simp only [hst,stBegin] at hs
    split_ifs at hs
    exact absurd hs (by simp [refuse])
  | tagId =>
    simp only [hst,stTagId] at hs
    split_ifs at hs <;> exact absurd hs (by simp [refuse])
  | type => exact stType_leaves h hst (by simpa [hst] using hs)
  | value => exact stValue_leaves h hst (by simpa [hst] using hs)
  | done => simp [hst] at hs

end Faults

theorem txLoop_fits {m : Mem} {len : Nat} (hpos : 0 < len)
    (hfit : ¬ TxLeaves m len) : ∃ r, loop (txBody len) (len + 10) (TxParse.init m) = some (.ok r) ∧
      ∀ buf size, r = .parsed buf size → size.toNat ≤ txBuffSz + 1 := by
  obtain ⟨r,hr⟩ := txLoop_total m hpos
  have hpost := loop_inv (TxInv m len) (fun r : Except OutOfBounds TxEnd =>
      (∀ e, r = .error e → TxLeaves m len) ∧
        ∀ buf size, r = .ok (.parsed buf size) → size.toNat ≤ txBuffSz + 1)
    (fun s s' hi hs => txBody_inv hpos hi hs) (fun s r hi hs => ?_) (txInv_init m len) hr
  · cases r with
    | error e => exact absurd (hpost.1 e rfl) hfit
    | ok r => exact ⟨r,hr,fun buf size h => hpost.2 buf size (by rw [h])⟩
  · refine ⟨fun e he => txBody_leaves hi (he ▸ hs),fun buf size hp => ?_⟩
    obtain ⟨-,-,rfl⟩ := txBody_parsed (hp ▸ hs)
    rw [UInt16.toNat_ofNat']
    exact (Nat.mod_le _ _).trans hi.room

end SipfClient.Command
