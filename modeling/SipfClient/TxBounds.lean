import SipfClient.TxLaws
import SipfClient.Answers
set_option autoImplicit false

namespace SipfClient.Command
open ByteMem HexText Loops Object Http

section Rounds

variable {m : Mem} {len : Nat} {s : TxParse} {done : List UInt8} {r : TxRead}

theorem type_faults (h : AtType m done r s) (hfull : txBuffSz < done.length + 2) :
    ∃ e, txBody len s = .inr (.error e) := by
  obtain ⟨hd0,hd1⟩ := digits_kept s.inBuff s.idxInBuff
  rw [← packed_length h.packed] at hfull
  simp only [txBody,h.state,stType]
  rw [if_pos h.sep,hexToUint8_ok (by rw [hd0,hd1,h.kind])]
  simp only [ne_eq,not_true_eq_false,if_false]
  by_cases hfirst : s.idxTxBuff + [r.kind].length ≤ txBuffSz
  · have hu : u16 (s.idxTxBuff + 1) = s.idxTxBuff + 1 :=
      u16_small (by rw [List.length_singleton,txBuffSz] at hfirst; omega)
    rw [Mem.store_ok hfirst]
    simp only [bind,Except.bind,hu]
    rw [Mem.store_error (by rw [List.length_singleton]; omega)]
    exact ⟨_,rfl⟩
  · rw [Mem.store_error (Nat.lt_of_not_le hfirst)]
    exact ⟨_,rfl⟩

theorem byte_faults (hst : s.parseState = .value) (hin : s.idxInBuff < len)
    (hbyte : s.inBuff s.idxInBuff ≠ 0x20) (hfull : txBuffSz ≤ s.idxTxBuff) :
    ∃ e, txBody len s = .inr (.error e) := by
  simp only [txBody,hst,stValue]
  rw [if_neg (by omega),if_neg hbyte,Mem.store_error (by rw [List.length_singleton]; omega)]
  exact ⟨_,rfl⟩

theorem value_faults {ds bs : List UInt8} (h : bytesOf ds = some bs) (hst : s.parseState = .value)
    (hread : s.inBuff.read s.idxInBuff ds.length = ds) (hpace : s.idxInBuff ≤ 3 * s.idxTxBuff)
    (hne : bs ≠ []) (hin : s.idxInBuff + ds.length ≤ len + 1)
    (hfull : txBuffSz < s.idxTxBuff + bs.length) :
    ∃ k e, loop (txBody len) k s = some (.error e) := by
  induction ds using bytesOf.induct generalizing s bs with
  | case1 =>
    cases h
    exact absurd rfl hne
  | case2 hi lo rest ih =>
    simp only [bytesOf,bind,Option.bind_eq_some_iff] at h
    obtain ⟨v,hv,vs,hvs,hlast⟩ := h
    cases hlast
    simp only [List.length_cons,Mem.read_succ,List.cons.injEq] at hread hin hfull
    obtain ⟨h0,h1,hrest⟩ := hread
    by_cases hroom : s.idxTxBuff + 1 ≤ txBuffSz
    · have hstep := @stValue_reads len s hst v (by rw [h0,h1,hv]) (by omega) hpace hroom
      obtain ⟨k,e,hk⟩ := @ih { s with
          txBuff := s.txBuff.copy s.idxTxBuff [v], idxTxBuff := s.idxTxBuff + 1,
          valueLen := s.valueLen + 1, idxInBuff := s.idxInBuff + 2 } vs hvs hst hrest
        (by simp only; omega) (fun hnil => by rw [hnil,List.length_nil] at hfull; omega)
        (by simp only; omega) (by simp only; omega)
      exact ⟨k + 1,e,(loop_next hstep).trans hk⟩
    · obtain ⟨e,he⟩ := @byte_faults len s hst (by omega)
        (by rw [h0]; exact (pairValue_no_space hv).1) (by omega)
      exact ⟨1,e,loop_exit he⟩
  | case3 c => simp [bytesOf] at h

def Rejects (x : Except OutOfBounds TxEnd) : Prop := ∀ buf size, x ≠ .ok (.parsed buf size)

theorem close_stops (h : AtValueEnd m done r s) (hend : len ≤ s.idxInBuff ∨ m s.idxInBuff = 0x20)
    (hbad : ¬ r.Checked ∨ txBuffSz < done.length + 3) :
    ∃ x, txBody len s = .inr x ∧ Rejects x ∧ (r.Checked → ∃ e, x = .error e) := by
  have hclose : ∃ next idx, txBody len s = closeValue s next idx := by
    simp only [txBody,h.state,stValue]
    by_cases hin : len ≤ s.idxInBuff
    · rw [if_pos hin]
      exact ⟨_,_,rfl⟩
    · rw [if_neg hin,if_pos ((h.ahead _ (Nat.le_refl _)).trans (hend.resolve_left hin))]
      exact ⟨_,_,rfl⟩
  obtain ⟨next,idx,hbody⟩ := hclose
  have hcheck : checkTypeLen s.typeId s.valueLen.toUInt16 = true ↔ r.Checked := by
    rw [h.kind,h.count]
    exact Iff.rfl
  rw [hbody,closeValue]
  by_cases hchk : r.Checked
  · rw [if_neg (by rw [hcheck.2 hchk]; decide)]
    have hhead := packed_length h.head
    rw [List.length_append,List.length_cons,List.length_singleton] at hhead
    have hfull := hbad.resolve_left (not_not.2 hchk)
    rw [Mem.store_error (by rw [List.length_singleton]; omega)]
    exact ⟨_,rfl,by simp [Rejects],fun _ => ⟨_,rfl⟩⟩
  · rw [if_pos (Bool.eq_false_iff.2 (hcheck.not.2 hchk))]
    exact ⟨_,rfl,by simp [Rejects],fun h => absurd h hchk⟩

theorem reads_or_faults (h : AtTag m done s) (hread : m.read s.idxInBuff r.fields.length = r.fields)
    (hdone : done.length ≤ txBuffSz) (hreach : s.idxInBuff + r.fields.length ≤ len + 1 ∨ r.value = []) :
    (∃ k e, loop (txBody len) k s = some (.error e)) ∨
    (∃ s' k, AtValueEnd m done r s' ∧ s'.idxInBuff = s.idxInBuff + r.fields.length ∧
      (∀ n, loop (txBody len) (n + k) s = loop (txBody len) n s') ∧
      (done.length + r.wire.length ≤ txBuffSz ∨ (r.value = [] ∧ done.length + 2 ≤ txBuffSz))) := by
  have hwire := wire_length r
  rw [r.fields_eq,List.length_append,r.head_length] at hread hreach ⊢
  rw [Mem.read_add] at hread
  obtain ⟨hhead,hdigits⟩ := List.append_inj hread (by rw [Mem.read_length,r.head_length])
  by_cases hroom : done.length + 2 ≤ txBuffSz
  swap
  · obtain ⟨s1,h1,-,hstep⟩ := @reads_tag len s m done r h hhead hdone
    obtain ⟨e,he⟩ := @type_faults m len s1 done r h1 (by omega)
    exact .inl ⟨2,e,(loop_next hstep).trans (loop_exit he)⟩
  obtain ⟨s1,h1,hidx1,hloop1⟩ := @reads_head len s m done r h hhead hroom
  rw [← hidx1] at hdigits
  by_cases hfit : r.value = [] ∨ done.length + r.wire.length ≤ txBuffSz
  · obtain ⟨s2,h2,hidx2,hloop2⟩ := @reads_value len s1 m done r h1 hdigits (by
      rcases hfit with hnil | hfit
      · exact .inl hnil
      · exact hreach.symm.imp id fun hin => ⟨by omega,hfit⟩)
    refine .inr ⟨s2,r.value.length + 2,h2,by omega,fun n => ?_,hfit.symm.imp id fun hnil => ⟨hnil,hroom⟩⟩
    rw [← Nat.add_assoc,hloop1,hloop2]
  · obtain ⟨hne,hover⟩ := not_or.1 hfit
    have htx : s1.idxTxBuff = done.length + 3 := h1.idx_tx
    have hline : s1.inBuff.read s1.idxInBuff r.obj.digits.length = r.obj.digits :=
      (Mem.read_congr fun i _ => h1.ahead _ (by omega)).trans hdigits
    obtain ⟨k,e,hk⟩ := @value_faults len s1 r.obj.digits r.value r.valueText h1.state hline h1.pace hne
      (by have hin := hreach.resolve_right hne; omega) (by omega)
    exact .inl ⟨k + 2,e,(hloop1 k).trans hk⟩

/-- An object that cannot be closed ends the loop, with a fault if it is one that
`checkTypeLen` allows. -/
theorem object_stops (h : AtTag m done s) (hread : m.read s.idxInBuff r.fields.length = r.fields)
    (hdone : done.length ≤ txBuffSz) (hreach : s.idxInBuff + r.fields.length ≤ len + 1 ∨ r.value = [])
    {i n : Nat} (hi : i = s.idxInBuff + r.fields.length) (hn : n = done.length + r.wire.length)
    (hbad : txBuffSz < n ∨ ((len ≤ i ∨ m i = 0x20) ∧ ¬ r.Checked) ∨
      (i < len ∧ m i ≠ 0x20 ∧ txBuffSz ≤ n)) :
    ∃ k x, loop (txBody len) k s = some x ∧ Rejects x ∧
      (r.Checked ∨ txBuffSz + 1 < n ∨ (i < len ∧ m i ≠ 0x20) → ∃ e, x = .error e) := by
  have hwire := wire_length r
  rcases @reads_or_faults m len s done r h hread hdone hreach with ⟨k,e,hk⟩ | ⟨s',k,h',hidx,hloop,hroom⟩
  · exact ⟨k,_,hk,by simp [Rejects],fun _ => ⟨e,rfl⟩⟩
  have hsmall : n ≤ txBuffSz ∨ (r.value = [] ∧ n ≤ txBuffSz + 1) := by
    refine hroom.imp (fun hle => by omega) fun hnil => ⟨hnil.1,?_⟩
    rw [hn,hwire,hnil.1,List.length_nil]
    omega
  rw [← hi] at hidx
  by_cases hmore : i < len ∧ m i ≠ 0x20
  · obtain ⟨e,he⟩ := @byte_faults len s' h'.state (by omega)
      (by rw [h'.ahead _ (Nat.le_refl _),hidx]; exact hmore.2)
      (by
        rw [h'.idx_tx,← hn]
        rcases hbad with hover | ⟨hend,-⟩ | ⟨-,-,hfull⟩
        · exact hover.le
        · exact absurd hend (by rw [not_or]; exact ⟨Nat.not_le.2 hmore.1,hmore.2⟩)
        · exact hfull)
    refine ⟨1 + k,_,(hloop 1).trans (loop_exit he),by simp [Rejects],fun _ => ⟨e,rfl⟩⟩
  · have hend : len ≤ s'.idxInBuff ∨ m s'.idxInBuff = 0x20 := by
      rw [hidx]
      by_cases hin : i < len
      · exact .inr (not_not.1 fun hne => hmore ⟨hin,hne⟩)
      · exact .inl (Nat.le_of_not_lt hin)
    obtain ⟨x,hx,hrej,hfault⟩ := @close_stops m len s' done r h' hend (by
      rcases hbad with hover | ⟨-,hchk⟩ | hin
      · rcases hsmall with hle | ⟨hnil,-⟩
        · omega
        · rw [hnil,List.length_nil] at hwire
          exact .inr (by omega)
      · exact .inl hchk
      · exact absurd ⟨hin.1,hin.2.1⟩ hmore)
    refine ⟨1 + k,x,(hloop 1).trans (loop_exit hx),hrej,fun hwhy => hfault ?_⟩
    rcases hwhy with hchk | hover | hin
    · exact hchk
    · omega
    · exact absurd hin hmore

theorem texts_begin (rs : List TxRead) (r : TxRead) :
    ∃ t, rs.flatMap TxRead.text ++ r.text = 0x20 :: t ∧ 6 ≤ t.length := by
  have hr := text_length r
  cases rs with
  | nil =>
    refine ⟨r.fields,r.text_eq,?_⟩
    rw [r.text_eq,List.length_cons] at hr
    omega
  | cons q rs =>
    refine ⟨q.fields ++ (rs.flatMap TxRead.text ++ r.text),by simp [TxRead.text_eq],?_⟩
    simp only [List.length_append]
    omega

theorem objects_stop {rs : List TxRead} (h : AtTag m done s) (hdone : done.length ≤ txBuffSz)
    {t : List UInt8} (ht : rs.flatMap TxRead.text ++ r.text = 0x20 :: t)
    (hread : m.read s.idxInBuff t.length = t) {i n : Nat} (hi : i = s.idxInBuff + t.length)
    (hn : n = done.length + (rs.flatMap TxRead.wire).length + r.wire.length)
    (hreach : i ≤ len + 1 ∨ (r.value = [] ∧ i ≤ len + 6))
    (hbad : txBuffSz < n ∨ ((len ≤ i ∨ m i = 0x20) ∧ ¬ r.Checked) ∨
      (i < len ∧ m i ≠ 0x20 ∧ txBuffSz ≤ n)) :
    ∃ k x, loop (txBody len) k s = some x ∧ Rejects x ∧
      ((∀ q ∈ rs, q.Checked) → r.Checked ∨ txBuffSz + 1 < n ∨ (i < len ∧ m i ≠ 0x20) →
        ∃ e, x = .error e) := by
  induction rs generalizing s done t with
  | nil =>
    rw [List.flatMap_nil,List.nil_append,r.text_eq,List.cons.injEq] at ht
    obtain ⟨-,rfl⟩ := ht
    simp only [List.flatMap_nil,List.length_nil,Nat.add_zero] at hn
    obtain ⟨k,x,hk,hrej,hfault⟩ := @object_stops m len s done r h hread hdone
      (by rw [← hi]; exact hreach.imp id And.left) i n hi hn hbad
    exact ⟨k,x,hk,hrej,fun _ => hfault⟩
  | cons q rs ih =>
    obtain ⟨t',ht',hlong⟩ := texts_begin rs r
    have hsplit : (q :: rs).flatMap TxRead.text ++ r.text = 0x20 :: (q.fields ++ 0x20 :: t') := by
      simp [TxRead.text_eq q,ht']
    rw [hsplit,List.cons.injEq] at ht
    obtain ⟨-,rfl⟩ := ht
    rw [List.length_append,Mem.read_add] at hread
    obtain ⟨hfields,hrest⟩ := List.append_inj hread (by simp)
    rw [List.length_cons,Mem.read_succ,List.cons.injEq] at hrest
    simp only [List.length_append,List.length_cons] at hi
    by_cases hgood : q.Checked ∧ done.length + q.wire.length ≤ txBuffSz
    · obtain ⟨s',hs',hidx,hloop⟩ := @reads_next len s m done q h hfields (by omega) hrest.1 hgood.1
        hgood.2
      obtain ⟨k,x,hk,hrej,hfault⟩ := ih hs' (by rw [List.length_append]; exact hgood.2) ht'
        (by rw [hidx]; exact hrest.2) (by omega)
        (by simp only [hn,List.flatMap_cons,List.length_append]; omega)
      exact ⟨_,x,(hloop k).trans hk,hrej,fun hchk => hfault fun p hp => hchk p (by simp [hp])⟩
    · obtain ⟨k,x,hk,hrej,hfault⟩ := @object_stops m len s done q h hfields hdone (by omega) _ _ rfl rfl
        (by
          by_cases hchk : q.Checked
          · exact .inl (Nat.lt_of_not_le fun hle => hgood ⟨hchk,hle⟩)
          · exact .inr (.inl ⟨.inr hrest.1,hchk⟩))
      exact ⟨k,x,hk,hrej,fun hall _ => hfault (.inl (hall q (by simp)))⟩

end Rounds

theorem reads_begin {m : Mem} (len : Nat) (h : m 0 = 0x20) :
    ∃ s, AtTag m [] s ∧ s.idxInBuff = 1 ∧ txBody len (TxParse.init m) = .inl s :=
  ⟨⟨.tagId, m, Mem.zero, 1, 0, 0, 0, 0, 0⟩,⟨rfl,fun _ _ => rfl,Nat.le_refl _,rfl⟩,rfl,
    by simp [txBody,TxParse.init,stBegin,h,u16]⟩

theorem line_stops {m : Mem} {len i n : Nat} {r : TxRead} {rs : List TxRead} (hpos : 0 < len)
    (hread : m.read 0 i = rs.flatMap TxRead.text ++ r.text)
    (hn : n = (rs.flatMap TxRead.wire).length + r.wire.length)
    (hreach : i ≤ len + 1 ∨ (r.value = [] ∧ i ≤ len + 6))
    (hbad : txBuffSz < n ∨ ((len ≤ i ∨ m i = 0x20) ∧ ¬ r.Checked) ∨
      (i < len ∧ m i ≠ 0x20 ∧ txBuffSz ≤ n)) :
    ∃ x, loop (txBody len) (len + 10) (TxParse.init m) = some x ∧ Rejects x ∧
      ((∀ q ∈ rs, q.Checked) → r.Checked ∨ txBuffSz + 1 < n ∨ (i < len ∧ m i ≠ 0x20) →
        ∃ e, x = .error e) := by
  obtain ⟨t,ht,-⟩ := texts_begin rs r
  have hl := congrArg List.length hread
  rw [ht,Mem.read_length,List.length_cons] at hl
  rw [ht,hl,Mem.read_succ,List.cons.injEq] at hread
  obtain ⟨s,hs,hidx,hbegin⟩ := reads_begin len hread.1
  obtain ⟨k,x,hk,hrej,hfault⟩ := objects_stop hs (Nat.zero_le _) ht (by rw [hidx]; exact hread.2)
    (show i = s.idxInBuff + t.length by omega) (by rw [hn,List.length_nil,Nat.zero_add]) hreach hbad
  obtain ⟨x',hx'⟩ := txLoop_total m hpos
  obtain rfl := loop_unique hx' ((loop_next hbegin).trans hk)
  exact ⟨x',hx',hrej,hfault⟩

theorem leaves_fault {m : Mem} {len : Nat} (hpos : 0 < len) (h : TxLeaves m len) :
    ∃ e, loop (txBody len) (len + 10) (TxParse.init m) = some (.error e) := by
  obtain ⟨i,n,r,⟨rs,hchk,hread,hn⟩,hreach,hfull⟩ := h
  obtain ⟨x,hx,-,hfault⟩ := line_stops hpos hread hn hreach (by
    rcases hfull with hover | hbyte | ⟨-,-,hover⟩
    · exact .inl (by omega)
    · exact .inr (.inr hbyte)
    · exact .inl hover)
  obtain ⟨e,rfl⟩ := hfault hchk (by
    rcases hfull with hover | hbyte | hend
    · exact .inr (.inl hover)
    · exact .inr (.inr ⟨hbyte.1,hbyte.2.1⟩)
    · exact .inl hend.2.1)
  exact ⟨e,hx⟩

def EncodesOver (m : Mem) (len : Nat) : Prop :=
  ∃ qs : List TxRead, m.read 0 len = qs.flatMap TxRead.text ∧
    txBuffSz < (qs.flatMap TxRead.wire).length

theorem over_rejected {m : Mem} {len : Nat} (h : EncodesOver m len) :
    ∃ x, loop (txBody len) (len + 10) (TxParse.init m) = some x ∧ Rejects x := by
  obtain ⟨qs,hread,hover⟩ := h
  have hne : qs ≠ [] := fun hnil => by simp [hnil] at hover
  obtain ⟨rs,r,rfl⟩ := List.eq_nil_or_concat qs |>.resolve_left hne
  rw [List.concat_eq_append,flatMap_snoc] at hread hover
  have hl := congrArg List.length hread
  rw [Mem.read_length,List.length_append,text_length] at hl
  rw [List.length_append] at hover
  obtain ⟨x,hx,hrej,-⟩ := line_stops (by omega) hread rfl (.inl (Nat.le_succ len)) (.inl hover)
  exact ⟨x,hx,hrej⟩

/-- Objects that `checkTypeLen` allows and that do not fit are never refused in time. -/
theorem TxLeaves.of_rendering {m : Mem} {len : Nat} {qs : List TxRead} (hchk : ∀ q ∈ qs, q.Checked)
    (hread : m.read 0 len = qs.flatMap TxRead.text) (hover : txBuffSz < (qs.flatMap TxRead.wire).length) :
    TxLeaves m len := by
  have hne : qs ≠ [] := fun hnil => by simp [hnil] at hover
  obtain ⟨rs,r,rfl⟩ := List.eq_nil_or_concat qs |>.resolve_left hne
  rw [List.concat_eq_append] at hchk hread hover
  rw [flatMap_snoc] at hread hover
  rw [List.length_append] at hover
  exact ⟨len,_,r,⟨rs,fun q hq => hchk q (by simp [hq]),hread,rfl⟩,.inl (Nat.le_succ len),
    .inr (.inr ⟨.inl (Nat.le_refl len),hchk r (by simp),hover⟩)⟩

/-- No line of up to 2044 characters leaves `tx_buff`. -/
theorem TxLeaves.long {m : Mem} {len : Nat} (h : TxLeaves m len) : 2044 < len := by
  obtain ⟨i,n,r,⟨rs,-,hread,hn⟩,hreach,hfull⟩ := h
  have hpace : ∀ rs : List TxRead,
      2 * (rs.flatMap TxRead.wire).length ≤ (rs.flatMap TxRead.text).length := by
    intro rs
    induction rs with
    | nil => simp
    | cons q rs ih =>
      simp only [List.flatMap_cons,List.length_append,text_length,wire_length]
      omega
  have hl := congrArg List.length hread
  have hrs := hpace rs
  rw [Mem.read_length,List.length_append,text_length] at hl
  rw [wire_length] at hn
  rw [txBuffSz] at hfull
  rcases hreach with hin | ⟨-,hin⟩ <;> omega

theorem tx_leaves {cfg : Connector} {httpRes : HttpResponse} {reqBuff inBuff : Mem} {inLen : UInt16}
    {net : NetOutcome} (hlong : 8 ≤ inLen) (h : TxLeaves inBuff inLen.toNat) :
    ∃ e, cmdAsciiCmdTx cfg httpRes reqBuff inBuff inLen net = some (.error e) := by
  have hpos : 0 < inLen.toNat := Nat.lt_of_lt_of_le (by decide) (UInt16.le_iff_toNat_le.1 hlong)
  obtain ⟨e,he⟩ := leaves_fault hpos h
  exact ⟨e,by rw [cmdAsciiCmdTx,if_neg (UInt16.not_lt.2 hlong),he]; rfl⟩

/-- `$$TX` writes inside `tx_buff`, and uploads nothing where the objects do not fit,
exactly on the lines that do not leave it. -/
theorem tx_stays_inside_iff (cfg : Connector) (httpRes : HttpResponse) (reqBuff inBuff : Mem)
    (inLen : UInt16) (net : NetOutcome) :
    (∃ run, cmdAsciiCmdTx cfg httpRes reqBuff inBuff inLen net = some (.ok run) ∧
      (EncodesOver inBuff inLen.toNat → run.upload = none)) ↔
    inLen < 8 ∨ ¬ TxLeaves inBuff inLen.toNat := by
  by_cases hshort : inLen < 8
  · exact ⟨fun _ => .inl hshort,fun _ => ⟨_,by rw [cmdAsciiCmdTx,if_pos hshort],fun _ => rfl⟩⟩
  by_cases hleaves : TxLeaves inBuff inLen.toNat
  · obtain ⟨e,he⟩ := @tx_leaves cfg httpRes reqBuff inBuff inLen net (UInt16.not_lt.1 hshort) hleaves
    rw [he]
    refine ⟨fun hrun => ?_,fun hnot => absurd hleaves (hnot.resolve_left hshort)⟩
    obtain ⟨run,herr,-⟩ := hrun
    cases herr
  refine ⟨fun _ => .inr hleaves,fun _ => ?_⟩
  have hpos : 0 < inLen.toNat :=
    Nat.lt_of_lt_of_le (by decide) (UInt16.le_iff_toNat_le.1 (UInt16.not_lt.1 hshort))
  obtain ⟨x,hx,hsize⟩ := txLoop_fits hpos hleaves
  simp only [cmdAsciiCmdTx,if_neg hshort,hx]
  cases x with
  | illParam => exact ⟨_,rfl,fun _ => rfl⟩
  | parsed buf size =>
    obtain ⟨up,hup,-⟩ := @upRaw_fits cfg httpRes reqBuff buf size net (hsize buf size rfl)
    have hover : ¬ EncodesOver inBuff inLen.toNat := by
      intro hover
      obtain ⟨y,hy,hrej⟩ := over_rejected hover
      rw [hx,Option.some.injEq] at hy
      exact hrej buf size hy.symm
    simp only [bind,Option.bind,Except.bind,pure,Except.pure,hup]
    split_ifs
    · exact ⟨_,rfl,fun h => absurd h hover⟩
    · exact ⟨_,rfl,fun h => absurd h hover⟩

def numbersLine : List UInt8 := (List.replicate 257 (zerosObject 1)).flatMap TxRead.text

theorem numbers_leave :
    numbersLine.length = 2313 ∧ EncodesOver (Mem.ofList numbersLine) 2313 ∧
      ∃ e, cmdAsciiCmdTx ⟨"/v0", "connector.sipf.iot.sakura.ad.jp", "", true⟩ .zero Mem.zero
        (Mem.ofList numbersLine) 2313 ⟨0, 3, 0, 0, 0, ⟨0, [], Mem.zero⟩⟩ = some (.error e) := by
  have hlen : numbersLine.length = 2313 := by
    rw [numbersLine,List.length_flatMap,List.map_replicate,List.sum_replicate,zerosObject_length]
    rfl
  have hread : (Mem.ofList numbersLine).read 0 2313 = numbersLine := by
    rw [← hlen]
    exact Mem.read_ofList _
  have hover : txBuffSz < ((List.replicate 257 (zerosObject 1)).flatMap TxRead.wire).length := by
    rw [List.length_flatMap,List.map_replicate,List.sum_replicate,wire_length]
    decide
  refine ⟨hlen,⟨_,hread,hover⟩,tx_leaves (by decide) (.of_rendering (fun q hq => ?_) hread hover)⟩
  rw [List.eq_of_mem_replicate hq]
  rfl

end SipfClient.Command
