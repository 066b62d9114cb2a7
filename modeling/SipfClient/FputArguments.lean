import SipfClient.SessionEnds
import SipfClient.LineGrammar
import SipfClient.TxLaws
import SipfClient.CText
set_option autoImplicit false

namespace SipfClient.Xmodem
open ByteMem HexText CText Command

theorem last_split {s : List UInt8} {x : UInt8} (h : x ∈ s) : ∃ a b, s = a ++ x :: b ∧ x ∉ b := by
  obtain ⟨b,a,hsplit,hb⟩ := List.eq_append_cons_of_mem (List.mem_reverse.2 h)
  refine ⟨a.reverse,b.reverse,?_,by rwa [List.mem_reverse]⟩
  rw [← List.reverse_reverse s,hsplit]
  simp

section Digits

def AllDigits (digits : List UInt8) : Prop := ∀ d ∈ digits, isXdigit d = true

theorem hexToUint8_iff {m : Mem} :
    (hexToUint8 m).2 = 0 ↔ isXdigit (m 0) = true ∧ isXdigit (m 1) = true := by
  cases hp : pairValue (m 0) (m 1) with
  | some v =>
    obtain ⟨hi,lo,hhi,hlo,-⟩ := pairValue_toNat hp
    rw [hexToUint8_ok hp,isXdigit_value,isXdigit_value]
    exact iff_of_true rfl ⟨⟨hi,hhi⟩,lo,hlo⟩
  | none =>
    refine iff_of_false (hexToUint8_err hp) fun ⟨h0,h1⟩ => ?_
    obtain ⟨hi,hhi⟩ := isXdigit_value.1 h0
    obtain ⟨lo,hlo⟩ := isXdigit_value.1 h1
    simp [pairValue,hhi,hlo] at hp

theorem hexToUint8_value {m : Mem} (h : isXdigit (m 0) = true ∧ isXdigit (m 1) = true) :
    (hexToUint8 m).1.toNat = hexValue [m 0,m 1] := by
  obtain ⟨hi,hhi⟩ := isXdigit_value.1 h.1
  obtain ⟨lo,hlo⟩ := isXdigit_value.1 h.2
  have hp : pairValue (m 0) (m 1) = some (hi <<< 4 ||| lo) := by simp [pairValue,hhi,hlo]
  obtain ⟨x,y,hx,hy,hvalue⟩ := pairValue_toNat hp
  rw [hexToUint8_ok hp,hvalue]
  simp only [hexValue,List.foldl_cons,List.foldl_nil,hx,hy,Option.getD_some]
  omega

theorem shifted_value (b : UInt8) {k : UInt32} (hk : k.toNat ≤ 24) :
    (b.toUInt32 <<< k).toNat = b.toNat * 2 ^ k.toNat := by
  have hmod : k.toNat % 32 = k.toNat := Nat.mod_eq_of_lt (by omega)
  have hlt : b.toNat * 2 ^ k.toNat < 2 ^ 8 * 2 ^ 24 :=
    Nat.mul_lt_mul_of_lt_of_le b.toNat_lt (Nat.pow_le_pow_right (by decide) hk) (by decide)
  rw [UInt32.toNat_shiftLeft,UInt8.toNat_toUInt32,hmod,Nat.shiftLeft_eq]
  exact Nat.mod_eq_of_lt hlt

theorem word_value (b3 b2 b1 b0 : UInt8) :
    ((b3.toUInt32 <<< 24) + (b2.toUInt32 <<< 16) + (b1.toUInt32 <<< 8) + b0.toUInt32).toNat =
      ((b3.toNat * 256 + b2.toNat) * 256 + b1.toNat) * 256 + b0.toNat := by
  have h3 := b3.toNat_lt
  have h2 := b2.toNat_lt
  have h1 := b1.toNat_lt
  have h0 := b0.toNat_lt
  have e3 : (b3.toUInt32 <<< 24).toNat = b3.toNat * 2 ^ 24 := shifted_value b3 (by decide)
  have e2 : (b2.toUInt32 <<< 16).toNat = b2.toNat * 2 ^ 16 := shifted_value b2 (by decide)
  have e1 : (b1.toUInt32 <<< 8).toNat = b1.toNat * 2 ^ 8 := shifted_value b1 (by decide)
  simp only [UInt32.toNat_add,e3,e2,e1,UInt8.toNat_toUInt32]
  omega

section Size

variable {size : Mem}

theorem size_read : size.read 0 8 = [size 0,size 1,size 2,size 3,size 4,size 5,size 6,size 7] := rfl

theorem size_digits_iff : AllDigits (size.read 0 8) ↔ (hexToUint8 size).2 = 0 ∧
    (hexToUint8 (size.shift 2)).2 = 0 ∧ (hexToUint8 (size.shift 4)).2 = 0 ∧
    (hexToUint8 (size.shift 6)).2 = 0 := by
  rw [size_read]
  simp [AllDigits,hexToUint8_iff,and_assoc]

theorem size_value (h : AllDigits (size.read 0 8)) :
    (((hexToUint8 size).1.toUInt32 <<< 24) + ((hexToUint8 (size.shift 2)).1.toUInt32 <<< 16) +
      ((hexToUint8 (size.shift 4)).1.toUInt32 <<< 8) + (hexToUint8 (size.shift 6)).1.toUInt32).toNat =
    hexValue (size.read 0 8) := by
  obtain ⟨h3,h2,h1,h0⟩ := size_digits_iff.1 h
  rw [word_value,hexToUint8_value (hexToUint8_iff.1 h3),hexToUint8_value (hexToUint8_iff.1 h2),
    hexToUint8_value (hexToUint8_iff.1 h1),hexToUint8_value (hexToUint8_iff.1 h0),size_read]
  simp only [hexValue,List.foldl_cons,List.foldl_nil,Mem.shift_apply,Nat.reduceAdd]
  omega

theorem size_iff {fileId : List UInt8} {args : FputArgs} :
    (if (hexToUint8 size).2 ≠ 0 ∨ (hexToUint8 (size.shift 2)).2 ≠ 0 ∨
        (hexToUint8 (size.shift 4)).2 ≠ 0 ∨ (hexToUint8 (size.shift 6)).2 ≠ 0 then none
      else some (FputArgs.mk fileId (((hexToUint8 size).1.toUInt32 <<< 24) +
        ((hexToUint8 (size.shift 2)).1.toUInt32 <<< 16) +
        ((hexToUint8 (size.shift 4)).1.toUInt32 <<< 8) + (hexToUint8 (size.shift 6)).1.toUInt32)))
        = some args ↔
      AllDigits (size.read 0 8) ∧ args.fileId = fileId ∧
        args.fileSize.toNat = hexValue (size.read 0 8) := by
  by_cases hdigits : AllDigits (size.read 0 8)
  · obtain ⟨h3,h2,h1,h0⟩ := size_digits_iff.1 hdigits
    rw [if_neg (by simp [h3,h2,h1,h0]),Option.some_inj,← size_value hdigits,UInt32.toNat_inj]
    constructor
    · rintro rfl
      exact ⟨hdigits,rfl,rfl⟩
    · rintro ⟨-,hid,hsize⟩
      cases args
      cases hid
      cases hsize
      rfl
  · rw [if_pos ?_]
    · exact iff_of_false (by simp) fun h => hdigits h.1
    rw [size_digits_iff] at hdigits
    simpa only [ne_eq,← not_and_or] using hdigits

end Size

end Digits

section Line

def cutMem (params : List UInt8) : Mem := fun i =>
  if i ∈ (List.range params.length).filter fun i => 1 ≤ i ∧ Mem.ofList params i = 0x20 then 0
  else Mem.ofList params i

theorem cutMem_apply (params : List UInt8) {i : Nat} (hi : 1 ≤ i) :
    cutMem params i = if Mem.ofList params i = 0x20 then 0 else Mem.ofList params i := by
  have hmem : (i ∈ (List.range params.length).filter fun i => 1 ≤ i ∧ Mem.ofList params i = 0x20) ↔
      Mem.ofList params i = 0x20 := by
    simp only [List.mem_filter,List.mem_range,decide_eq_true_eq]
    refine ⟨fun h => h.2.2,fun h => ⟨?_,hi,h⟩⟩
    by_contra hge
    rw [Mem.ofList_ge _ (Nat.le_of_not_lt hge)] at h
    cases h
  simp only [cutMem,hmem]

variable {before digits : List UInt8}

theorem ofList_size (i : Nat) :
    Mem.ofList (0x20 :: (before ++ 0x20 :: digits)) (before.length + 2 + i) = Mem.ofList digits i := by
  have hdrop : (0x20 :: (before ++ 0x20 :: digits)).drop (before.length + 2) = digits := by
    simp [List.drop_append,List.drop_eq_nil_of_le]
  exact (congrFun (ofList_shift _ _) i).trans (by rw [hdrop])

/-- The loop leaves the last of the spaces as the separator. -/
theorem spaces_last (hdigits : (0x20 : UInt8) ∉ digits) :
    ((List.range (0x20 :: (before ++ 0x20 :: digits)).length).filter fun i =>
      1 ≤ i ∧ Mem.ofList (0x20 :: (before ++ 0x20 :: digits)) i = 0x20).getLast? =
      some (before.length + 1) := by
  have hlen : (0x20 :: (before ++ 0x20 :: digits)).length =
      before.length + 1 + 1 + digits.length := by
    simp only [List.length_cons,List.length_append]
    omega
  have hsep : Mem.ofList (0x20 :: (before ++ 0x20 :: digits)) (before.length + 1) = 0x20 := by
    simp [Mem.ofList]
  have hbehind : ∀ i, Mem.ofList (0x20 :: (before ++ 0x20 :: digits)) (before.length + 2 + i) ≠ 0x20 := by
    intro i hi
    exact hdigits (List.mem_of_getElem? ((ofList_eq_space _ _).1 ((ofList_size i).symm.trans hi)))
  generalize Mem.ofList (0x20 :: (before ++ 0x20 :: digits)) = m at hsep hbehind
  have hnone : ((List.range digits.length).map (before.length + 1 + 1 + ·)).filter
      (fun i => decide (1 ≤ i ∧ m i = 0x20)) = [] := by
    simpa using fun i _ _ => hbehind i
  rw [hlen,List.range_add,List.filter_append,hnone,List.append_nil,List.range_succ,
    List.filter_append]
  simp [hsep]

theorem spaces_none {rest : List UInt8} (h : (0x20 : UInt8) ∉ rest) :
    ((List.range (0x20 :: rest).length).filter fun i =>
      1 ≤ i ∧ Mem.ofList (0x20 :: rest) i = 0x20) = [] := by
  simp only [List.filter_eq_nil_iff,decide_eq_true_eq,not_and]
  intro i _ hi hspace
  obtain ⟨k,rfl⟩ : ∃ k, i = k + 1 := ⟨i - 1, by omega⟩
  rw [ofList_eq_space,List.getElem?_cons_succ] at hspace
  exact h (List.mem_of_getElem? hspace)

theorem cutMem_size (hdigits : (0x20 : UInt8) ∉ digits) :
    (cutMem (0x20 :: (before ++ 0x20 :: digits))).shift (before.length + 2) = Mem.ofList digits := by
  funext i
  rw [Mem.shift_apply,cutMem_apply _ (by omega),ofList_size,if_neg]
  exact fun hspace => hdigits (List.mem_of_getElem? ((ofList_eq_space _ _).1 hspace))

theorem takeWhile_cut {s : List UInt8} (h : (0 : UInt8) ∉ s) :
    (s.map fun b => if b = 0x20 then 0 else b).takeWhile (· ≠ 0) = s.takeWhile (· ≠ 0x20) := by
  induction s with
  | nil => rfl
  | cons b s ih =>
    obtain ⟨hb,hs⟩ := not_or.1 (mt List.mem_cons.2 h)
    by_cases hspace : b = 0x20
    · simp [hspace]
    · simpa [hspace,Ne.symm hb] using ih hs

theorem cutMem_id (hnul : (0 : UInt8) ∉ before) :
    ((cutMem (0x20 :: (before ++ 0x20 :: digits))).read 1
      (0x20 :: (before ++ 0x20 :: digits)).length).takeWhile (· ≠ 0) =
        before.takeWhile (· ≠ 0x20) := by
  have hlen : (0x20 :: (before ++ 0x20 :: digits)).length = before.length + (digits.length + 1 + 1) := by
    simp only [List.length_cons,List.length_append]
    omega
  have hid : (cutMem (0x20 :: (before ++ 0x20 :: digits))).read 1 before.length =
      before.map fun b => if b = 0x20 then 0 else b := by
    apply List.ext_getElem (by simp)
    intro i hi hi'
    rw [Mem.read_getElem,cutMem_apply _ (by omega),List.getElem_map]
    rw [Mem.read_length] at hi
    simp [Mem.ofList,Nat.add_comm 1 i,List.getElem?_append_left hi,hi]
  have hsep : cutMem (0x20 :: (before ++ 0x20 :: digits)) (1 + before.length) = 0 := by
    rw [cutMem_apply _ (by omega),if_pos (by simp [Mem.ofList,Nat.add_comm 1])]
  rw [hlen,Mem.read_add,Mem.read_succ,hsep,takeWhile_before (by decide),hid,takeWhile_cut hnul]

end Line

section Parameters

/-- A non-empty id without a space, and the size in eight digits. -/
def FputParams (params : List UInt8) (args : FputArgs) : Prop :=
  ∃ digits, params = 0x20 :: (args.fileId ++ 0x20 :: digits) ∧ args.fileId ≠ [] ∧
    (0x20 : UInt8) ∉ args.fileId ∧ digits.length = 8 ∧ AllDigits digits ∧
    args.fileSize.toNat = hexValue digits

/-- The size behind the last space, and for the id what is in front of the first one. -/
def FputFields (params : List UInt8) (args : FputArgs) : Prop :=
  ∃ before digits, params = 0x20 :: (before ++ 0x20 :: digits) ∧ digits.length = 8 ∧
    AllDigits digits ∧ args.fileId = before.takeWhile (· ≠ 0x20) ∧
    args.fileSize.toNat = hexValue digits

theorem AllDigits.spaceless {digits : List UInt8} (h : AllDigits digits) : (0x20 : UInt8) ∉ digits :=
  fun hmem => absurd (h 0x20 hmem) (by decide)

theorem length_eight_iff {digits : List UInt8} (hnul : (0 : UInt8) ∉ digits) :
    ((List.range 8).all (fun i => decide (Mem.ofList digits i ≠ 0)) = true ∧
      Mem.ofList digits 8 = 0) ↔ digits.length = 8 := by
  have hzero : ∀ i, Mem.ofList digits i = 0 ↔ digits.length ≤ i := fun i => by
    refine ⟨fun h => ?_,Mem.ofList_ge digits⟩
    by_contra hlt
    rw [Mem.ofList_lt digits (Nat.lt_of_not_le hlt)] at h
    exact hnul (h ▸ List.getElem_mem _)
  simp only [List.all_eq_true,List.mem_range,decide_eq_true_eq,ne_eq,hzero]
  constructor
  · intro h
    have h7 := h.1 7 (by decide)
    omega
  · intro h
    exact ⟨fun i hi => by omega,by omega⟩

theorem fputArgs_line {before digits : List UInt8} {args : FputArgs}
    (hnul : (0 : UInt8) ∉ before ++ digits) (hspace : (0x20 : UInt8) ∉ digits)
    (hlen : (0x20 :: (before ++ 0x20 :: digits)).length ≤ 4095) :
    fputArgs (Mem.ofList (0x20 :: (before ++ 0x20 :: digits)))
        (UInt16.ofNat (0x20 :: (before ++ 0x20 :: digits)).length) = some args ↔
      digits.length = 8 ∧ AllDigits digits ∧ args.fileId = before.takeWhile (· ≠ 0x20) ∧
        args.fileSize.toNat = hexValue digits := by
  rw [List.mem_append,not_or] at hnul
  have hn := length_ofNat hlen
  have hlong : ¬ UInt16.ofNat (0x20 :: (before ++ 0x20 :: digits)).length < 2 := by
    rw [UInt16.lt_iff_toNat_lt,hn]
    simp only [List.length_cons,List.length_append]
    show ¬ _ < 2
    omega
  have hfirst : ¬ Mem.ofList (0x20 :: (before ++ 0x20 :: digits)) 0 ≠ 0x20 := not_not.2 rfl
  have hcut : (fun i => if i ∈ (List.range (0x20 :: (before ++ 0x20 :: digits)).length).filter
      (fun i => 1 ≤ i ∧ Mem.ofList (0x20 :: (before ++ 0x20 :: digits)) i = 0x20) then 0
      else Mem.ofList (0x20 :: (before ++ 0x20 :: digits)) i) =
    cutMem (0x20 :: (before ++ 0x20 :: digits)) := rfl
  simp only [fputArgs,if_neg hfirst,if_neg hlong,hn,hcut,spaces_last hspace]
  simp only [cutMem_size hspace,length_eight_iff hnul.2,cutMem_id hnul.1]
  by_cases height : digits.length = 8
  · have hread : (Mem.ofList digits).read 0 8 = digits := height ▸ Mem.read_ofList digits
    rw [if_pos height]
    refine size_iff.trans ?_
    rw [hread]
    exact (and_iff_right height).symm
  · rw [if_neg height]
    exact iff_of_false (by simp) fun h => height h.1

theorem fputArgs_iff {params : List UInt8} {args : FputArgs} (hnul : (0 : UInt8) ∉ params)
    (hlen : params.length ≤ 4095) :
    fputArgs (Mem.ofList params) (UInt16.ofNat params.length) = some args ↔
      FputFields params args := by
  constructor
  · intro h
    have hfirst : ¬ Mem.ofList params 0 ≠ 0x20 := fun hne => by
      rw [fputArgs,if_pos hne] at h
      cases h
    cases params with
    | nil => cases hfirst (by decide)
    | cons x rest =>
      obtain rfl : x = 0x20 := not_not.1 hfirst
      have hmem : (0x20 : UInt8) ∈ rest := by
        by_contra hno
        simp only [fputArgs,if_neg hfirst,length_ofNat hlen,spaces_none hno,List.getLast?_nil] at h
        split_ifs at h
      obtain ⟨before,digits,rfl,hspace⟩ := last_split hmem
      have hparts : (0 : UInt8) ∉ before ++ digits := by
        simp only [List.mem_cons,List.mem_append,not_or] at hnul ⊢
        exact ⟨hnul.2.1,hnul.2.2.2⟩
      exact ⟨before,digits,rfl,(fputArgs_line hparts hspace hlen).1 h⟩
  · rintro ⟨before,digits,rfl,height,hall,hfields⟩
    have hparts : (0 : UInt8) ∉ before ++ digits := by
      simp only [List.mem_cons,List.mem_append,not_or] at hnul ⊢
      exact ⟨hnul.2.1,hnul.2.2.2⟩
    exact (fputArgs_line hparts hall.spaceless hlen).2 ⟨height,hall,hfields⟩

/-- A session starts on the grammar alone, with the id and the size it names. -/
structure FputExact (params : List UInt8) : Prop where
  starts : ∀ args, FputParams params args → ∀ (course : List UInt8 → UploadCourse) (block : Mem)
    (io : Io RxEvent),
    cmdAsciiCmdFput (Mem.ofList params) (UInt16.ofNat params.length) course block io =
      fputSession xmodemReceiveBlock args (course args.fileId) block io
  refuses : (∀ args, ¬ FputParams params args) → ∀ (course : List UInt8 → UploadCourse)
    (block : Mem) (io : Io RxEvent),
    cmdAsciiCmdFput (Mem.ofList params) (UInt16.ofNat params.length) course block io =
      some ⟨.ok cmdCreateResIllParam, none, io⟩

/-- What starts a session besides: nothing for an id, or spaces in it. -/
def FputTolerated (params : List UInt8) : Prop :=
  ∃ before digits, params = 0x20 :: (before ++ 0x20 :: digits) ∧ digits.length = 8 ∧
    AllDigits digits ∧ (before = [] ∨ (0x20 : UInt8) ∈ before)

theorem fputSession_mute (args : FputArgs) (course : UploadCourse) (block : Mem) :
    ∃ io, fputSession xmodemReceiveBlock args course block ⟨[],[false],[],[]⟩ =
      some ⟨.error (-1), none, io⟩ := ⟨_,rfl⟩

section Accepted

variable {params : List UInt8}

theorem fields_iff (htol : ¬ FputTolerated params) {args : FputArgs} :
    FputFields params args ↔ FputParams params args := by
  constructor
  · rintro ⟨before,digits,hform,height,hall,hid,hsize⟩
    have hclean : ¬ (before = [] ∨ (0x20 : UInt8) ∈ before) := fun hbad =>
      htol ⟨before,digits,hform,height,hall,hbad⟩
    obtain ⟨hne,hspace⟩ := not_or.1 hclean
    rw [takeWhile_ne hspace] at hid
    rw [← hid] at hform hne hspace
    exact ⟨digits,hform,hne,hspace,height,hall,hsize⟩
  · rintro ⟨digits,hform,hne,hspace,height,hall,hsize⟩
    exact ⟨args.fileId,digits,hform,height,hall,(takeWhile_ne hspace).symm,hsize⟩

theorem FputTolerated.fields (h : FputTolerated params) :
    (∃ args, FputFields params args) ∧ ∀ args, ¬ FputParams params args := by
  obtain ⟨before,digits,hform,height,hall,hbad⟩ := h
  constructor
  · have hlt := hexValue_lt digits
    rw [height] at hlt
    exact ⟨⟨before.takeWhile (· ≠ 0x20),UInt32.ofNat (hexValue digits)⟩,before,digits,hform,height,
      hall,rfl,by rw [UInt32.toNat_ofNat']; exact Nat.mod_eq_of_lt hlt⟩
  · rintro args ⟨ds,hparams,hne,hspace,height',-⟩
    rw [hform,List.cons.injEq] at hparams
    have hsame := (List.append_inj' hparams.2 (by simp [height,height'])).1
    rcases hbad with rfl | hmem
    · exact hne hsame.symm
    · exact hspace (hsame ▸ hmem)

theorem fput_exact_iff (hnul : (0 : UInt8) ∉ params) (hlen : params.length ≤ 4095) :
    FputExact params ↔ ¬ FputTolerated params := by
  constructor
  · intro h htol
    obtain ⟨⟨args,hfields⟩,hno⟩ := htol.fields
    have hargs := (fputArgs_iff hnul hlen).2 hfields
    -- A queue that is full at once shows the session that was started.
    obtain ⟨io,hmute⟩ := fputSession_mute args noUrl Mem.zero
    have hrun := (fput_session hargs (fun _ => noUrl) Mem.zero ⟨[],[false],[],[]⟩).symm.trans
      (h.refuses hno (fun _ => noUrl) Mem.zero ⟨[],[false],[],[]⟩)
    rw [hmute] at hrun
    cases hrun
  · intro htol
    refine ⟨fun args hp course block io => ?_,fun hno course block io => ?_⟩
    · exact fput_session ((fputArgs_iff hnul hlen).2 ((fields_iff htol).2 hp)) course block io
    · refine fput_illParam (Option.eq_none_iff_forall_ne_some.2 fun args hargs => ?_) course block io
      exact hno args ((fields_iff htol).1 ((fputArgs_iff hnul hlen).1 hargs))

end Accepted

def namedParams : List UInt8 := ascii " FILE 0000000A"

theorem fput_exact_iff_named : FputExact namedParams ↔ ¬ FputTolerated namedParams :=
  fput_exact_iff (by decide) (by decide)

/-- The line "$FPUT MY FILE 0000000A" uploads as "MY". -/
theorem spaced_id_accepted : ¬ FputExact (ascii " MY FILE 0000000A") := by
  intro h
  have hspace : 0x20 ∈ ascii "MY FILE" := by decide
  have hdigits : ∀ d ∈ ascii "0000000A", isXdigit d = true := by decide +kernel
  have htol : FputTolerated (ascii " MY FILE 0000000A") :=
    ⟨ascii "MY FILE",ascii "0000000A",by decide,by decide,hdigits,.inr hspace⟩
  have hrun := h.refuses htol.fields.2 (fun _ => noUrl) Mem.zero ⟨[],[false],[],[]⟩
  cases hrun

end Parameters

end SipfClient.Xmodem
