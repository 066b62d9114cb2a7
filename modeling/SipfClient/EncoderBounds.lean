import SipfClient.ObjectWire
set_option autoImplicit false

/-!
Which object lists `SipfObjectCreateObjUpPayload` writes behind its buffer. The size
of the buffer is used to clear it and for nothing else.
-/

namespace SipfClient.Object
open ByteMem

/-- A write to `raw_buff` that is not inside it: of a header, or of the value behind one. -/
inductive RawFault (sz : Nat) (objs : List SipfObjectObject) : OutOfBounds → Prop
  | header (idx : Nat) (h : sz < idx + 3) : RawFault sz objs ⟨idx, 3, sz⟩
  | value (idx : Nat) (o : SipfObjectObject) (ho : o ∈ objs) (h : sz < idx + 3 + o.valueLen.toNat) :
      RawFault sz objs ⟨idx + 3, o.valueLen.toNat, sz⟩

theorem RawFault.cons {sz : Nat} {objs : List SipfObjectObject} {e : OutOfBounds}
    (h : RawFault sz objs e) (o : SipfObjectObject) : RawFault sz (o :: objs) e := by
  cases h with
  | header idx h => exact .header idx h
  | value idx p hp h => exact .value idx p (List.mem_cons_of_mem o hp) h

def acceptedObjs (objs : List SipfObjectObject) : List SipfObjectObject :=
  objs.takeWhile (Encodable ·)

/-- An odd length is noticed only behind the header. -/
def headerLeft (objs : List SipfObjectObject) : Nat :=
  match objs.dropWhile (Encodable ·) with
  | [] => 0
  | o :: _ => if o.valueLen ≤ 220 then 3 else 0

def neededSize (objs : List SipfObjectObject) : Nat :=
  encodedSize (acceptedObjs objs) + headerLeft objs

section Needed

variable {o : SipfObjectObject} (objs : List SipfObjectObject)

theorem neededSize_encodable (h : Encodable o) :
    neededSize (o :: objs) = (wireObject o).size + neededSize objs := by
  simp [neededSize,acceptedObjs,headerLeft,h,Nat.add_assoc]

theorem neededSize_refused (h : ¬ Encodable o) :
    neededSize (o :: objs) = if o.valueLen ≤ 220 then 3 else 0 := by
  simp [neededSize,acceptedObjs,headerLeft,h]

end Needed

section Faults

variable {sz : Nat} {objs : List SipfObjectObject} {e : OutOfBounds}

/-- The scratch buffer takes every value that gets as far as it. -/
theorem scratch_ok (work : Mem) {o : SipfObjectObject} (h : ¬ 220 < o.valueLen) :
    work.store 220 0 (byteSwap o) = .ok (work.copy 0 (byteSwap o)) := by
  have hl : o.valueLen.toNat ≤ 220 := UInt8.le_iff_toNat_le.mp (UInt8.not_lt.mp h)
  exact Mem.store_ok (by rw [byteSwap_eq]; simpa using hl)

theorem createLoop_fault {raw work : Mem} {idx : Nat}
    (h : createLoop sz objs raw work idx = .error e) : RawFault sz objs e := by
  induction objs generalizing raw work idx with
  | nil => cases h
  | cons o objs ih =>
    have hvalue : ∀ {m : Mem} {bs : List UInt8}, bs.length = o.valueLen.toNat →
        m.store sz (idx + 3) bs = .error e → RawFault sz (o :: objs) e := by
      intro m bs hbs hs
      obtain ⟨hout,rfl⟩ := Mem.store_eq_error hs
      rw [hbs] at hout ⊢
      exact .value idx o List.mem_cons_self hout
    rw [createLoop] at h
    by_cases hl : 220 < o.valueLen
    · rw [if_pos hl] at h
      cases h
    rw [if_neg hl] at h
    cases hs : raw.store sz idx [o.objType,o.objTagid,o.valueLen] with
    | error e' =>
      rw [hs] at h
      cases h
      obtain ⟨hout,rfl⟩ := Mem.store_eq_error hs
      exact .header idx hout
    | ok raw' =>
      rw [hs] at h
      simp only [bind,Except.bind] at h
      cases hk : keepsOrder o.objType with
      | true =>
        simp only [hk,if_true] at h
        cases hv : raw'.store sz (idx + 3) o.bytes with
        | error e' =>
          rw [hv] at h
          cases h
          exact hvalue o.bytes_length hv
        | ok raw'' =>
          rw [hv] at h
          exact (ih h).cons o
      | false =>
        simp only [hk,Bool.false_eq_true,if_false,scratch_ok work hl] at h
        split_ifs at h
        cases hv : raw'.store sz (idx + 3)
            ((work.copy 0 (byteSwap o)).read 0 o.valueLen.toNat) with
        | error e' =>
          rw [hv] at h
          cases h
          exact hvalue (Mem.read_length ..) hv
        | ok raw'' =>
          rw [hv] at h
          exact (ih h).cons o

theorem createLoop_refused_iff {o : SipfObjectObject} (h : ¬ Encodable o) (raw work : Mem) {idx : Nat}
    (hidx : idx ≤ sz) : (∃ r, createLoop sz (o :: objs) raw work idx = .ok r) ↔
      idx + (if o.valueLen ≤ 220 then 3 else 0) ≤ sz := by
  rw [createLoop]
  by_cases hl : 220 < o.valueLen
  · rw [if_pos hl,if_neg (UInt8.not_le.mpr hl)]
    exact iff_of_true ⟨_,rfl⟩ hidx
  rw [if_neg hl,if_pos (UInt8.not_lt.mp hl)]
  have hk : keepsOrder o.objType = false := by
    by_contra hk
    exact h ⟨UInt8.not_lt.mp hl,fun hf => absurd hf hk⟩
  have hodd : o.valueLen % 2 ≠ 0 := fun he => h ⟨UInt8.not_lt.mp hl,fun _ => he⟩
  by_cases hfit : idx + 3 ≤ sz
  · rw [Mem.store_ok hfit]
    simp only [bind,Except.bind,hk,Bool.false_eq_true,if_false,if_pos hodd]
    exact iff_of_true ⟨_,rfl⟩ hfit
  · rw [Mem.store_error (Nat.lt_of_not_le hfit)]
    refine iff_of_false ?_ hfit
    rintro ⟨r,hr⟩
    cases hr

theorem createLoop_ok_iff (raw work : Mem) {idx : Nat} (hidx : idx ≤ sz) :
    (∃ r, createLoop sz objs raw work idx = .ok r) ↔ idx + neededSize objs ≤ sz := by
  induction objs generalizing raw work idx with
  | nil => exact iff_of_true ⟨_,rfl⟩ hidx
  | cons o objs ih =>
    by_cases ho : Encodable o
    · rw [neededSize_encodable objs ho,← Nat.add_assoc]
      by_cases hfit : idx + (wireObject o).size ≤ sz
      · obtain ⟨raw',work',hstep,-⟩ := createLoop_stored ho objs raw work hfit
        rw [hstep]
        exact ih raw' work' hfit
      · obtain ⟨e,he⟩ := createLoop_faults ho objs raw work (Nat.lt_of_not_le hfit)
        rw [he]
        refine iff_of_false ?_ (by omega)
        rintro ⟨r,hr⟩
        cases hr
    · rw [neededSize_refused objs ho]
      exact createLoop_refused_iff ho raw work hidx

theorem createLoop_ret {raw work raw' : Mem} {idx : Nat} {ret : Int} (hidx : idx ≤ sz)
    (h : createLoop sz objs raw work idx = .ok (ret, raw')) (hlong : sz < idx + encodedSize objs) :
    ret < 0 := by
  by_cases hall : ∀ o ∈ objs, Encodable o
  · obtain ⟨e,he⟩ := createLoop_overflows hall raw work hidx hlong
    rw [he] at h
    cases h
  · rcases createLoop_negative hall raw work idx with ⟨raw'',hr⟩ | ⟨e,he⟩
    · rw [hr] at h
      cases h
      decide
    · rw [he] at h
      cases h

end Faults

/-- Every write to the buffer and to the scratch buffer is inside, and a list that does
not fit gives a negative result. -/
def RespectsBuffer (rawBuff : Option Mem) (szRawBuff : UInt16) (objs : List SipfObjectObject)
    (work : Mem) : Prop :=
  ∃ ret raw, sipfObjectCreateObjUpPayload rawBuff szRawBuff objs work = .ok (ret, raw) ∧
    (szRawBuff.toNat < encodedSize objs → ret < 0)

/-- The buffer is respected exactly if it has room for the objects in front of the first
one that is refused, and for the header of that one unless it is refused for its length;
all writes that go outside are to `raw_buff`. -/
theorem payload_inside_iff (rawBuff : Option Mem) (szRawBuff : UInt16) (objs : List SipfObjectObject)
    (work : Mem) :
    (RespectsBuffer rawBuff szRawBuff objs work ↔
      rawBuff = none ∨ neededSize objs ≤ szRawBuff.toNat) ∧
    ∀ e, sipfObjectCreateObjUpPayload rawBuff szRawBuff objs work = .error e →
      RawFault szRawBuff.toNat objs e := by
  cases rawBuff with
  | none =>
    refine ⟨iff_of_true ⟨-1,Mem.zero,rfl,fun _ => by decide⟩ (.inl rfl),?_⟩
    intro e he
    cases he
  | some raw =>
    refine ⟨?_,fun e he => createLoop_fault he⟩
    have hok := @createLoop_ok_iff szRawBuff.toNat objs
      (raw.copy 0 (List.replicate szRawBuff.toNat 0)) work 0 (Nat.zero_le _)
    rw [Nat.zero_add] at hok
    simp only [reduceCtorEq,false_or,← hok]
    constructor
    · rintro ⟨ret,raw',h,-⟩
      exact ⟨_,h⟩
    · rintro ⟨⟨ret,raw'⟩,h⟩
      exact ⟨ret,raw',h,fun hlong => createLoop_ret (Nat.zero_le _) h (by omega)⟩

def longObj (tag : UInt8) : SipfObjectObject :=
  ⟨objTypeBin, tag, 220, List.replicate 220 0, by rw [List.length_replicate]; decide⟩

/-- Three values of 220 bytes are written 157 bytes behind the 512 of the caller. -/
theorem payload_overruns :
    ¬ RespectsBuffer (some Mem.zero) 512 [longObj 1,longObj 2,longObj 3] Mem.zero := by
  rintro ⟨ret,raw,h,-⟩
  have hneed := (createLoop_ok_iff _ Mem.zero (Nat.zero_le 512)).1 ⟨_,h⟩
  exact absurd hneed (by decide +kernel)

end SipfClient.Object
