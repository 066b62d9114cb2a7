import SipfClient.HttpExchange
import SipfClient.LengthRecords
set_option autoImplicit false

namespace SipfClient.Object
open ByteMem

/-- `OBJ_TYPE_*`. `OBJ_TYPE_BIN` and `OBJ_TYPE_BIN_BASE64` are one number. -/
def objTypeUint8 : UInt8 := 0x00
def objTypeInt8 : UInt8 := 0x01
def objTypeUint16 : UInt8 := 0x02
def objTypeInt16 : UInt8 := 0x03
def objTypeUint32 : UInt8 := 0x04
def objTypeInt32 : UInt8 := 0x05
def objTypeUint64 : UInt8 := 0x06
def objTypeInt64 : UInt8 := 0x07
def objTypeFloat32 : UInt8 := 0x08
def objTypeFloat64 : UInt8 := 0x09
def objTypeBin : UInt8 := 0x10
def objTypeStrUtf8 : UInt8 := 0x20

def objectsUp : UInt8 := 0x00
def objidNotification : UInt8 := 0x02
def objectsDownRequest : UInt8 := 0x11
def objectsDown : UInt8 := 0x12

def objMaxCnt : Nat := 255

/-- `value` is the memory the value pointer gives access to: at least the
declared length of it can be read. -/
structure SipfObjectObject where
  objType : UInt8
  objTagid : UInt8
  valueLen : UInt8
  value : List UInt8
  readable : valueLen.toNat ≤ value.length
  deriving DecidableEq, Repr

def SipfObjectObject.bytes (o : SipfObjectObject) : List UInt8 := o.value.take o.valueLen.toNat

@[simp] theorem SipfObjectObject.bytes_length (o : SipfObjectObject) :
    o.bytes.length = o.valueLen.toNat := by
  have h := o.readable
  simp [bytes,h]

/-- `none` is the result -1. `value` tells whether `obj` and `obj->value` are
given; the value lands in a buffer of its own. -/
def sipfObjectParse (rawBuff : Option Mem) (rawLen : UInt16) (value : Option Unit) :
    Option SipfObjectObject :=
  match rawBuff, value with
  | none, _ => none
  | _, none => none
  | some raw, some () =>
    if rawLen < 4 ∨ 256 < rawLen then none
    else some ⟨raw 0, raw 1, raw 2, raw.read 3 (raw 2).toNat, by simp⟩

theorem sipfObjectParse_given (raw : Mem) {rawLen : UInt16} (h : ¬ (rawLen < 4 ∨ 256 < rawLen)) :
    sipfObjectParse (some raw) rawLen (some ()) =
      some ⟨raw 0, raw 1, raw 2, raw.read 3 (raw 2).toNat, by simp⟩ := by
  simp only [sipfObjectParse,if_neg h]

def sipfObjectParseReads (raw : Mem) : List Nat := List.range (3 + (raw 2).toNat)

/-- The types whose value goes out in the order it has in memory. -/
def keepsOrder (t : UInt8) : Bool :=
  t = objTypeUint8 ∨ t = objTypeInt8 ∨ t = objTypeBin ∨ t = objTypeStrUtf8

def byteSwap (o : SipfObjectObject) : List UInt8 :=
  (List.range o.valueLen.toNat).map fun j => o.bytes.getD (o.valueLen.toNat - j - 1) 0

/-- The loop over `objs` with `idx_raw_buff`. The negative result is -1; a write
outside `raw_buff` or outside the 220 bytes of `work` is a fault. -/
def createLoop (szRawBuff : Nat) : List SipfObjectObject → Mem → Mem → Nat →
    Except OutOfBounds (Int × Mem)
  | [], raw, _, idx => .ok (idx, raw)
  | o :: objs, raw, work, idx =>
    if 220 < o.valueLen then .ok (-1, raw)
    else do
      let raw ← raw.store szRawBuff idx [o.objType,o.objTagid,o.valueLen]
      if keepsOrder o.objType then
        let raw ← raw.store szRawBuff (idx + 3) o.bytes
        createLoop szRawBuff objs raw work (idx + 3 + o.valueLen.toNat)
      else if o.valueLen % 2 ≠ 0 then .ok (-1, raw)
      else
        let work ← work.store 220 0 (byteSwap o)
        let raw ← raw.store szRawBuff (idx + 3) (work.read 0 o.valueLen.toNat)
        createLoop szRawBuff objs raw work (idx + 3 + o.valueLen.toNat)

def sipfObjectCreateObjUpPayload (rawBuff : Option Mem) (szRawBuff : UInt16)
    (objs : List SipfObjectObject) (work : Mem) : Except OutOfBounds (Int × Mem) :=
  match rawBuff with
  | none => .ok (-1, Mem.zero)
  | some raw =>
    createLoop szRawBuff.toNat objs (raw.copy 0 (List.replicate szRawBuff.toNat 0)) work 0

/-- The encoder takes the object: its value is at most 220 bytes, and an even
number of them where they are swapped. -/
structure Encodable (o : SipfObjectObject) : Prop where
  short : o.valueLen ≤ 220
  even : keepsOrder o.objType = false → o.valueLen % 2 = 0

instance (o : SipfObjectObject) : Decidable (Encodable o) :=
  decidable_of_iff (o.valueLen ≤ 220 ∧ (keepsOrder o.objType = false → o.valueLen % 2 = 0))
    ⟨fun h => ⟨h.1,h.2⟩,fun h => ⟨h.short,h.even⟩⟩

def wireValue (o : SipfObjectObject) : List UInt8 :=
  if keepsOrder o.objType then o.bytes else o.bytes.reverse

@[simp] theorem wireValue_length (o : SipfObjectObject) :
    (wireValue o).length = o.valueLen.toNat := by
  unfold wireValue
  split <;> simp

def wireObject (o : SipfObjectObject) : LengthRecords.Record :=
  ⟨o.objType, o.objTagid, wireValue o, by simpa using o.valueLen.toNat_lt⟩

@[simp] theorem wireObject_size (o : SipfObjectObject) :
    (wireObject o).size = 3 + o.valueLen.toNat := by
  simp [wireObject,LengthRecords.Record.size]

theorem wireObject_bytes (o : SipfObjectObject) :
    (wireObject o).bytes = [o.objType,o.objTagid,o.valueLen] ++ wireValue o := by
  simp [LengthRecords.Record.bytes,LengthRecords.Record.len,wireObject]

def encodedSize (objs : List SipfObjectObject) : Nat :=
  LengthRecords.totalSize (objs.map wireObject)

theorem byteSwap_eq (o : SipfObjectObject) : byteSwap o = o.bytes.reverse := by
  apply List.ext_getElem (by simp [byteSwap])
  intro i hi hi'
  have hlt : i < o.valueLen.toNat := by simpa [byteSwap] using hi
  have hidx : o.valueLen.toNat - i - 1 < o.bytes.length := by simp; omega
  simp only [byteSwap,List.getElem_map,List.getElem_range,List.getElem_reverse,
    List.getD_eq_getElem _ _ hidx]
  congr 1
  simp only [SipfObjectObject.bytes_length]
  omega

theorem createLoop_refused {sz : Nat} {o : SipfObjectObject} (h : ¬ Encodable o)
    (objs : List SipfObjectObject) (raw work : Mem) (idx : Nat) :
    (∃ raw', createLoop sz (o :: objs) raw work idx = .ok (-1, raw')) ∨
      ∃ e, createLoop sz (o :: objs) raw work idx = .error e := by
  rw [createLoop]
  by_cases hl : 220 < o.valueLen
  · exact .inl ⟨raw,by simp [hl]⟩
  · rw [if_neg hl]
    cases hs : raw.store sz idx [o.objType,o.objTagid,o.valueLen] with
    | error e => exact .inr ⟨e,rfl⟩
    | ok raw' =>
      have hk : keepsOrder o.objType = false := by
        by_contra hk
        exact h ⟨UInt8.not_lt.mp hl,fun hf => absurd hf hk⟩
      have he : o.valueLen % 2 ≠ 0 := fun he => h ⟨UInt8.not_lt.mp hl,fun _ => he⟩
      refine .inl ⟨raw',?_⟩
      simp [hk,he,bind,Except.bind]

theorem createLoop_stored {sz : Nat} {o : SipfObjectObject} (h : Encodable o)
    (objs : List SipfObjectObject) (raw work : Mem) {idx : Nat}
    (hfit : idx + (wireObject o).size ≤ sz) :
    ∃ raw' work', createLoop sz (o :: objs) raw work idx =
        createLoop sz objs raw' work' (idx + (wireObject o).size) ∧
      raw'.read 0 (idx + (wireObject o).size) = raw.read 0 idx ++ (wireObject o).bytes := by
  rw [wireObject_size] at hfit
  have hl : ¬ 220 < o.valueLen := UInt8.not_lt.mpr h.short
  have hl' : o.valueLen.toNat ≤ 220 := UInt8.le_iff_toNat_le.mp h.short
  have hhead : raw.store sz idx [o.objType,o.objTagid,o.valueLen] =
      .ok (raw.copy idx [o.objType,o.objTagid,o.valueLen]) := Mem.store_ok (by simp; omega)
  have hread : ∀ bs : List UInt8, bs.length = o.valueLen.toNat →
      ((raw.copy idx [o.objType,o.objTagid,o.valueLen]).copy (idx + 3) bs).read 0
        (idx + (3 + o.valueLen.toNat)) =
      raw.read 0 idx ++ ([o.objType,o.objTagid,o.valueLen] ++ bs) := by
    intro bs hbs
    rw [← hbs,← Nat.add_assoc,Mem.read_copy_append]
    have hh := Mem.read_copy_append raw idx [o.objType,o.objTagid,o.valueLen]
    rw [List.length_cons,List.length_cons,List.length_cons,List.length_nil] at hh
    rw [hh,List.append_assoc]
  rw [createLoop,if_neg hl,hhead]
  rw [wireObject_size,wireObject_bytes,wireValue]
  cases hk : keepsOrder o.objType with
  | true =>
    refine ⟨_,work,?_,hread o.bytes (by simp)⟩
    simp only [bind,Except.bind,if_true]
    rw [Mem.store_ok (by simp; omega)]
    simp only [Nat.add_assoc]
  | false =>
    have hw : (work.copy 0 (byteSwap o)).read 0 o.valueLen.toNat = o.bytes.reverse := by
      have hr := Mem.read_copy work 0 (byteSwap o)
      rw [byteSwap_eq] at hr ⊢
      simpa using hr
    refine ⟨_,work.copy 0 (byteSwap o),?_,hread o.bytes.reverse (by simp)⟩
    simp only [bind,Except.bind,Bool.false_eq_true,if_false]
    rw [if_neg (by simpa using h.even hk),Mem.store_ok (by rw [byteSwap_eq]; simpa using hl')]
    simp only
    rw [Mem.store_ok (by simp; omega),hw]
    simp only [Nat.add_assoc]

theorem createLoop_faults {sz : Nat} {o : SipfObjectObject} (h : Encodable o)
    (objs : List SipfObjectObject) (raw work : Mem) {idx : Nat}
    (hfit : sz < idx + (wireObject o).size) :
    ∃ e, createLoop sz (o :: objs) raw work idx = .error e := by
  rw [wireObject_size] at hfit
  have hl : ¬ 220 < o.valueLen := UInt8.not_lt.mpr h.short
  have hl' : o.valueLen.toNat ≤ 220 := UInt8.le_iff_toNat_le.mp h.short
  rw [createLoop,if_neg hl]
  cases hs : raw.store sz idx [o.objType,o.objTagid,o.valueLen] with
  | error e => exact ⟨e,rfl⟩
  | ok raw' =>
    cases hk : keepsOrder o.objType with
    | true =>
      simp only [bind,Except.bind,if_true]
      rw [Mem.store_error (by simp; omega)]
      exact ⟨_,rfl⟩
    | false =>
      simp only [bind,Except.bind,Bool.false_eq_true,if_false]
      rw [if_neg (by simpa using h.even hk),Mem.store_ok (by rw [byteSwap_eq]; simpa using hl')]
      simp only
      rw [Mem.store_error (by simp; omega)]
      exact ⟨_,rfl⟩

@[simp] theorem encodedSize_nil : encodedSize [] = 0 := rfl

@[simp] theorem encodedSize_cons (o : SipfObjectObject) (objs : List SipfObjectObject) :
    encodedSize (o :: objs) = (wireObject o).size + encodedSize objs := by simp [encodedSize]

theorem createLoop_encodes {sz : Nat} {objs : List SipfObjectObject} (h : ∀ o ∈ objs, Encodable o)
    (raw work : Mem) {idx : Nat} (hfit : idx + encodedSize objs ≤ sz) :
    ∃ raw', createLoop sz objs raw work idx = .ok ((idx + encodedSize objs : Nat), raw') ∧
      raw'.read 0 (idx + encodedSize objs) =
        raw.read 0 idx ++ LengthRecords.encode (objs.map wireObject) := by
  induction objs generalizing raw work idx with
  | nil => exact ⟨raw,rfl,by simp [LengthRecords.encode]⟩
  | cons o objs ih =>
    rw [encodedSize_cons] at hfit
    obtain ⟨raw',work',hstep,hread⟩ :=
      createLoop_stored (h o (by simp)) objs raw work
        (show idx + (wireObject o).size ≤ sz by omega)
    obtain ⟨raw'',hrest,hread'⟩ := ih (fun p hp => h p (by simp [hp])) raw' work'
      (show idx + (wireObject o).size + encodedSize objs ≤ sz by omega)
    refine ⟨raw'',?_,?_⟩
    · rw [hstep,hrest,encodedSize_cons,Nat.add_assoc]
    · rw [encodedSize_cons,← Nat.add_assoc,hread',hread,List.map_cons,LengthRecords.encode,
        List.append_assoc]

theorem createLoop_overflows {sz : Nat} {objs : List SipfObjectObject}
    (h : ∀ o ∈ objs, Encodable o) (raw work : Mem) {idx : Nat} (hidx : idx ≤ sz)
    (hfit : sz < idx + encodedSize objs) : ∃ e, createLoop sz objs raw work idx = .error e := by
  induction objs generalizing raw work idx with
  | nil => simp at hfit; omega
  | cons o objs ih =>
    rw [encodedSize_cons] at hfit
    by_cases ho : idx + (wireObject o).size ≤ sz
    · obtain ⟨raw',work',hstep,_⟩ := createLoop_stored (h o (by simp)) objs raw work ho
      rw [hstep]
      exact ih (fun p hp => h p (by simp [hp])) raw' work' ho (by omega)
    · exact createLoop_faults (h o (by simp)) objs raw work (by omega)

theorem createLoop_negative {sz : Nat} {objs : List SipfObjectObject}
    (h : ¬ ∀ o ∈ objs, Encodable o) (raw work : Mem) (idx : Nat) :
    (∃ raw', createLoop sz objs raw work idx = .ok (-1, raw')) ∨
      ∃ e, createLoop sz objs raw work idx = .error e := by
  induction objs generalizing raw work idx with
  | nil => simp at h
  | cons o objs ih =>
    by_cases ho : Encodable o
    · have hrest : ¬ ∀ p ∈ objs, Encodable p := fun hr => h (by simpa using ⟨ho,hr⟩)
      by_cases hfit : idx + (wireObject o).size ≤ sz
      · obtain ⟨raw',work',hstep,_⟩ := createLoop_stored ho objs raw work hfit
        rw [hstep]
        exact ih hrest raw' work' _
      · exact .inr (createLoop_faults ho objs raw work (by omega))
    · exact createLoop_refused ho objs raw work idx

end SipfClient.Object
