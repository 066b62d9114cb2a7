import SipfClient.DownloadLaws
set_option autoImplicit false

namespace SipfClient.Object
open ByteMem LengthRecords

/-- `n` objects read from `idx` on, each behind the value of the one before it, and the
offset behind the last. -/
def parseWalk (buf : Mem) : Nat → Nat → Option (List SipfObjectObject × Nat)
  | 0, idx => some ([], idx)
  | n + 1, idx => do
    let o ← sipfObjectParse (some (buf.shift idx)) 256 (some ())
    let (rest, stop) ← parseWalk buf n (idx + (3 + o.valueLen.toNat))
    pure (o :: rest, stop)

structure ReadBack (o p : SipfObjectObject) : Prop where
  kind : p.objType = o.objType
  tag : p.objTagid = o.objTagid
  len : p.valueLen = o.valueLen
  kept : o.objType = objTypeUint8 ∨ o.objType = objTypeInt8 ∨ o.objType = objTypeBin ∨
    o.objType = objTypeStrUtf8 → p.bytes = o.bytes
  swapped : ¬ (o.objType = objTypeUint8 ∨ o.objType = objTypeInt8 ∨ o.objType = objTypeBin ∨
    o.objType = objTypeStrUtf8) → p.bytes = o.bytes.reverse

theorem readBack_of_parsesTo {o p : SipfObjectObject} (hk : p.objType = (wireObject o).kind)
    (ht : p.objTagid = (wireObject o).tag) (hl : p.valueLen = (wireObject o).len)
    (hv : p.bytes = (wireObject o).value) : ReadBack o p := by
  have hlen : (wireObject o).len = o.valueLen := by
    simp [Record.len,wireObject]
  have hvalue : (wireObject o).value = wireValue o := rfl
  refine ⟨hk,ht,hl.trans hlen,fun h => ?_,fun h => ?_⟩
  · rw [hv,hvalue,wireValue,if_pos (by simpa [keepsOrder] using h)]
  · rw [hv,hvalue,wireValue,if_neg (by simpa [keepsOrder] using h)]

theorem parseWalk_encoded {buf : Mem} {objs : List SipfObjectObject} {idx : Nat}
    (h : buf.read idx (encodedSize objs) = encode (objs.map wireObject)) :
    ∃ ps, parseWalk buf objs.length idx = some (ps, idx + encodedSize objs) ∧
      List.Forall₂ ReadBack objs ps := by
  induction objs generalizing idx with
  | nil => exact ⟨[],rfl,.nil⟩
  | cons o objs ih =>
    have hsize := wireObject_size o
    rw [encodedSize_cons,List.map_cons,encode] at h
    obtain ⟨p,hp,hk,ht,hl,hv⟩ := parsesTo_of_at (at_of_read h)
    have hback := readBack_of_parsesTo hk ht hl hv
    rw [Mem.read_add] at h
    obtain ⟨ps,hps,hall⟩ := ih (List.append_inj h (by simp)).2
    refine ⟨p :: ps,?_,.cons hback hall⟩
    rw [hsize] at hps
    simp only [List.length_cons,parseWalk,hp,hback.len,hps,bind,Option.bind,pure,encodedSize_cons,
      hsize,Nat.add_assoc]

theorem encodedSize_eq_sum (objs : List SipfObjectObject) :
    encodedSize objs = (objs.map fun o => 3 + o.valueLen.toNat).sum := by
  simp [encodedSize,totalSize,Function.comp_def]

/-- An encodable list that fits is encoded, from any contents of the two buffers, and
read back object by object up to the end of the encoding. -/
theorem payload_reads_back {objs : List SipfObjectObject} (h : ∀ o ∈ objs, Encodable o)
    {szRawBuff : UInt16} (hfit : (objs.map fun o => 3 + o.valueLen.toNat).sum ≤ szRawBuff.toNat)
    (raw work : Mem) :
    ∃ buf ps, sipfObjectCreateObjUpPayload (some raw) szRawBuff objs work =
        .ok (((objs.map fun o => 3 + o.valueLen.toNat).sum : Nat), buf) ∧
      parseWalk buf objs.length 0 = some (ps, (objs.map fun o => 3 + o.valueLen.toNat).sum) ∧
      List.Forall₂ ReadBack objs ps := by
  rw [← encodedSize_eq_sum] at hfit ⊢
  obtain ⟨buf,hbuf,hread⟩ := createLoop_encodes h
    (raw.copy 0 (List.replicate szRawBuff.toNat 0)) work (show 0 + encodedSize objs ≤ szRawBuff.toNat by omega)
  rw [Nat.zero_add,Mem.read_zero,List.nil_append] at hread
  rw [Nat.zero_add] at hbuf
  obtain ⟨ps,hps,hall⟩ := parseWalk_encoded hread
  rw [Nat.zero_add] at hps
  exact ⟨buf,ps,hbuf,hps,hall⟩

def kelvinAndNote : List SipfObjectObject :=
  [⟨objTypeUint16, 0x01, 2, [0x34,0x12], by decide⟩,⟨objTypeStrUtf8, 0x02, 3, [0x61,0x62,0x63], by decide⟩]

theorem payload_reads_back_two :
    ∃ buf ps, sipfObjectCreateObjUpPayload (some Mem.zero) 11 kelvinAndNote Mem.zero =
        .ok ((11 : Nat), buf) ∧
      parseWalk buf 2 0 = some (ps, 11) ∧ List.Forall₂ ReadBack kelvinAndNote ps :=
  @payload_reads_back kelvinAndNote (by decide) 11 (by decide) Mem.zero Mem.zero

end SipfClient.Object
