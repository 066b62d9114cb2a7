import SipfClient.TxRounds
set_option autoImplicit false

namespace SipfClient.Command
open ByteMem HexText Loops LengthRecords Object Http

def groups : List (List UInt8) → Option (List TxObject)
  | [] => some []
  | tag :: type :: digits :: rest => (groups rest).map (⟨tag, type, digits⟩ :: ·)
  | _ => none

/-- The line is cut at its spaces; it starts with one. -/
def lineObjects (params : List UInt8) : Option (List TxObject) :=
  match params.splitOn 0x20 with
  | [] :: texts => groups texts
  | _ => none

/-- The record of a written object, its length rule checked on the true length. -/
structure Writes (o : TxObject) (r : Record) : Prop where
  tag : bytesOf o.tag = some [r.tag]
  kind : bytesOf o.type = some [r.kind]
  value : bytesOf o.digits = some r.value
  length : checkTypeLen r.kind (UInt16.ofNat r.value.length) = true

/-- The payload is made of the records of the objects in the line, in order. -/
def TxSplits (params : List UInt8) (payload : Mem) (size : UInt16) : Prop :=
  ∃ os rs, lineObjects params = some os ∧ List.Forall₂ Writes os rs ∧
    payload.read 0 size.toNat = encode rs

theorem intercalate_cons {α : Type} (sep : α) (a : List α) (ts : List (List α)) :
    [sep].intercalate (a :: ts) = a ++ ts.flatMap fun t => sep :: t := by
  induction ts generalizing a with
  | nil => simp
  | cons t ts ih =>
    have h := ih t
    simp only [List.intercalate] at h ⊢
    simp [h]

def TxObject.texts (o : TxObject) : List (List UInt8) := [o.tag,o.type,o.digits]

theorem groups_texts (os : List TxObject) (rest : List (List UInt8)) :
    groups (os.flatMap TxObject.texts ++ rest) = (groups rest).map (os ++ ·) := by
  induction os with
  | nil => simp
  | cons o os ih =>
    simp only [List.flatMap_cons,TxObject.texts,List.cons_append,List.nil_append,groups] at ih ⊢
    rw [ih]
    cases groups rest <;> simp

def Spaceless (ts : List (List UInt8)) : Prop := ∀ t ∈ ts, (0x20 : UInt8) ∉ t

theorem lineObjects_cut {os : List TxObject} {rest : List (List UInt8)}
    (hos : ∀ o ∈ os, Spaceless o.texts) (hrest : Spaceless rest) :
    lineObjects (os.flatMap TxObject.text ++ rest.flatMap fun t => 0x20 :: t) =
      (groups rest).map (os ++ ·) := by
  have htext : os.flatMap TxObject.text ++ (rest.flatMap fun t => 0x20 :: t) =
      [0x20].intercalate ([] :: (os.flatMap TxObject.texts ++ rest)) := by
    rw [intercalate_cons,List.flatMap_append,List.flatMap_assoc,List.nil_append]
    congr 2
    funext o
    simp [TxObject.text,TxObject.texts]
  have hspace : ∀ t ∈ [] :: (os.flatMap TxObject.texts ++ rest), (0x20 : UInt8) ∉ t := by
    intro t ht
    rcases List.mem_cons.1 ht with rfl | ht
    · simp
    · rcases List.mem_append.1 ht with ht | ht
      · obtain ⟨o,ho,hto⟩ := List.mem_flatMap.1 ht
        exact hos o ho t hto
      · exact hrest t ht
  rw [lineObjects,htext,List.splitOn_intercalate _ hspace (by simp)]
  exact groups_texts os rest

theorem lineObjects_whole {os : List TxObject} (hos : ∀ o ∈ os, Spaceless o.texts) :
    lineObjects (os.flatMap TxObject.text) = some os := by
  have h := lineObjects_cut hos (show Spaceless [] from fun t ht => absurd ht (by simp))
  simpa [groups] using h

theorem TxRead.spaceless (r : TxRead) : Spaceless r.obj.texts := by
  intro t ht
  simp only [TxObject.texts,List.mem_cons,List.not_mem_nil,or_false] at ht
  rcases ht with rfl | rfl | rfl
  · exact bytesOf_no_space r.tagText
  · exact bytesOf_no_space r.kindText
  · exact bytesOf_no_space r.valueText

theorem spaceless_objs (rs : List TxRead) : ∀ o ∈ rs.map TxRead.obj, Spaceless o.texts := by
  intro o ho
  obtain ⟨r,_,rfl⟩ := List.mem_map.1 ho
  exact r.spaceless

theorem flatMap_text (rs : List TxRead) :
    rs.flatMap TxRead.text = (rs.map TxRead.obj).flatMap TxObject.text := by
  rw [List.flatMap_map]
  rfl

theorem TxRead.lenByte_eq {r : TxRead} (hshort : r.value.length < 256) :
    r.lenByte.toUInt16 = UInt16.ofNat r.value.length := by
  apply UInt16.toNat_inj.1
  simp [TxRead.lenByte,Nat.mod_eq_of_lt hshort,Nat.mod_eq_of_lt (show r.value.length < 65536 by omega)]

theorem TxRead.record {r : TxRead} (hc : r.Checked) (hshort : r.value.length < 256) :
    ∃ q : Record, Writes r.obj q ∧ q.bytes = r.wire := by
  refine ⟨⟨r.kind, r.tag, r.value, hshort⟩,⟨r.tagText,r.kindText,r.valueText,?_⟩,rfl⟩
  rw [← TxRead.lenByte_eq hshort]
  exact hc

theorem records_of_read {rs : List TxRead} (hc : ∀ r ∈ rs, r.Checked)
    (hshort : ∀ r ∈ rs, r.value.length < 256) :
    ∃ qs : List Record, List.Forall₂ Writes (rs.map TxRead.obj) qs ∧
      encode qs = rs.flatMap TxRead.wire := by
  induction rs with
  | nil => exact ⟨[],.nil,rfl⟩
  | cons r rs ih =>
    obtain ⟨q,hq,hbytes⟩ := TxRead.record (hc r (by simp)) (hshort r (by simp))
    obtain ⟨qs,hqs,henc⟩ := ih (fun p hp => hc p (by simp [hp])) fun p hp => hshort p (by simp [hp])
    exact ⟨q :: qs,.cons hq hqs,by simp [encode,hbytes,henc]⟩

theorem Writes.digits_length {o : TxObject} {q : Record} (h : Writes o q) :
    o.digits.length ≤ 510 := by
  have hl := bytesOf_length h.value
  have hs := q.short
  omega

theorem tx_upload {cfg : Connector} {httpRes : HttpResponse} {reqBuff inBuff : Mem}
    {inLen : UInt16} {net : NetOutcome} {res : TxRun} {payload : Mem} {size : UInt16}
    (h : cmdAsciiCmdTx cfg httpRes reqBuff inBuff inLen net = some (.ok res))
    (hup : res.upload = some (payload, size)) :
    loop (txBody inLen.toNat) (inLen.toNat + 10) (TxParse.init inBuff) =
      some (.ok (.parsed payload size)) := by
  simp only [cmdAsciiCmdTx] at h
  split_ifs at h
  · cases h
    simp at hup
  · simp only [bind,Option.bind_eq_some_iff] at h
    obtain ⟨r,hr,hrest⟩ := h
    rw [hr]
    cases r with
    | error e => simp [Except.bind] at hrest
    | ok e =>
      cases e with
      | illParam =>
        simp only [Except.bind,pure,Except.pure,Option.some.injEq,Except.ok.injEq] at hrest
        subst hrest
        simp at hup
      | parsed buf sz =>
        simp only [Except.bind,Option.some.injEq] at hrest
        cases hraw : sipfObjClientObjUpRaw cfg httpRes reqBuff buf sz net with
        | error e => simp [hraw] at hrest
        | ok up =>
          simp only [hraw,pure,Except.pure] at hrest
          split_ifs at hrest <;> cases hrest <;> cases hup <;> rfl

/-- The written objects are whole: their values are pairs of digits, 255 at most. -/
def LineWhole (params : List UInt8) : Prop :=
  ∃ os, lineObjects params = some os ∧ ∀ o ∈ os, o.digits.length % 2 = 0 ∧ o.digits.length ≤ 510

theorem lineWhole_of_splits {params : List UInt8} {payload : Mem} {size : UInt16}
    (h : TxSplits params payload size) : LineWhole params := by
  obtain ⟨os,qs,hos,hw,_⟩ := h
  refine ⟨os,hos,fun o ho => ?_⟩
  obtain ⟨i,hi,rfl⟩ := List.mem_iff_getElem.1 ho
  have hi' : i < qs.length := by rw [← hw.length_eq]; exact hi
  have hw' := List.Forall₂.get hw hi hi'
  have hl := bytesOf_length hw'.value
  exact ⟨by simp only [List.get_eq_getElem] at hl; omega,hw'.digits_length⟩

section Overrun

variable {m : Mem} {len : Nat} {buf : Mem} {size : UInt16} (t : TxResult m len buf size)

theorem TxResult.cut {k : Nat} (hk : len = (t.before.flatMap TxRead.text).length + k) :
    m.read 0 len = t.before.flatMap TxRead.text ++ t.last.text.take k := by
  have hlow := t.low
  obtain ⟨j,hj⟩ : ∃ j, t.upTo = len + j := ⟨t.upTo - len, by omega⟩
  have htake : m.read 0 len = (t.before.flatMap TxRead.text ++ t.last.text).take len := by
    rw [← t.text,hj,Mem.read_add,List.take_left' (by simp)]
  rw [htake,← List.take_length_add_append]
  exact congrArg (fun n => List.take n (t.before.flatMap TxRead.text ++ t.last.text)) hk

theorem TxResult.length_eq :
    t.upTo = (t.before.flatMap TxRead.text).length + (7 + t.last.obj.digits.length) := by
  have hl := congrArg List.length t.text
  have h1 := bytesOf_length t.last.tagText
  have h2 := bytesOf_length t.last.kindText
  simp only [Mem.read_length,List.length_append,TxRead.text,TxObject.text,List.length_cons,
    List.length_nil] at hl h1 h2
  omega

theorem TxResult.odd_overrun (hup : t.upTo = len + 1) (hne : t.last.value ≠ []) :
    ∃ os, lineObjects (m.read 0 len) = some os ∧ ∃ o ∈ os, o.digits.length % 2 = 1 := by
  have hlen := t.length_eq
  have hdig := bytesOf_length t.last.valueText
  have hpos : 0 < t.last.value.length := List.length_pos_iff.2 hne
  let o : TxObject := { t.last.obj with digits := t.last.obj.digits.dropLast }
  have hcut : m.read 0 len = (t.before.map TxRead.obj ++ [o]).flatMap TxObject.text := by
    have hlast : len = (t.before.flatMap TxRead.text).length + (t.last.text.length - 1) := by
      have h1 := congrArg List.length t.text
      simp only [Mem.read_length,List.length_append] at h1
      omega
    rw [t.cut hlast,← List.dropLast_eq_take,List.flatMap_append,flatMap_text]
    have hd : t.last.obj.digits ≠ [] := by
      intro h0
      rw [h0,List.length_nil] at hdig
      omega
    have hsplit : t.last.text =
        (0x20 :: t.last.obj.tag ++ 0x20 :: t.last.obj.type ++ [0x20]) ++ t.last.obj.digits := by
      simp [TxRead.text,TxObject.text]
    rw [hsplit,List.dropLast_append_of_ne_nil hd]
    simp [TxObject.text,o]
  have hspace : ∀ p ∈ t.before.map TxRead.obj ++ [o], Spaceless p.texts := by
    intro p hp
    rcases List.mem_append.1 hp with hp | hp
    · exact spaceless_objs _ p hp
    · obtain rfl := List.mem_singleton.1 hp
      intro x hx
      simp only [o,TxObject.texts,List.mem_cons,List.not_mem_nil,or_false] at hx
      rcases hx with rfl | rfl | rfl
      · exact bytesOf_no_space t.last.tagText
      · exact bytesOf_no_space t.last.kindText
      · exact fun hc => bytesOf_no_space t.last.valueText (List.mem_of_mem_dropLast hc)
  refine ⟨_,by rw [hcut,lineObjects_whole hspace],o,by simp,?_⟩
  simp only [o,List.length_dropLast]
  omega

theorem TxResult.field_overrun (hup : len < t.upTo) (hnil : t.last.value = []) :
    lineObjects (m.read 0 len) = none := by
  have hlen := t.length_eq
  have hhigh := t.high
  have hdig := bytesOf_length t.last.valueText
  rw [hnil] at hdig
  have hd : t.last.obj.digits = [] := List.length_eq_zero_iff.1 (by simpa using hdig)
  obtain ⟨a,b,htag,_⟩ := bytesOf_one t.last.tagText
  obtain ⟨c,d,htype,_⟩ := bytesOf_one t.last.kindText
  have hsp := t.last.spaceless
  simp only [Spaceless,TxObject.texts,htag,htype,hd,List.forall_mem_cons] at hsp
  rw [hd,List.length_nil,Nat.add_zero] at hlen
  obtain ⟨k,hk,hk1,hk6⟩ : ∃ k, len = (t.before.flatMap TxRead.text).length + k ∧ 1 ≤ k ∧ k ≤ 6 :=
    ⟨len - (t.before.flatMap TxRead.text).length, by omega, by omega, by omega⟩
  have hnone : ∀ rest : List (List UInt8), Spaceless rest → groups rest = none →
      t.last.text.take k = (rest.flatMap fun x => 0x20 :: x) →
      lineObjects (m.read 0 len) = none := by
    intro rest hrest hg htake
    rw [t.cut hk,htake,flatMap_text,lineObjects_cut (spaceless_objs _) hrest,hg,Option.map_none]
  have htext : t.last.text = [0x20,a,b,0x20,c,d,0x20] := by
    simp [TxRead.text,TxObject.text,htag,htype,hd]
  rw [htext] at hnone
  have hab : (0x20 : UInt8) ≠ a ∧ (0x20 : UInt8) ≠ b ∧ (0x20 : UInt8) ≠ c ∧ (0x20 : UInt8) ≠ d := by
    simpa [not_or,and_assoc] using hsp
  obtain ⟨ha,hb,hc,hd'⟩ := hab
  -- the line ends behind each of the six bytes in front of the last space
  have hcases : k = 1 ∨ k = 2 ∨ k = 3 ∨ k = 4 ∨ k = 5 ∨ k = 6 := by omega
  rcases hcases with rfl | rfl | rfl | rfl | rfl | rfl
  · exact hnone [[]] (by simp [Spaceless]) rfl rfl
  · exact hnone [[a]] (by simp [Spaceless,ha]) rfl rfl
  · exact hnone [[a,b]] (by simp [Spaceless,ha,hb]) rfl rfl
  · exact hnone [[a,b],[]] (by simp [Spaceless,ha,hb]) rfl rfl
  · exact hnone [[a,b],[c]] (by simp [Spaceless,ha,hb,hc]) rfl rfl
  · exact hnone [[a,b],[c,d]] (by simp [Spaceless,ha,hb,hc,hd']) rfl rfl

theorem TxResult.ends (h : LineWhole (m.read 0 len)) : t.upTo = len := by
  obtain ⟨os,hos,hall⟩ := h
  by_contra hne
  have hlow := t.low
  by_cases hnil : t.last.value = []
  · rw [t.field_overrun (by omega) hnil] at hos
    cases hos
  · have hup : t.upTo = len + 1 := by
      have hover := t.overrun.resolve_right hnil
      omega
    obtain ⟨os',hos',o,ho,hodd⟩ := t.odd_overrun hup hnil
    rw [hos] at hos'
    cases hos'
    have heven := (hall o ho).1
    omega

end Overrun

theorem txSplits_iff {params : List UInt8} (hpos : 0 < params.length)
    {m : Mem} (hm : m.read 0 params.length = params) {n : Nat}
    {payload : Mem} {size : UInt16}
    (h : loop (txBody params.length) n (TxParse.init m) = some (.ok (.parsed payload size))) :
    TxSplits params payload size ↔ LineWhole params := by
  refine ⟨lineWhole_of_splits,fun hw => ?_⟩
  obtain ⟨t⟩ := txLoop_parsed hpos h
  have hend := t.ends (by rw [hm]; exact hw)
  have htext := t.text
  rw [hend,hm,← flatMap_snoc,flatMap_text] at htext
  have hobjs : lineObjects params = some ((t.before ++ [t.last]).map TxRead.obj) :=
    (congrArg lineObjects htext).trans (lineObjects_whole (spaceless_objs _))
  obtain ⟨os,hos,hall⟩ := hw
  rw [hobjs] at hos
  cases hos
  have hbytes : ∀ r ∈ t.before ++ [t.last], r.value.length < 256 := by
    intro r hr
    have hd := (hall r.obj (List.mem_map.mpr ⟨r,hr,rfl⟩)).2
    have hl := bytesOf_length r.valueText
    omega
  obtain ⟨qs,hqs,henc⟩ := records_of_read t.checked hbytes
  exact ⟨_,qs,hobjs,hqs,by rw [henc,t.wire]⟩

theorem length_ofNat {n : Nat} (h : n ≤ 4095) : (UInt16.ofNat n).toNat = n := by
  rw [UInt16.toNat_ofNat']
  omega

/-- `$$TX` comes to an end on every line, and the payload it uploads splits into the
records of the written objects exactly if these are whole. The bytes behind the line
are arbitrary. -/
theorem tx_payload_splits_iff {params : List UInt8} (hlen : params.length ≤ 4095) {inBuff : Mem}
    (hline : inBuff.read 0 params.length = params) (cfg : Connector) (httpRes : HttpResponse)
    (reqBuff : Mem) (net : NetOutcome) :
    ∃ r, cmdAsciiCmdTx cfg httpRes reqBuff inBuff (UInt16.ofNat params.length) net = some r ∧
      ∀ res payload size, r = .ok res → res.upload = some (payload, size) →
        (TxSplits params payload size ↔ LineWhole params) := by
  have hn := length_ofNat hlen
  by_cases hshort : params.length < 8
  · have hlt : UInt16.ofNat params.length < 8 := by
      rw [UInt16.lt_iff_toNat_lt,hn]
      exact hshort
    refine ⟨_,by rw [cmdAsciiCmdTx,if_pos hlt],fun res payload size hr hup => ?_⟩
    cases hr
    cases hup
  · obtain ⟨r,hloop⟩ := txLoop_total inBuff (show 0 < params.length by omega)
    have hrun : ∃ out, cmdAsciiCmdTx cfg httpRes reqBuff inBuff (UInt16.ofNat params.length) net =
        some out := by
      simp only [cmdAsciiCmdTx,hn,hloop]
      split_ifs
      · exact ⟨_,rfl⟩
      · exact ⟨_,rfl⟩
    obtain ⟨out,hout⟩ := hrun
    refine ⟨out,hout,fun res payload size hr hup => ?_⟩
    subst hr
    have hparsed := tx_upload hout hup
    rw [hn] at hparsed
    exact txSplits_iff (by omega) hline hparsed

theorem tx_payload_splits_iff_two :
    (ascii " 01 00 05 02 10 ").length ≤ 4095 ∧
      ∀ (cfg : Connector) (httpRes : HttpResponse) (reqBuff : Mem) (net : NetOutcome),
        ∃ r, cmdAsciiCmdTx cfg httpRes reqBuff (Mem.ofList (ascii " 01 00 05 02 10 "))
            (UInt16.ofNat (ascii " 01 00 05 02 10 ").length) net = some r ∧
          ∀ res payload size, r = .ok res → res.upload = some (payload, size) →
            (TxSplits (ascii " 01 00 05 02 10 ") payload size ↔
              LineWhole (ascii " 01 00 05 02 10 ")) :=
  ⟨by decide,tx_payload_splits_iff (by decide) (Mem.read_ofList _)⟩

/-- A line of one object whose value is too long for its length byte, while the byte
is right for the type, is uploaded and does not split. -/
theorem one_long_missplit {r : TxRead} (hchk : r.Checked) (hlong : 256 ≤ r.value.length)
    (hlen : r.text.length ≤ 1024) (cfg : Connector) (httpRes : HttpResponse) (reqBuff : Mem)
    (net : NetOutcome) :
    ∃ res payload size,
      cmdAsciiCmdTx cfg httpRes reqBuff (Mem.ofList r.text) (UInt16.ofNat r.text.length) net =
        some (.ok res) ∧
      res.upload = some (payload, size) ∧ ¬ TxSplits r.text payload size := by
  have hread := Mem.read_ofList r.text
  have hn := length_ofNat (show r.text.length ≤ 4095 by omega)
  have hdig := bytesOf_length r.valueText
  have hge : r.obj.digits.length ≤ r.text.length := by simp [TxRead.text,TxObject.text]; omega
  have hnot : ¬ LineWhole r.text := by
    rintro ⟨os,hos,hall⟩
    have hline := lineObjects_whole (spaceless_objs [r])
    simp only [List.map_cons,List.map_nil,List.flatMap_cons,List.flatMap_nil,
      List.append_nil] at hline
    rw [TxRead.text,hline] at hos
    cases hos
    have hshort := (hall r.obj (by simp)).2
    omega
  have hwire := wire_length r
  obtain ⟨buf,hloop,-⟩ := @txLoop_reads (Mem.ofList r.text) [r] (by simp) (by simpa using hread)
    (by simpa using hchk) (by simp [txBuffSz]; omega)
  simp only [List.flatMap_cons,List.flatMap_nil,List.append_nil,hwire] at hloop
  have hbad := (txSplits_iff (by omega) hread hloop).not.2 hnot
  have hsize : 12 + (UInt16.ofNat (3 + r.value.length)).toNat < buffSz := by
    rw [UInt16.toNat_ofNat',buffSz]
    omega
  obtain ⟨up,hup,_⟩ := Object.upRaw_issues cfg httpRes reqBuff buf net hsize
  have hin : ¬ UInt16.ofNat r.text.length < 8 := by
    rw [UInt16.lt_iff_toNat_lt,hn]
    show ¬ r.text.length < 8
    omega
  by_cases herr : UInt8.ofInt up.ret = 0
  · refine ⟨⟨hexOf (up.otid.getD []) ++ ascii "\r\nOK\r\n", some (buf, _)⟩,buf,_,?_,rfl,hbad⟩
    simp only [cmdAsciiCmdTx,if_neg hin,hn,hloop,bind,Option.bind,Except.bind,hup,if_pos herr]
    rfl
  · refine ⟨⟨cmdCreateResNg, some (buf, _)⟩,buf,_,?_,rfl,hbad⟩
    simp only [cmdAsciiCmdTx,if_neg hin,hn,hloop,bind,Option.bind,Except.bind,hup,if_neg herr]
    rfl

theorem bytesOf_zeros (n : Nat) :
    bytesOf (List.replicate (2 * n) 0x30) = some (List.replicate n 0) := by
  induction n with
  | zero => rfl
  | succ n ih =>
    have hp : pairValue 0x30 0x30 = some 0 := by decide
    have hlist : List.replicate (2 * (n + 1)) (0x30 : UInt8) =
        0x30 :: 0x30 :: List.replicate (2 * n) 0x30 := rfl
    simp [hlist,bytesOf,hp,ih,List.replicate_succ]

theorem bytesOf_01 : bytesOf (ascii "01") = some [1] := by decide

theorem bytesOf_00 : bytesOf (ascii "00") = some [0] := by decide

def zerosObject (n : Nat) : TxRead :=
  ⟨⟨ascii "01", ascii "00", List.replicate (2 * n) 0x30⟩, 1, 0, List.replicate n 0,
    bytesOf_01, bytesOf_00, bytesOf_zeros n⟩

theorem zerosObject_length (n : Nat) : (zerosObject n).text.length = 7 + 2 * n := by
  simp [zerosObject,TxRead.text,TxObject.text,ascii]
  omega

/-- 257 value bytes are counted as 1, which is right for the type: the object is sent
with length 1 and 257 bytes behind it. -/
theorem tx_long_value_missplit : ∃ res payload size,
    cmdAsciiCmdTx ⟨"/v0", "connector.sipf.iot.sakura.ad.jp", "", true⟩ .zero Mem.zero
      (Mem.ofList (zerosObject 257).text) (UInt16.ofNat (zerosObject 257).text.length)
      ⟨0, 3, 0, 0, 0, ⟨0, [], Mem.zero⟩⟩ = some (.ok res) ∧
    res.upload = some (payload, size) ∧ ¬ TxSplits (zerosObject 257).text payload size := by
  have hvalue : ∀ n, (zerosObject n).value.length = n := fun n => List.length_replicate
  have hchk : (zerosObject 257).Checked := by
    rw [TxRead.Checked,TxRead.lenByte,hvalue]
    decide
  exact one_long_missplit hchk (by rw [hvalue]; omega) (by rw [zerosObject_length]; omega) _ _ _ _

end SipfClient.Command
