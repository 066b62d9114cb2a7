import SipfClient.TxLaws
import SipfClient.HexFields
import SipfClient.Handlers
import SipfClient.LineGrammar
set_option autoImplicit false

namespace SipfClient.Command
open ByteMem HexText CText Loops LengthRecords Object Http

theorem Writes.read {o : TxObject} {r : Record} (h : Writes o r) :
    ∃ q : TxRead, q.obj = o ∧ q.wire = r.bytes ∧ q.Checked := by
  refine ⟨⟨o, r.tag, r.kind, r.value, h.tag, h.kind, h.value⟩,rfl,rfl,?_⟩
  rw [TxRead.Checked,TxRead.lenByte_eq r.short]
  exact h.length

theorem read_of_records {os : List TxObject} {rs : List Record} (h : List.Forall₂ Writes os rs) :
    ∃ qs : List TxRead, qs.map TxRead.obj = os ∧ qs.flatMap TxRead.wire = encode rs ∧
      ∀ q ∈ qs, q.Checked := by
  induction h with
  | nil => exact ⟨[],rfl,rfl,by simp⟩
  | cons hw _ ih =>
    obtain ⟨q,rfl,hwire,hchk⟩ := hw.read
    obtain ⟨qs,rfl,henc,hall⟩ := ih
    exact ⟨q :: qs,rfl,by simp [encode,hwire,henc],by simpa using ⟨hchk,hall⟩⟩

theorem tx_parsed {params : List UInt8} (hmin : 8 ≤ params.length) (hlen : params.length ≤ 4095)
    {inBuff buf : Mem} {size : UInt16}
    (hloop : loop (txBody params.length) (params.length + 10) (TxParse.init inBuff) =
      some (.ok (.parsed buf size))) (hsize : size.toNat ≤ 1024)
    (cfg : Connector) (httpRes : HttpResponse) (reqBuff : Mem) (net : NetOutcome) :
    ∃ up, sipfObjClientObjUpRaw cfg httpRes reqBuff buf size net = .ok up ∧
      cmdAsciiCmdTx cfg httpRes reqBuff inBuff (UInt16.ofNat params.length) net =
        some (.ok ⟨txAnswer up, some (buf, size)⟩) ∧
      up.request = some (connectorRequest cfg (objectsUpHeader size ++ buf.read 0 size.toNat)) := by
  obtain ⟨up,hup,hreq,-⟩ := upRaw_issues cfg httpRes reqBuff buf net
    (show 12 + size.toNat < buffSz by rw [buffSz]; omega)
  have hn := length_ofNat hlen
  have hin : ¬ UInt16.ofNat params.length < 8 := by
    rw [UInt16.lt_iff_toNat_lt,hn]
    exact Nat.not_lt.2 hmin
  refine ⟨up,hup,?_,hreq⟩
  simp only [cmdAsciiCmdTx,if_neg hin,hn,hloop,bind,Option.bind,Except.bind,hup,txAnswer]
  split_ifs <;> rfl

theorem rendering_parsed {os : List TxObject} {rs : List Record} (hne : os ≠ [])
    (hw : List.Forall₂ Writes os rs) (hroom : (encode rs).length ≤ 1024)
    (hlen : (os.flatMap TxObject.text).length ≤ 4095) {inBuff : Mem}
    (hline : inBuff.read 0 (os.flatMap TxObject.text).length = os.flatMap TxObject.text) :
    ∃ buf size, loop (txBody (os.flatMap TxObject.text).length)
        ((os.flatMap TxObject.text).length + 10) (TxParse.init inBuff) =
          some (.ok (.parsed buf size)) ∧
      size.toNat = (encode rs).length ∧ buf.read 0 size.toNat = encode rs := by
  obtain ⟨qs,rfl,hwire,hchk⟩ := read_of_records hw
  rw [← flatMap_text] at hlen hline ⊢
  obtain ⟨buf,hloop,hbuf⟩ := txLoop_reads (by simpa using hne) hline hchk
    (by rw [hwire]; exact hroom)
  rw [hwire] at hloop hbuf
  have hsize : (UInt16.ofNat (encode rs).length).toNat = (encode rs).length :=
    length_ofNat (by omega)
  exact ⟨buf,_,hloop,hsize,by rw [hsize,hbuf]⟩

/-- A rendering of objects that `checkTypeLen` allows and that fit in `tx_buff` is
uploaded as the records of the objects, in order, whatever is behind it in the buffer. -/
theorem tx_uploads_rendering {os : List TxObject} {rs : List Record} (hne : os ≠ [])
    (hw : List.Forall₂ Writes os rs) (hroom : (encode rs).length ≤ 1024)
    (hmin : 8 ≤ (os.flatMap TxObject.text).length)
    (hlen : (os.flatMap TxObject.text).length ≤ 4095) {inBuff : Mem}
    (hline : inBuff.read 0 (os.flatMap TxObject.text).length = os.flatMap TxObject.text) :
    ∃ payload size, size.toNat = (encode rs).length ∧ payload.read 0 size.toNat = encode rs ∧
      ∀ (cfg : Connector) (httpRes : HttpResponse) (reqBuff : Mem) (net : NetOutcome), ∃ up,
        sipfObjClientObjUpRaw cfg httpRes reqBuff payload size net = .ok up ∧
        cmdAsciiCmdTx cfg httpRes reqBuff inBuff
            (UInt16.ofNat (os.flatMap TxObject.text).length) net =
          some (.ok ⟨txAnswer up, some (payload, size)⟩) := by
  obtain ⟨buf,size,hloop,hsize,hread⟩ := rendering_parsed hne hw hroom hlen hline
  refine ⟨buf,size,hsize,hread,fun cfg httpRes reqBuff net => ?_⟩
  obtain ⟨up,hup,hcmd,-⟩ := tx_parsed hmin hlen hloop (by omega) cfg httpRes reqBuff net
  exact ⟨up,hup,hcmd⟩

def twoWritten : List TxObject :=
  [⟨ascii "01", ascii "00", ascii "aF"⟩,⟨ascii "0a", ascii "10", []⟩]

def twoRecords : List Record := [⟨0x00, 0x01, [0xaf], by decide⟩,⟨0x10, 0x0a, [], by decide⟩]

theorem twoWritten_writes : List.Forall₂ Writes twoWritten twoRecords :=
  .cons ⟨by decide,by decide,by decide,by decide⟩
    (.cons ⟨by decide,by decide,by decide,by decide⟩ .nil)

theorem tx_uploads_rendering_two :
    ∃ payload size, size.toNat = 7 ∧ payload.read 0 size.toNat = encode twoRecords ∧
      ∀ (cfg : Connector) (httpRes : HttpResponse) (reqBuff : Mem) (net : NetOutcome), ∃ up,
        sipfObjClientObjUpRaw cfg httpRes reqBuff payload size net = .ok up ∧
        cmdAsciiCmdTx cfg httpRes reqBuff (Mem.ofList (ascii " 01 00 aF 0a 10 ")) 16 net =
          some (.ok ⟨txAnswer up, some (payload, size)⟩) :=
  tx_uploads_rendering (by decide) twoWritten_writes (by decide) (by decide) (by decide)
    (Mem.read_ofList (ascii " 01 00 aF 0a 10 "))

/-- The bytes and the size `cmdAsciiCmdTxRaw` calls `SipfObjClientObjUpRaw` with, if it
comes to the call. -/
def txRawUpload (inBuff : Mem) (inLen : UInt16) : Option (List UInt8 × UInt16) :=
  if inLen < 5 ∨ inBuff 0 ≠ 0x20 ∨ inBuff 3 ≠ 0x20 then none
  else
    let inBuff := (inBuff.set 0 0).set 3 0
    let (size, endptr) := strtol16 (cString inBuff 1 3)
    if endptr ≠ [] then none
    else (txRawValue (UInt8.ofInt size).toNat (inBuff.shift 4)).map fun buffer =>
      (buffer, (UInt8.ofInt size).toUInt16)

theorem txRaw_eq (cfg : Connector) (httpRes : HttpResponse) (reqBuff inBuff : Mem)
    (inLen : UInt16) (net : NetOutcome) :
    cmdAsciiCmdTxRaw cfg httpRes reqBuff inBuff inLen net =
      (txRawUpload inBuff inLen).elim (.ok cmdCreateResIllParam) fun p =>
        (sipfObjClientObjUpRaw cfg httpRes reqBuff (Mem.ofList p.1) p.2 net).map txAnswer := by
  simp only [cmdAsciiCmdTxRaw,txRawUpload]
  by_cases hlen : inLen < 5
  · simp [hlen]
  by_cases hsep : inBuff 0 ≠ 0x20 ∨ inBuff 3 ≠ 0x20
  · simp only [if_neg hlen,if_pos hsep,if_pos (.inr hsep : inLen < 5 ∨ _),Option.elim_none]
  rw [if_neg hlen,if_neg hsep,if_neg (not_or.2 ⟨hlen,hsep⟩)]
  by_cases hend : (strtol16 (cString ((inBuff.set 0 0).set 3 0) 1 3)).2 ≠ []
  · simp only [if_pos hend,Option.elim_none]
  · simp only [if_neg hend]
    cases txRawValue (UInt8.ofInt (strtol16 (cString ((inBuff.set 0 0).set 3 0) 1 3)).1).toNat
        (((inBuff.set 0 0).set 3 0).shift 4) with
    | none => rfl
    | some buffer =>
      simp only [Option.map_some,Option.elim_some]
      cases sipfObjClientObjUpRaw cfg httpRes reqBuff (Mem.ofList buffer) _ net <;> rfl

theorem txRawValue_succ (n : Nat) (head : Mem) :
    txRawValue (n + 1) head = (pairValue (head 0) (head 1)).bind fun v =>
      (txRawValue n (head.shift 2)).map (v :: ·) := by
  simp only [txRawValue]
  cases hp : pairValue (head 0) (head 1) with
  | some v =>
    obtain ⟨x,y,hx,hy,-⟩ := pairValue_toNat hp
    simp [isXdigit_of hx,isXdigit_of hy,strtol16_pair hp,ofInt_toNat]
  | none =>
    rw [if_pos ?_]
    · rfl
    by_contra hboth
    simp only [not_or,Bool.not_eq_true,Bool.not_eq_false',isXdigit,Option.isSome_iff_exists] at hboth
    obtain ⟨⟨x,hx⟩,y,hy⟩ := hboth
    simp [pairValue,hx,hy] at hp

/-- What the look behind the digits takes for the end. -/
def EndsValue (c : UInt8) : Prop := c = 0 ∨ c = 0x0d ∨ c = 0x0a

theorem txRawValue_iff {n : Nat} {head : Mem} {bs : List UInt8} :
    txRawValue n head = some bs ↔
      bytesOf (head.read 0 (2 * n)) = some bs ∧ EndsValue (head (2 * n)) := by
  induction n generalizing head bs with
  | zero =>
    by_cases hend : EndsValue (head 0)
    · have hstop : ¬ (head 0 ≠ 0 ∧ head 0 ≠ 0x0d ∧ head 0 ≠ 0x0a) := by
        rcases hend with h | h | h <;> simp [h]
      simp [txRawValue,if_neg hstop,bytesOf,hend]
    · have hgo : head 0 ≠ 0 ∧ head 0 ≠ 0x0d ∧ head 0 ≠ 0x0a := by
        simpa [EndsValue,not_or] using hend
      simp [txRawValue,if_pos hgo,hend]
  | succ n ih =>
    have hread : head.read 0 (2 * (n + 1)) = head 0 :: head 1 :: (head.shift 2).read 0 (2 * n) := by
      rw [Mem.read_shift,Nat.mul_succ,Mem.read_succ,Mem.read_succ]
    have hlast : head (2 * (n + 1)) = head.shift 2 (2 * n) := by
      rw [Mem.shift_apply]
      congr 1
      omega
    rw [txRawValue_succ,hread,hlast]
    simp only [bytesOf,bind,Option.bind_eq_some_iff,Option.map_eq_some_iff,ih,pure,
      Option.some.injEq]
    constructor
    · rintro ⟨v,hv,vs,⟨hvs,hend⟩,rfl⟩
      exact ⟨⟨v,hv,vs,hvs,rfl⟩,hend⟩
    · rintro ⟨⟨v,hv,vs,hvs,rfl⟩,hend⟩
      exact ⟨v,hv,vs,⟨hvs,hend⟩,rfl⟩

theorem txRawUpload_eq (inBuff : Mem) (inLen : UInt16) :
    txRawUpload inBuff inLen =
      if inLen < 5 ∨ inBuff 0 ≠ 0x20 ∨ inBuff 3 ≠ 0x20 then none
      else (strtolByte (cString ((inBuff.set 0 0).set 3 0) 1 3)).bind fun n =>
        (txRawValue n.toNat (inBuff.shift 4)).map fun buffer => (buffer, n.toUInt16) := by
  have hshift : ((inBuff.set 0 0).set 3 0).shift 4 = inBuff.shift 4 := by
    funext i
    rw [Mem.shift_apply,Mem.set_other _ _ (by omega),Mem.set_other _ _ (by omega),Mem.shift_apply]
  simp only [txRawUpload,hshift]
  split_ifs with hform hend
  · rfl
  · rw [strtolByte,if_neg hend,Option.bind_none]
  · rw [strtolByte,if_pos (not_not.1 hend),Option.bind_some]

theorem ofList_behind (text tail : List UInt8) :
    Mem.ofList (text ++ tail) text.length = tail.headD 0 := by
  cases tail <;> simp [Mem.ofList]

theorem txRawValue_line {n : Nat} {text payload : List UInt8} :
    txRawValue n (Mem.ofList text) = some payload ↔ ∃ digits tail, text = digits ++ tail ∧
      bytesOf digits = some payload ∧ payload.length = n ∧ EndsValue (tail.headD 0) := by
  have hnul : ∀ {ds bs : List UInt8}, bytesOf ds = some bs → (0 : UInt8) ∉ ds := fun h hmem => by
    obtain ⟨v,hv⟩ := bytesOf_digits h 0 hmem
    cases hv
  rw [txRawValue_iff]
  constructor
  · rintro ⟨hdigits,hend⟩
    have hlength : ((Mem.ofList text).read 0 (2 * n)).length = 2 * n := Mem.read_length _ _ _
    generalize hread : (Mem.ofList text).read 0 (2 * n) = digits at hdigits hlength
    rw [← hlength,ofList_read_eq (hnul hdigits)] at hread
    obtain ⟨tail,rfl⟩ : ∃ tail, text = digits ++ tail :=
      ⟨text.drop digits.length,by conv_lhs => rw [← List.take_append_drop digits.length text,hread]⟩
    rw [← hlength,ofList_behind] at hend
    have hpairs := bytesOf_length hdigits
    exact ⟨digits,tail,rfl,hdigits,by omega,hend⟩
  · rintro ⟨digits,tail,rfl,hdigits,rfl,hend⟩
    have hread : (Mem.ofList (digits ++ tail)).read 0 digits.length = digits :=
      (ofList_read_eq (hnul hdigits)).2 List.take_left
    rw [← bytesOf_length hdigits,hread,ofList_behind]
    exact ⟨hdigits,hend⟩

/-- The parameters of `$$TXRAW`: a size of two digits, and the digits of the bytes. -/
def rawText (sizeText digits : List UInt8) : List UInt8 := 0x20 :: sizeText ++ 0x20 :: digits

theorem txRawUpload_form {a b : UInt8} {text : List UInt8} (hne : text ≠ [])
    (hlen : (rawText [a,b] text).length ≤ 4095) :
    txRawUpload (Mem.ofList (rawText [a,b] text)) (UInt16.ofNat (rawText [a,b] text).length) =
      (fieldByte a b).bind fun n =>
        (txRawValue n.toNat (Mem.ofList text)).map fun buffer => (buffer, n.toUInt16) := by
  have hin : (UInt16.ofNat (rawText [a,b] text).length).toNat = text.length + 4 := length_ofNat hlen
  have hpos := List.length_pos_iff.2 hne
  have hform : ¬ (UInt16.ofNat (rawText [a,b] text).length < 5 ∨
      Mem.ofList (rawText [a,b] text) 0 ≠ 0x20 ∨ Mem.ofList (rawText [a,b] text) 3 ≠ 0x20) := by
    refine not_or.2 ⟨?_,by simp [rawText,Mem.ofList]⟩
    rw [UInt16.lt_iff_toNat_lt,hin]
    show ¬ text.length + 4 < 5
    omega
  have hfield : strtolByte (cString (((Mem.ofList (rawText [a,b] text)).set 0 0).set 3 0) 1 3) =
      fieldByte a b := strtolByte_cString rfl
  have htext : (Mem.ofList (rawText [a,b] text)).shift 4 = Mem.ofList text := by
    rw [ofList_shift]
    rfl
  rw [txRawUpload_eq,if_neg hform,hfield,htext]

theorem txRaw_uploads {sizeText digits bytes : List UInt8} (hne : bytes ≠ [])
    (hsize : bytesOf sizeText = some [UInt8.ofNat bytes.length]) (hlen : bytes.length ≤ 255)
    (hdigits : bytesOf digits = some bytes) :
    txRawUpload (Mem.ofList (rawText sizeText digits))
        (UInt16.ofNat (rawText sizeText digits).length) =
      some (bytes, UInt16.ofNat bytes.length) := by
  obtain ⟨a,b,rfl,hp⟩ := bytesOf_one hsize
  have hdl := bytesOf_length hdigits
  have hpos : 0 < bytes.length := List.length_pos_iff.2 hne
  have hn : (UInt8.ofNat bytes.length).toNat = bytes.length := by
    rw [UInt8.toNat_ofNat']
    omega
  have hshort : (rawText [a,b] digits).length ≤ 4095 := by
    simp only [rawText,List.length_append,List.length_cons,List.length_nil]
    omega
  have hvalue : txRawValue bytes.length (Mem.ofList digits) = some bytes :=
    txRawValue_line.2 ⟨digits,[],(List.append_nil _).symm,hdigits,rfl,.inl rfl⟩
  have hbytes : (UInt8.ofNat bytes.length).toUInt16 = UInt16.ofNat bytes.length := by
    apply UInt16.toNat_inj.1
    rw [UInt8.toNat_toUInt16,hn,UInt16.toNat_ofNat']
    omega
  rw [txRawUpload_form (List.length_pos_iff.1 (by omega)) hshort,fieldByte_pair hp,
    Option.bind_some,hn,hvalue,Option.map_some,hbytes]

theorem Plain.append {xs ys : List UInt8} (hx : Plain xs) (hy : Plain ys) : Plain (xs ++ ys) :=
  fun b hb => (List.mem_append.1 hb).elim (hx b) (hy b)

theorem plain_space {xs : List UInt8} (h : Plain xs) : Plain (0x20 :: xs) := by
  intro b hb
  rcases List.mem_cons.1 hb with rfl | hb
  · exact ⟨by decide,by decide⟩
  · exact h b hb

theorem plain_digits {ds bs : List UInt8} (h : bytesOf ds = some bs) : Plain ds := by
  intro b hb
  obtain ⟨v,hv⟩ := bytesOf_digits h b hb
  refine ⟨?_,digitValue_ne hv (by decide)⟩
  rintro (he | he)
  · exact digitValue_ne hv (by decide) he
  · exact digitValue_ne hv (by decide) he

theorem plain_rendering {os : List TxObject} {rs : List Record} (h : List.Forall₂ Writes os rs) :
    Plain (os.flatMap TxObject.text) := by
  induction h with
  | nil => exact fun b hb => absurd hb (by simp)
  | @cons o r os rs hw _ ih =>
    have htext : o.text = 0x20 :: (o.tag ++ 0x20 :: (o.type ++ 0x20 :: o.digits)) := by
      simp [TxObject.text]
    rw [List.flatMap_cons,htext]
    have hvalue := plain_space (plain_digits hw.value)
    have htype := plain_space ((plain_digits hw.kind).append hvalue)
    exact (plain_space ((plain_digits hw.tag).append htype)).append ih

theorem cmdName_plain {c : CmdAsciiCmd} (hc : c ∈ cmdfunc) : Plain c.cmdName := by
  have hall : (cmdfunc.all fun c => c.cmdName.all fun b => decide (0x24 ≤ b)) = true := by decide
  intro b hb
  have hlow : (0x24 : UInt8) ≤ b := by
    simpa using List.all_eq_true.1 (List.all_eq_true.1 hall c hc) b hb
  constructor
  · rintro (rfl | rfl) <;> exact absurd hlow (by decide)
  · rintro rfl
    exact absurd hlow (by decide)

theorem cmdName_length : ∀ c ∈ cmdfunc, c.cmdName.length ≤ 9 := by decide

theorem cmdName_finds :
    ∀ c ∈ cmdfunc, cmdfunc.find? (fun d => d.cmdName = c.cmdName) = some c := by decide

theorem dispatches_single {c : CmdAsciiCmd} (hc : c ∈ cmdfunc) {rest : List UInt8}
    (hsep : rest.head? = some 0x20) (hrest : Plain rest) (hlen : rest.length ≤ 4000) {e : UInt8}
    (he : EndsLine e) :
    dispatches (0x24 :: (c.cmdName ++ rest ++ [e])) =
      .ok [(UInt16.ofNat (c.cmdName ++ rest).length,
        some ⟨c, Mem.ofList rest, UInt16.ofNat rest.length⟩)] := by
  have hname := cmdName_plain hc
  have hnamelen := cmdName_length c hc
  have hfind := cmdName_finds c hc
  have hplain := Plain.append hname hrest
  have hread : Reading ([] ++ 0x24 :: (c.cmdName ++ rest ++ e :: [])) [c.cmdName ++ rest] [] :=
    .line (by simp) (fun b hb => (hplain b hb).1) he (.idle (by simp))
  have hno : (0x08 : UInt8) ∉ 0x24 :: (c.cmdName ++ rest ++ [e]) := by
    intro hm
    rcases List.mem_cons.1 hm with hm | hm
    · exact absurd hm (by decide)
    rcases List.mem_append.1 hm with hm | hm
    · exact (hplain _ hm).2 rfl
    · obtain rfl := List.mem_singleton.1 hm
      exact absurd he (by decide)
  have hline := hread.dispatches hno (by simp; omega) (by simp)
  rw [List.map_singleton] at hline
  refine hline.trans ?_
  rw [readLine,named,firstWord_append (cmdName_spaceless c hc) (.inr hsep),hfind]
  simp

theorem rendering_length {os : List TxObject} {rs : List Record} (h : List.Forall₂ Writes os rs) :
    (os.flatMap TxObject.text).length ≤ 3 * (encode rs).length := by
  induction h with
  | nil => simp
  | @cons o r os rs hw _ ih =>
    have h1 := bytesOf_length hw.tag
    have h2 := bytesOf_length hw.kind
    have h3 := bytesOf_length hw.value
    simp only [List.flatMap_cons,List.length_append,TxObject.text,List.length_cons,encode,
      Record.bytes_length,Record.size,List.length_nil] at ih h1 h2 h3 ⊢
    omega

/-- A fresh `$$TX` line with objects and a fresh `$$TXRAW` line with the digits of their
records upload the same bytes, whatever the static buffers hold and the network does. -/
theorem tx_txRaw_agree {os : List TxObject} {rs : List Record} (hne : os ≠ [])
    (hw : List.Forall₂ Writes os rs) (hsmall : (encode rs).length ≤ 255)
    (hmin : 8 ≤ (os.flatMap TxObject.text).length) {sizeText digits : List UInt8}
    (hsize : bytesOf sizeText = some [UInt8.ofNat (encode rs).length])
    (hdigits : bytesOf digits = some (encode rs)) {e e' : UInt8} (he : EndsLine e)
    (he' : EndsLine e') :
    ∃ n tx n' raw,
      dispatches (0x24 :: (ascii "$TX" ++ os.flatMap TxObject.text ++ [e])) =
        .ok [(n, some tx)] ∧ tx.cmd.cmdFunc = .cmdAsciiCmdTx ∧
      dispatches (0x24 :: (ascii "$TXRAW" ++ rawText sizeText digits ++ [e'])) =
        .ok [(n', some raw)] ∧ raw.cmd.cmdFunc = .cmdAsciiCmdTxRaw ∧
      ∃ payload size, size.toNat = (encode rs).length ∧ payload.read 0 size.toNat = encode rs ∧
        txRawUpload raw.inBuff raw.inLen = some (encode rs, size) ∧
        ∀ (cfg : Connector) (httpRes httpRes' : HttpResponse) (reqBuff reqBuff' : Mem)
            (net net' : NetOutcome), ∃ up up',
          sipfObjClientObjUpRaw cfg httpRes reqBuff payload size net = .ok up ∧
          cmdAsciiCmdTx cfg httpRes reqBuff tx.inBuff tx.inLen net =
            some (.ok ⟨txAnswer up, some (payload, size)⟩) ∧
          sipfObjClientObjUpRaw cfg httpRes' reqBuff' (Mem.ofList (encode rs)) size net' = .ok up' ∧
          cmdAsciiCmdTxRaw cfg httpRes' reqBuff' raw.inBuff raw.inLen net' = .ok (txAnswer up') ∧
          up.request = some (connectorRequest cfg (objectsUpHeader size ++ encode rs)) ∧
          up'.request = up.request := by
  have htext := rendering_length hw
  have hdl := bytesOf_length hdigits
  have hsl := bytesOf_length hsize
  obtain ⟨o,os',hos⟩ := List.exists_cons_of_ne_nil hne
  have henc : encode rs ≠ [] := by
    intro h0
    rw [h0,List.length_nil] at htext
    omega
  have htx := @dispatches_single ⟨ascii "$TX", .cmdAsciiCmdTx⟩ (by decide) (os.flatMap TxObject.text)
    (by rw [hos]; rfl) (plain_rendering hw) (by omega) e he
  have hraw := @dispatches_single ⟨ascii "$TXRAW", .cmdAsciiCmdTxRaw⟩ (by decide)
    (rawText sizeText digits) rfl
    ((plain_space (plain_digits hsize)).append (plain_space (plain_digits hdigits)))
    (by simp only [rawText,List.length_append,List.length_cons,List.length_nil] at hsl ⊢; omega) e' he'
  obtain ⟨payload,size,hloop,hlen,hread⟩ := rendering_parsed hne hw (by omega) (by omega)
    (Mem.read_ofList (os.flatMap TxObject.text))
  have hn : UInt16.ofNat (encode rs).length = size := by rw [← hlen,UInt16.ofNat_toNat]
  have hupload := txRaw_uploads henc hsize hsmall hdigits
  rw [hn] at hupload
  refine ⟨_,_,_,_,htx,rfl,hraw,rfl,payload,size,hlen,hread,hupload,
    fun cfg httpRes httpRes' reqBuff reqBuff' net net' => ?_⟩
  have hfit : 12 + size.toNat < buffSz := by rw [hlen,buffSz]; omega
  obtain ⟨up,hres,hcmd,hreq⟩ := tx_parsed hmin (by omega) hloop (by omega) cfg httpRes reqBuff net
  obtain ⟨up',hres',hreq',-⟩ := upRaw_issues cfg httpRes' reqBuff' (Mem.ofList (encode rs)) net' hfit
  rw [hread] at hreq
  rw [hlen,Mem.read_ofList] at hreq'
  refine ⟨up,up',hres,hcmd,hres',?_,hreq,hreq'.trans hreq.symm⟩
  rw [txRaw_eq,hupload,Option.elim_some,hres']
  rfl

theorem tx_txRaw_agree_two :
    ∃ n tx n' raw,
      dispatches (0x24 :: (ascii "$TX" ++ ascii " 01 00 aF 0a 10 " ++ [0x0d])) =
        .ok [(n, some tx)] ∧ tx.cmd.cmdFunc = .cmdAsciiCmdTx ∧
      dispatches (0x24 :: (ascii "$TXRAW" ++ rawText (ascii "07") (ascii "000101AF100A00") ++ [0x0a])) =
        .ok [(n', some raw)] ∧ raw.cmd.cmdFunc = .cmdAsciiCmdTxRaw ∧
      ∃ payload size, size.toNat = 7 ∧ payload.read 0 size.toNat = encode twoRecords ∧
        txRawUpload raw.inBuff raw.inLen = some (encode twoRecords, size) ∧
        ∀ (cfg : Connector) (httpRes httpRes' : HttpResponse) (reqBuff reqBuff' : Mem)
            (net net' : NetOutcome), ∃ up up',
          sipfObjClientObjUpRaw cfg httpRes reqBuff payload size net = .ok up ∧
          cmdAsciiCmdTx cfg httpRes reqBuff tx.inBuff tx.inLen net =
            some (.ok ⟨txAnswer up, some (payload, size)⟩) ∧
          sipfObjClientObjUpRaw cfg httpRes' reqBuff' (Mem.ofList (encode twoRecords)) size net' =
            .ok up' ∧
          cmdAsciiCmdTxRaw cfg httpRes' reqBuff' raw.inBuff raw.inLen net' = .ok (txAnswer up') ∧
          up.request = some (connectorRequest cfg (objectsUpHeader size ++ encode twoRecords)) ∧
          up'.request = up.request :=
  @tx_txRaw_agree twoWritten twoRecords (by decide) twoWritten_writes (by decide) (by decide)
    (ascii "07") (ascii "000101AF100A00") (by decide) (by decide) 0x0d 0x0a (.inr rfl) (.inl rfl)

end SipfClient.Command
