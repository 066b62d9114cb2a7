import SipfClient.HexFields
import SipfClient.TxRendering
set_option autoImplicit false

namespace SipfClient.Command
open ByteMem HexText CText Object Http

/-- What the dispatch leaves behind a name. -/
theorem readLine_params {line : List UInt8} {call : CmdCall} (h : (readLine line).2 = some call) :
    call.inBuff = Mem.ofList (line.drop call.cmd.cmdName.length) ∧
    call.inLen = UInt16.ofNat (line.drop call.cmd.cmdName.length).length ∧
    (line.drop call.cmd.cmdName.length = [] ∨
      (line.drop call.cmd.cmdName.length).head? = some 0x20) := by
  obtain ⟨c,hc,rfl⟩ := Option.map_eq_some_iff.1 h
  have hname : c.cmdName = firstWord line := by simpa using List.find?_some hc
  have hmem : c ∈ cmdfunc := List.mem_of_find?_eq_some hc
  refine ⟨rfl,rfl,?_⟩
  obtain ⟨htake,hend⟩ := (names_iff hmem line).2 hname
  simp only [Line.bytes,List.append_nil] at htake hend
  rcases hend with hlen | hsep
  · exact .inl (List.drop_eq_nil_of_le (Nat.le_of_eq hlen))
  · exact .inr (by rw [List.head?_drop,hsep])

section Registers

def WParams (params : List UInt8) (addr value : UInt8) : Prop :=
  ∃ a b c d, params = [0x20,a,b,0x20,c,d] ∧ pairValue a b = some addr ∧ pairValue c d = some value

def RParams (params : List UInt8) (addr : UInt8) : Prop :=
  ∃ a b, params = [0x20,a,b] ∧ pairValue a b = some addr

def WFields (params : List UInt8) (addr value : UInt8) : Prop :=
  ∃ a b c d, params = [0x20,a,b,0x20,c,d] ∧ fieldByte a b = some addr ∧ fieldByte c d = some value

def RFields (params : List UInt8) (addr : UInt8) : Prop :=
  ∃ a b, params = [0x20,a,b] ∧ fieldByte a b = some addr

/-- The address `cmdAsciiCmdR` calls `RegistersRead` with, if it comes to the call. -/
def readAddr (inBuff : Mem) (inLen : UInt16) : Option UInt8 :=
  if inLen ≠ 3 ∨ inBuff 0 ≠ 0x20 then none else strtolByte (cString (inBuff.set 3 0) 1 3)

theorem cmdR_eq (inBuff : Mem) (inLen : UInt16) (r : Registers) :
    cmdAsciiCmdR inBuff inLen r = (readAddr inBuff inLen).elim cmdCreateResIllParam fun addr =>
      (registersRead r addr).elim cmdCreateResIllParam fun val => hex2 val ++ ascii "\r\nOK\r\n" := by
  simp only [cmdAsciiCmdR,readAddr]
  by_cases hlen : inLen ≠ 3
  · rw [if_pos hlen,if_pos (.inl hlen),Option.elim_none]
  by_cases hsep : inBuff 0 ≠ 0x20
  · rw [if_neg hlen,if_pos hsep,if_pos (.inr hsep),Option.elim_none]
  rw [if_neg hlen,if_neg hsep,if_neg (not_or.2 ⟨hlen,hsep⟩)]
  cases hs : strtolByte (cString (inBuff.set 3 0) 1 3) with
  | none => rw [if_pos (strtolByte_none hs),Option.elim_none]
  | some addr =>
    obtain ⟨hend,rfl⟩ := strtolByte_some hs
    rw [if_neg (not_not.2 hend),Option.elim_some]
    cases registersRead r (UInt8.ofInt (strtol16 (cString (inBuff.set 3 0) 1 3)).1) <;> rfl

def writeArgs (inBuff : Mem) (inLen : UInt16) : Option (UInt8 × UInt8) :=
  if inLen ≠ 6 ∨ inBuff 3 ≠ 0x20 ∨ inBuff 0 ≠ 0x20 then none
  else do
    let addr ← strtolByte (cString ((inBuff.set 3 0).set 6 0) 1 3)
    let value ← strtolByte (cString ((inBuff.set 3 0).set 6 0) 4 3)
    pure (addr, value)

theorem cmdW_eq {inBuff : Mem} (hfirst : inBuff 0 = 0x20 ∨ inBuff 3 ≠ 0x20) (inLen : UInt16)
    (r : Registers) :
    cmdAsciiCmdW inBuff inLen r = (writeArgs inBuff inLen).elim
      ⟨.ok cmdCreateResIllParam, false, r, []⟩ fun p =>
        ⟨.ok (if (registersWrite r p.1 p.2).1 < 0 then cmdCreateResNg else cmdCreateResOk), false,
          (registersWrite r p.1 p.2).2,
          [.registersWrite p.1 p.2 (registersWrite r p.1 p.2).1]⟩ := by
  simp only [cmdAsciiCmdW,writeArgs]
  by_cases hlen : inLen ≠ 6
  · rw [if_pos hlen,if_pos (.inl hlen),Option.elim_none]
  by_cases hsep : inBuff 3 ≠ 0x20
  · rw [if_neg hlen,if_pos hsep,if_pos (.inr (.inl hsep)),Option.elim_none]
  have hspace : ¬ inBuff 0 ≠ 0x20 := not_not.2 (hfirst.resolve_right hsep)
  rw [if_neg hlen,if_neg hsep,if_neg hspace,if_neg (not_or.2 ⟨hlen,not_or.2 ⟨hsep,hspace⟩⟩)]
  cases ha : strtolByte (cString ((inBuff.set 3 0).set 6 0) 1 3) with
  | none => rw [if_pos (strtolByte_none ha)]; rfl
  | some addr =>
    obtain ⟨hend,rfl⟩ := strtolByte_some ha
    rw [if_neg (not_not.2 hend)]
    cases hv : strtolByte (cString ((inBuff.set 3 0).set 6 0) 4 3) with
    | none => rw [if_pos (strtolByte_none hv)]; rfl
    | some value =>
      obtain ⟨hend,rfl⟩ := strtolByte_some hv
      rw [if_neg (not_not.2 hend)]
      rfl

section Parsed

theorem three_chars {params : List UInt8} (h : 3 ≤ params.length) :
    ∃ x a b rest, params = x :: a :: b :: rest := by
  rcases params with _ | ⟨x,_ | ⟨a,_ | ⟨b,rest⟩⟩⟩
  · simp at h
  · simp at h
  · simp at h
  · exact ⟨x,a,b,rest,rfl⟩

variable {params : List UInt8} (hlen : params.length ≤ 4095)
include hlen

theorem inLen_ne {n : UInt16} (h : ¬ UInt16.ofNat params.length ≠ n) : params.length = n.toNat := by
  rw [← not_not.1 h,length_ofNat hlen]

theorem readAddr_iff {addr : UInt8} :
    readAddr (Mem.ofList params) (UInt16.ofNat params.length) = some addr ↔
      RFields params addr := by
  have hform : ∀ a b, readAddr (Mem.ofList [0x20,a,b]) 3 = fieldByte a b := fun a b => by
    rw [readAddr,if_neg (by simp [Mem.ofList]),strtolByte_cString rfl]
    rfl
  constructor
  · intro h
    have hcond : ¬ (UInt16.ofNat params.length ≠ 3 ∨ Mem.ofList params 0 ≠ 0x20) := fun hc => by
      rw [readAddr,if_pos hc] at h
      cases h
    obtain ⟨hne,hsep⟩ := not_or.1 hcond
    have hthree : params.length = 3 := inLen_ne hlen hne
    obtain ⟨x,a,b,rfl⟩ := List.length_eq_three.1 hthree
    obtain rfl : x = 0x20 := not_not.1 hsep
    exact ⟨a,b,rfl,(hform a b).symm.trans h⟩
  · rintro ⟨a,b,rfl,hab⟩
    exact (hform a b).trans hab

theorem writeArgs_iff {addr value : UInt8} :
    writeArgs (Mem.ofList params) (UInt16.ofNat params.length) = some (addr, value) ↔
      WFields params addr value := by
  have hform : ∀ a b c d, writeArgs (Mem.ofList [0x20,a,b,0x20,c,d]) 6 = some (addr, value) ↔
      fieldByte a b = some addr ∧ fieldByte c d = some value := fun a b c d => by
    have hab : strtolByte (cString (((Mem.ofList [0x20,a,b,0x20,c,d]).set 3 0).set 6 0) 1 3) =
        fieldByte a b := strtolByte_cString rfl
    have hcd : strtolByte (cString (((Mem.ofList [0x20,a,b,0x20,c,d]).set 3 0).set 6 0) 4 3) =
        fieldByte c d := strtolByte_cString rfl
    rw [writeArgs,if_neg (by simp [Mem.ofList]),hab,hcd]
    simp [Option.bind_eq_some_iff]
  constructor
  · intro h
    have hcond : ¬ (UInt16.ofNat params.length ≠ 6 ∨ Mem.ofList params 3 ≠ 0x20 ∨
        Mem.ofList params 0 ≠ 0x20) := fun hc => by
      rw [writeArgs,if_pos hc] at h
      cases h
    obtain ⟨hne,hsep⟩ := not_or.1 hcond
    obtain ⟨hmid,hfirst⟩ := not_or.1 hsep
    have hsix : params.length = 6 := inLen_ne hlen hne
    obtain ⟨x,a,b,rest,rfl⟩ := three_chars (by omega : 3 ≤ params.length)
    obtain ⟨y,c,d,rfl⟩ := List.length_eq_three.1 (by simpa using hsix : rest.length = 3)
    obtain rfl : x = 0x20 := not_not.1 hfirst
    obtain rfl : y = 0x20 := not_not.1 hmid
    exact ⟨a,b,c,d,rfl,(hform a b c d).1 h⟩
  · rintro ⟨a,b,c,d,rfl,h⟩
    exact (hform a b c d).2 h

end Parsed

def Handled.Wrote (out : Handled) (r : Registers) (addr value : UInt8) : Prop :=
  out.effects = [.registersWrite addr value (registersWrite r addr value).1] ∧
    out.registers = (registersWrite r addr value).2

/-- `W` and `R` keep to the grammar: the registers are written and read as two digits each
say, and everything else is the illegal parameter. -/
structure RegistersExact (params : List UInt8) : Prop where
  writes : ∀ (r : Registers) (addr value : UInt8),
    (cmdAsciiCmdW (Mem.ofList params) (UInt16.ofNat params.length) r).Wrote r addr value ↔
      WParams params addr value
  unwritten : (∀ addr value, ¬ WParams params addr value) → ∀ r : Registers,
    cmdAsciiCmdW (Mem.ofList params) (UInt16.ofNat params.length) r =
      ⟨.ok cmdCreateResIllParam, false, r, []⟩
  reads : ∀ addr : UInt8,
    readAddr (Mem.ofList params) (UInt16.ofNat params.length) = some addr ↔ RParams params addr
  unread : (∀ addr, ¬ RParams params addr) → ∀ r : Registers,
    cmdAsciiCmdR (Mem.ofList params) (UInt16.ofNat params.length) r = cmdCreateResIllParam

/-- What `strtol` lets through besides: fields that it reads to their end, one of them
without two digits. -/
def RegistersTolerated (params : List UInt8) : Prop :=
  (∃ a b c d, params = [0x20,a,b,0x20,c,d] ∧ (fieldByte a b).isSome ∧ (fieldByte c d).isSome ∧
    (pairValue a b = none ∨ pairValue c d = none)) ∨
  ∃ a b, params = [0x20,a,b] ∧ (fieldByte a b).isSome ∧ pairValue a b = none

section Untolerated

variable {params : List UInt8} (htol : ¬ RegistersTolerated params)
include htol

theorem wFields_iff {addr value : UInt8} : WFields params addr value ↔ WParams params addr value := by
  constructor
  · rintro ⟨a,b,c,d,rfl,hab,hcd⟩
    have hboth : ¬ (pairValue a b = none ∨ pairValue c d = none) := fun hno =>
      htol (.inl ⟨a,b,c,d,rfl,by rw [hab]; rfl,by rw [hcd]; rfl,hno⟩)
    obtain ⟨h1,h2⟩ := not_or.1 hboth
    exact ⟨a,b,c,d,rfl,pairValue_of_field hab h1,pairValue_of_field hcd h2⟩
  · rintro ⟨a,b,c,d,rfl,hab,hcd⟩
    exact ⟨a,b,c,d,rfl,fieldByte_pair hab,fieldByte_pair hcd⟩

theorem rFields_iff {addr : UInt8} : RFields params addr ↔ RParams params addr := by
  constructor
  · rintro ⟨a,b,rfl,hab⟩
    exact ⟨a,b,rfl,pairValue_of_field hab fun hno => htol (.inr ⟨a,b,rfl,by rw [hab]; rfl,hno⟩)⟩
  · rintro ⟨a,b,rfl,hab⟩
    exact ⟨a,b,rfl,fieldByte_pair hab⟩

end Untolerated

section Dispatched

variable {params : List UInt8} (hlen : params.length ≤ 4095)
  (hfirst : params = [] ∨ params.head? = some 0x20)
include hlen hfirst

theorem cmdW_params (r : Registers) :
    cmdAsciiCmdW (Mem.ofList params) (UInt16.ofNat params.length) r =
      (writeArgs (Mem.ofList params) (UInt16.ofNat params.length)).elim
        ⟨.ok cmdCreateResIllParam, false, r, []⟩ fun p =>
          ⟨.ok (if (registersWrite r p.1 p.2).1 < 0 then cmdCreateResNg else cmdCreateResOk), false,
            (registersWrite r p.1 p.2).2,
            [.registersWrite p.1 p.2 (registersWrite r p.1 p.2).1]⟩ := by
  refine cmdW_eq ?_ _ r
  rcases hfirst with rfl | hhead
  · exact .inr (by decide)
  · refine .inl ?_
    rw [Mem.ofList,List.getD_eq_getElem?_getD,← List.head?_eq_getElem?,hhead]
    rfl

theorem cmdW_writes {r : Registers} {addr value : UInt8} :
    (cmdAsciiCmdW (Mem.ofList params) (UInt16.ofNat params.length) r).Wrote r addr value ↔
      WFields params addr value := by
  rw [cmdW_params hlen hfirst,← writeArgs_iff hlen]
  cases hargs : writeArgs (Mem.ofList params) (UInt16.ofNat params.length) with
  | none => simp [Handled.Wrote]
  | some p =>
    constructor
    · rintro ⟨heffects,-⟩
      simp only [Option.elim_some,List.cons.injEq,Effect.registersWrite.injEq] at heffects
      rw [← heffects.1.1,← heffects.1.2.1]
    · intro hp
      cases hp
      exact ⟨rfl,rfl⟩

theorem registers_exact_iff : RegistersExact params ↔ ¬ RegistersTolerated params := by
  constructor
  · intro h hbad
    rcases hbad with ⟨a,b,c,d,rfl,hab,hcd,hno⟩ | ⟨a,b,rfl,hab,hno⟩
    · obtain ⟨addr,hab⟩ := Option.isSome_iff_exists.1 hab
      obtain ⟨value,hcd⟩ := Option.isSome_iff_exists.1 hcd
      obtain ⟨_,_,_,_,hform,hp,hq⟩ := (h.writes (.boot ⟨0,0,0,0⟩) addr value).1
        ((cmdW_writes hlen hfirst).2 ⟨a,b,c,d,rfl,hab,hcd⟩)
      cases hform
      rcases hno with hno | hno
      · rw [hno] at hp
        cases hp
      · rw [hno] at hq
        cases hq
    · obtain ⟨addr,hab⟩ := Option.isSome_iff_exists.1 hab
      obtain ⟨_,_,hform,hp⟩ := (h.reads addr).1 ((readAddr_iff hlen).2 ⟨a,b,rfl,hab⟩)
      cases hform
      rw [hno] at hp
      cases hp
  · intro htol
    refine ⟨fun r addr value => (cmdW_writes hlen hfirst).trans (wFields_iff htol),?_,
      fun addr => (readAddr_iff hlen).trans (rFields_iff htol),?_⟩
    · intro hno r
      have hnone : writeArgs (Mem.ofList params) (UInt16.ofNat params.length) = none := by
        refine Option.eq_none_iff_forall_ne_some.2 fun p hp => ?_
        exact hno p.1 p.2 ((wFields_iff htol).1 ((writeArgs_iff hlen).1 hp))
      rw [cmdW_params hlen hfirst,hnone,Option.elim_none]
    · intro hno r
      have hnone : readAddr (Mem.ofList params) (UInt16.ofNat params.length) = none := by
        refine Option.eq_none_iff_forall_ne_some.2 fun addr haddr => ?_
        exact hno addr ((rFields_iff htol).1 ((readAddr_iff hlen).1 haddr))
      rw [cmdR_eq,hnone,Option.elim_none]

end Dispatched

theorem registers_exact_iff_pair :
    RegistersExact (ascii " F0 00") ↔ ¬ RegistersTolerated (ascii " F0 00") :=
  registers_exact_iff (by decide) (.inr rfl)

/-- A sign and a blank: the line "W -1 5" without its second digit writes to register 255. -/
theorem signed_register_written : ¬ RegistersExact (ascii " -1  5") := by
  intro h
  obtain ⟨_,_,_,_,hform,hp,-⟩ := (h.writes (.boot ⟨0,0,0,0⟩) 0xff 0x05).1 ⟨rfl,rfl⟩
  cases hform
  cases hp

end Registers

section TxRaw

/-- `$$TXRAW XX YYYYYYYYYY..`: the size, not zero, and the bytes it counts. -/
def RawParams (params payload : List UInt8) : Prop :=
  ∃ a b n digits, params = rawText [a,b] digits ∧ pairValue a b = some n ∧ 1 ≤ n.toNat ∧
    bytesOf digits = some payload ∧ payload.length = n.toNat

/-- A field that `strtol` reads to its end, the digits it counts, and nothing, a NUL or the
end of a line behind them. -/
def RawFields (params payload : List UInt8) : Prop :=
  ∃ a b n digits tail, params = rawText [a,b] (digits ++ tail) ∧ digits ++ tail ≠ [] ∧
    fieldByte a b = some n ∧ bytesOf digits = some payload ∧ payload.length = n.toNat ∧
    EndsValue (tail.headD 0)

section Line

variable {params payload : List UInt8} (hlen : params.length ≤ 4095)
include hlen

theorem txRawUpload_iff {size : UInt16} :
    txRawUpload (Mem.ofList params) (UInt16.ofNat params.length) = some (payload, size) ↔
      RawFields params payload ∧ size.toNat = payload.length := by
  constructor
  · intro h
    have hcond : ¬ (UInt16.ofNat params.length < 5 ∨ Mem.ofList params 0 ≠ 0x20 ∨
        Mem.ofList params 3 ≠ 0x20) := fun hc => by
      rw [txRawUpload_eq,if_pos hc] at h
      cases h
    obtain ⟨hfive,hsep⟩ := not_or.1 hcond
    obtain ⟨hfirst,hmid⟩ := not_or.1 hsep
    rw [UInt16.lt_iff_toNat_lt,length_ofNat hlen] at hfive
    replace hfive : 5 ≤ params.length := Nat.le_of_not_lt hfive
    obtain ⟨x,a,b,rest,rfl⟩ := three_chars (by omega : 3 ≤ params.length)
    simp only [List.length_cons] at hfive
    obtain ⟨y,text,rfl⟩ := List.exists_cons_of_length_pos (by omega : 0 < rest.length)
    obtain rfl : x = 0x20 := not_not.1 hfirst
    obtain rfl : y = 0x20 := not_not.1 hmid
    simp only [List.length_cons] at hfive
    have hne : text ≠ [] := List.length_pos_iff.1 (by omega)
    rw [show 0x20 :: a :: b :: 0x20 :: text = rawText [a,b] text from rfl] at h
    rw [txRawUpload_form hne hlen] at h
    simp only [Option.bind_eq_some_iff,Option.map_eq_some_iff,Prod.mk.injEq] at h
    obtain ⟨n,hn,_,hvalue,rfl,rfl⟩ := h
    obtain ⟨digits,tail,rfl,hdigits,hcount,hend⟩ := txRawValue_line.1 hvalue
    exact ⟨⟨a,b,n,digits,tail,rfl,hne,hn,hdigits,hcount,hend⟩,by
      rw [UInt8.toNat_toUInt16,hcount]⟩
  · rintro ⟨⟨a,b,n,digits,tail,rfl,hne,hn,hdigits,hcount,hend⟩,hsize⟩
    have hvalue := txRawValue_line.2 ⟨digits,tail,rfl,hdigits,hcount,hend⟩
    rw [txRawUpload_form hne hlen,hn,Option.bind_some,hvalue,Option.map_some]
    have hbytes : n.toUInt16 = size := by
      rw [← UInt16.toNat_inj,UInt8.toNat_toUInt16,hsize,hcount]
    rw [hbytes]

omit hlen in
theorem RawParams.fields (h : RawParams params payload) : RawFields params payload := by
  obtain ⟨a,b,n,digits,hform,hn,hpos,hdigits,hcount⟩ := h
  have hlength := bytesOf_length hdigits
  refine ⟨a,b,n,digits,[],by rw [hform,List.append_nil],?_,fieldByte_pair hn,hdigits,hcount,.inl rfl⟩
  rw [List.append_nil]
  exact List.length_pos_iff.1 (by omega)

/-- `$$TXRAW` keeps to the grammar: the bytes of the digits are uploaded, and nothing else
comes to an upload. -/
def RawExact (params : List UInt8) : Prop :=
  ∀ (payload : List UInt8) (size : UInt16),
    txRawUpload (Mem.ofList params) (UInt16.ofNat params.length) = some (payload, size) ↔
      RawParams params payload ∧ size.toNat = payload.length

/-- What gets through besides: a size that is not two digits, and a NUL or the end of a line
that cuts off what is behind the digits. -/
def RawTolerated (params : List UInt8) : Prop :=
  ∃ a b n digits tail payload, params = rawText [a,b] (digits ++ tail) ∧ digits ++ tail ≠ [] ∧
    fieldByte a b = some n ∧ bytesOf digits = some payload ∧ payload.length = n.toNat ∧
    EndsValue (tail.headD 0) ∧ (pairValue a b = none ∨ tail ≠ [])

theorem raw_exact_iff : RawExact params ↔ ¬ RawTolerated params := by
  constructor
  · rintro h ⟨a,b,n,digits,tail,payload,rfl,hne,hn,hdigits,hcount,hend,hloose⟩
    have hsize : n.toUInt16.toNat = payload.length := by rw [UInt8.toNat_toUInt16,hcount]
    have hup := (txRawUpload_iff hlen).2
      ⟨⟨a,b,n,digits,tail,rfl,hne,hn,hdigits,hcount,hend⟩,hsize⟩
    obtain ⟨⟨_,_,m,ds,hform,hm,-,hds,-⟩,-⟩ := (h payload n.toUInt16).1 hup
    simp only [rawText,List.cons_append,List.nil_append,List.cons.injEq,true_and] at hform
    obtain ⟨rfl,rfl,rfl⟩ := hform
    rcases hloose with hno | htail
    · rw [hno] at hm
      cases hm
    · have h1 := bytesOf_length hdigits
      have h2 := bytesOf_length hds
      have hpos := List.length_pos_iff.2 htail
      rw [List.length_append] at h2
      omega
  · intro htol payload size
    rw [txRawUpload_iff hlen]
    refine and_congr_left fun _ => ⟨?_,RawParams.fields⟩
    rintro ⟨a,b,n,digits,tail,hform,hne,hn,hdigits,hcount,hend⟩
    have htight : ¬ (pairValue a b = none ∨ tail ≠ []) := fun hloose =>
      htol ⟨a,b,n,digits,tail,payload,hform,hne,hn,hdigits,hcount,hend,hloose⟩
    simp only [not_or,not_not] at htight
    obtain ⟨hp,rfl⟩ := htight
    rw [List.append_nil] at hform hne
    have hlength := bytesOf_length hdigits
    have hpos : 1 ≤ n.toNat := by
      have hdl := List.length_pos_iff.2 hne
      omega
    exact ⟨a,b,n,digits,hform,pairValue_of_field hn hp,hpos,hdigits,hcount⟩

end Line

theorem raw_exact_iff_byte :
    RawExact (ascii " 01 41") ↔ ¬ RawTolerated (ascii " 01 41") := raw_exact_iff (by decide)

/-- "$TXRAW  1 41" uploads a byte on the word of one digit. -/
theorem lone_digit_uploads : ¬ RawExact (ascii "  1 41") := by
  intro h
  obtain ⟨⟨_,_,_,_,hform,hp,-⟩,-⟩ := (h [0x41] 1).1 (by decide +kernel)
  cases hform
  cases hp

end TxRaw

end SipfClient.Command
