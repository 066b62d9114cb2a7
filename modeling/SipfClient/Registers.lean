import SipfClient.Memory
set_option autoImplicit false

/-!
`registers.c`: 240 registers behind a bank, and 16 common ones the last of which
selects the bank. A register file cannot be built with a bank selected that has no
functions.
-/

namespace SipfClient

structure Version where
  fwType : UInt8
  verMjr : UInt8
  verMnr : UInt8
  verRel : UInt16

abbrev Bank00 := Vector UInt8 240

def bank00Reset (_ : Bank00) : Bank00 := Vector.replicate 240 0

/-- The value that was written, or -1 for a register that is not in the bank. -/
def bank00Write (addr value : UInt8) (bank : Bank00) : Int × Bank00 :=
  if h : 0xf0 ≤ addr.toNat then (-1, bank) else (value.toNat, bank.set addr.toNat value)

def bank00Read (addr : UInt8) (bank : Bank00) : Option UInt8 :=
  if h : 0xf0 ≤ addr.toNat then none else some (bank[addr.toNat])

structure RegistersBankFuncs where
  reset : Bank00 → Bank00
  write : UInt8 → UInt8 → Bank00 → Int × Bank00
  read : UInt8 → Bank00 → Option UInt8

/-- `none` is an entry of NULLs. -/
def bankFunc : List (Option RegistersBankFuncs) :=
  [some ⟨bank00Reset, bank00Write, bank00Read⟩,none]

def bankOf (bank : UInt8) : Option RegistersBankFuncs := (bankFunc[bank.toNat]?).join

structure Registers where
  regCommon : Vector UInt8 16
  bank00 : Bank00
  selected : (bankOf regCommon[15]).isSome

namespace Registers

/-- What the linker initialises the registers to. -/
def boot (v : Version) : Registers where
  regCommon := #v[v.fwType, v.verMjr, v.verMnr, (v.verRel &&& 0xff).toUInt8, (v.verRel >>> 8).toUInt8,
    0, 0, 0, 0, 0, 0, 0, 0, 0, 0, 0]
  bank00 := Vector.replicate 240 0
  selected := rfl

def funcs (r : Registers) : RegistersBankFuncs := (bankOf r.regCommon[15]).get r.selected

def mode (r : Registers) : UInt8 := r.bank00[0]

def setMode (r : Registers) (value : UInt8) : Registers := { r with bank00 := r.bank00.set 0 value }

@[simp] theorem setMode_mode (r : Registers) (value : UInt8) : (r.setMode value).mode = value := by
  simp [setMode,mode]

end Registers

/-- Only the bank can be written. -/
def regCommonWrite (r : Registers) (addr value : UInt8) : Int × Registers :=
  if addr ≠ 0xf0 then (-1, r)
  else if bankFunc.length < value.toNat + 1 then (-1, r)
  else if h : (bankOf value).isNone then (-1, r)
  else (value.toNat, { r with
    regCommon := r.regCommon.set 15 value
    selected := by simpa [Option.isSome_iff_ne_none] using h })

def regCommonRead (r : Registers) (addr : UInt8) : Option UInt8 :=
  if addr.toNat < 0xf0 then none
  else some (r.regCommon.get ⟨addr.toNat - 0xf0,by have h := addr.toNat_lt; omega⟩)

/-- The banks that have functions are reset. -/
def registersReset (r : Registers) : Registers :=
  { r with bank00 := (bankFunc.filterMap id).foldl (fun bank f => f.reset bank) r.bank00 }

def registersWrite (r : Registers) (addr value : UInt8) : Int × Registers :=
  if 0xf0 ≤ addr.toNat then regCommonWrite r addr value
  else
    let (ret, bank00) := r.funcs.write addr value r.bank00
    (ret, { r with bank00 := bank00 })

def registersRead (r : Registers) (addr : UInt8) : Option UInt8 :=
  if 0xf0 ≤ addr.toNat then regCommonRead r addr else r.funcs.read addr r.bank00

theorem bankOf_isSome {bank : UInt8} (h : (bankOf bank).isSome) : bank = 0 := by
  have hlt : bank.toNat < bankFunc.length := by
    by_contra hge
    simp [bankOf,List.getElem?_eq_none (Nat.le_of_not_lt hge)] at h
  have hone : bank.toNat ≠ 1 := by
    intro hb
    simp [bankOf,hb,bankFunc] at h
  apply UInt8.toNat_inj.1
  simp only [bankFunc,List.length_cons,List.length_nil] at hlt
  simp only [UInt8.toNat_zero]
  omega

theorem Registers.funcs_eq (r : Registers) : r.funcs = ⟨bank00Reset, bank00Write, bank00Read⟩ := by
  have h := bankOf_isSome r.selected
  simp only [Registers.funcs,h]
  rfl

theorem regCommonWrite_bank00 (r : Registers) (addr value : UInt8) :
    (regCommonWrite r addr value).2.bank00 = r.bank00 := by
  simp only [regCommonWrite]
  split_ifs <;> rfl

/-- The mode is what the last write to register 0x00 made it; no other write
reaches it, and none to it is refused. -/
theorem registersWrite_mode (r : Registers) (addr value : UInt8) :
    (registersWrite r addr value).2.mode = if addr = 0 then value else r.mode := by
  by_cases hc : 0xf0 ≤ addr.toNat
  · have hne : addr ≠ 0 := by
      rintro rfl
      simp at hc
    simp only [registersWrite,if_pos hc,if_neg hne,Registers.mode,regCommonWrite_bank00]
  · simp only [registersWrite,if_neg hc,r.funcs_eq,bank00Write,dif_neg hc,Registers.mode]
    by_cases ha : addr = 0
    · subst ha
      simp
    · have hne : addr.toNat ≠ 0 := fun h => ha (UInt8.toNat_inj.1 (by simpa using h))
      rw [if_neg ha]
      exact Vector.getElem_set_ne _ _ hne

theorem registersWrite_mode_ret (r : Registers) (value : UInt8) :
    (registersWrite r 0 value).1 = value.toNat := by
  have hc : ¬ 0xf0 ≤ (0 : UInt8).toNat := by decide
  simp only [registersWrite,if_neg hc,r.funcs_eq,bank00Write,dif_neg hc]

end SipfClient
