import SipfClient.Stores
import SipfClient.Registers
set_option autoImplicit false

namespace SipfClient
open Stores

abbrev RegisterOp := Op UInt8 UInt8

def RegisterOp.run (r : Registers) : RegisterOp → Registers
  | .reset => registersReset r
  | .write addr value => (registersWrite r addr value).2
  | .read _ => r

def Registers.runOps (r : Registers) (ops : List RegisterOp) : Registers := ops.foldl RegisterOp.run r

def Registers.bank (r : Registers) : UInt8 := r.regCommon.get 15

/-- The build-time values of the common registers below the bank. -/
def Version.common (v : Version) : List UInt8 :=
  [v.fwType, v.verMjr, v.verMnr, (v.verRel &&& 0xff).toUInt8, (v.verRel >>> 8).toUInt8] ++
    List.replicate 10 0

theorem Version.common_boot (v : Version) {i : Nat} (hi : i < 15) :
    v.common[i]? = some (Registers.boot v).regCommon[i] := by
  have hlist : (Registers.boot v).regCommon.toList = v.common ++ [0] := rfl
  have hlen : v.common.length = 15 := rfl
  rw [← Vector.getElem_toList (by simp; omega),← List.getElem?_eq_getElem,hlist,
    List.getElem?_append_left (by omega)]

theorem bankOf_entry {bank : UInt8} (h : (bankOf bank).isSome) :
    ∃ f, bankFunc[bank.toNat]? = some (some f) := by
  obtain ⟨f,hf⟩ := Option.isSome_iff_exists.1 h
  exact ⟨f,Option.join_eq_some_iff.1 hf⟩

section Access

variable (r : Registers) (addr value : UInt8)

theorem registersRead_bank {addr : UInt8} (h : addr.toNat < 0xf0) :
    registersRead r addr = some r.bank00[addr.toNat] := by
  simp only [registersRead,if_neg (Nat.not_le.2 h),r.funcs_eq,bank00Read,
    dif_neg (Nat.not_le.2 h)]

theorem registersRead_common {addr : UInt8} (h : 0xf0 ≤ addr.toNat) :
    registersRead r addr =
      some (r.regCommon.get ⟨addr.toNat - 0xf0,by have h := addr.toNat_lt; omega⟩) := by
  simp only [registersRead,if_pos h,regCommonRead,if_neg (Nat.not_lt.2 h)]

theorem registersReset_bank00 : (registersReset r).bank00 = Vector.replicate 240 0 := rfl

theorem registersWrite_bank {addr : UInt8} (h : addr.toNat < 0xf0) :
    registersWrite r addr value =
      ((value.toNat : Int), { r with bank00 := r.bank00.set addr.toNat value }) := by
  simp only [registersWrite,if_neg (Nat.not_le.2 h),r.funcs_eq,bank00Write,
    dif_neg (Nat.not_le.2 h)]

theorem registersWrite_common {addr : UInt8} (h : 0xf0 ≤ addr.toNat) :
    registersWrite r addr value = regCommonWrite r addr value := by
  rw [registersWrite,if_pos h]

theorem regCommonWrite_below {i : Nat} (hi : i < 15) :
    (regCommonWrite r addr value).2.regCommon[i] = r.regCommon[i] := by
  simp only [regCommonWrite]
  split_ifs
  · rfl
  · rfl
  · rfl
  · exact Vector.getElem_set_ne (by omega) (by omega) (by omega)

theorem registersWrite_below {i : Nat} (hi : i < 15) :
    (registersWrite r addr value).2.regCommon[i] = r.regCommon[i] := by
  by_cases ha : addr.toNat < 0xf0
  · rw [registersWrite_bank r value ha]
  · rw [registersWrite_common r value (Nat.not_lt.1 ha)]
    exact regCommonWrite_below r addr value hi

theorem regCommonWrite_refused (h : (regCommonWrite r addr value).1 < 0) :
    (regCommonWrite r addr value).2 = r := by
  simp only [regCommonWrite] at h ⊢
  split_ifs at h ⊢
  · rfl
  · rfl
  · rfl
  · exact absurd h (by simp)

theorem registersWrite_refused (h : (registersWrite r addr value).1 < 0) :
    (registersWrite r addr value).2 = r := by
  by_cases ha : addr.toNat < 0xf0
  · rw [registersWrite_bank r value ha] at h
    exact absurd h (by simp)
  · rw [registersWrite_common r value (Nat.not_lt.1 ha)] at h ⊢
    exact regCommonWrite_refused r addr value h

end Access

/-- The store under the addresses below 0xf0, and the common registers as they were built. -/
structure Holds (v : Version) (r : Registers) (s : UInt8 → UInt8) : Prop where
  bank : ∀ addr : UInt8, addr.toNat < 0xf0 → registersRead r addr = some (s addr)
  common : ∀ i, (hi : i < 15) → r.regCommon[i] = (Registers.boot v).regCommon[i]

theorem holds_boot (v : Version) : Holds v (Registers.boot v) fun _ => 0 where
  bank addr h := by
    rw [registersRead_bank _ h]
    simp [Registers.boot]
  common _ _ := rfl

theorem holds_reset {v : Version} {r : Registers} {s : UInt8 → UInt8} (h : Holds v r s) :
    Holds v (registersReset r) fun _ => 0 where
  bank addr ha := by
    rw [registersRead_bank _ ha]
    simp [registersReset_bank00]
  common := h.common

theorem holds_write {v : Version} {r : Registers} {s : UInt8 → UInt8} (h : Holds v r s)
    (addr value : UInt8) : Holds v (registersWrite r addr value).2 (Function.update s addr value) where
  bank a ha := by
    have hr := h.bank a ha
    rw [registersRead_bank _ ha] at hr ⊢
    by_cases hb : addr.toNat < 0xf0
    · rw [registersWrite_bank r value hb]
      by_cases hne : a = addr
      · subst hne
        simp
      · have hidx : addr.toNat ≠ a.toNat := fun he => hne (UInt8.toNat_inj.1 he.symm)
        rw [Function.update_of_ne hne,← hr]
        exact congrArg some (Vector.getElem_set_ne hb ha hidx)
    · have hne : a ≠ addr := by
        rintro rfl
        exact hb ha
      rw [Function.update_of_ne hne,← hr]
      simp only [registersWrite_common r value (Nat.not_lt.1 hb),regCommonWrite_bank00]
  common i hi := (registersWrite_below r addr value hi).trans (h.common i hi)

theorem holds_op {v : Version} {r : Registers} {s : UInt8 → UInt8} (op : RegisterOp)
    (h : Holds v r s) : Holds v (RegisterOp.run r op) (Op.run 0 s op) := by
  cases op with
  | reset => exact holds_reset h
  | write addr value => exact holds_write h addr value
  | read addr => exact h

theorem holds_runOps (v : Version) (ops : List RegisterOp) :
    Holds v ((Registers.boot v).runOps ops) (Stores.run 0 (fun _ => 0) ops) :=
  run_simulates (Holds v) (fun _ _ op h => holds_op op h) (holds_boot v) ops

theorem Holds.builtIn {v : Version} {r : Registers} {s : UInt8 → UInt8} (h : Holds v r s)
    {addr : UInt8} (hlo : 0xf0 ≤ addr.toNat) (hhi : addr ≠ 0xff) :
    registersRead r addr = v.common[addr.toNat - 0xf0]? := by
  have hlt : addr.toNat - 0xf0 < 15 := by
    have hb := addr.toNat_lt
    have hne : addr.toNat ≠ 255 := fun he => hhi (UInt8.toNat_inj.1 he)
    omega
  rw [registersRead_common r hlo,v.common_boot hlt,← h.common _ hlt]
  rfl

/-- After every sequence of operations from start-up the selected bank has functions, an
address below 0xf0 reads as the last write there since the last reset, the common
registers below the bank read as they were built, the last one is the bank, and a
write that is refused changes nothing. -/
theorem registers_store (v : Version) (ops : List RegisterOp) :
    let r := (Registers.boot v).runOps ops
    (∃ f, bankFunc[r.bank.toNat]? = some (some f)) ∧
      (∀ addr : UInt8, addr.toNat < 0xf0 →
        registersRead r addr = some (lastWrite 0 addr ops.reverse)) ∧
      (∀ addr : UInt8, 0xf0 ≤ addr.toNat → addr ≠ 0xff →
        registersRead r addr = v.common[addr.toNat - 0xf0]?) ∧
      registersRead r 0xff = some r.bank ∧
      ∀ addr value, (registersWrite r addr value).1 < 0 → (registersWrite r addr value).2 = r := by
  intro r
  have h : Holds v r (Stores.run 0 (fun _ => 0) ops) := holds_runOps v ops
  refine ⟨bankOf_entry r.selected,?_,?_,rfl,?_⟩
  · intro addr ha
    rw [h.bank addr ha,run_lastWrite]
  · intro addr hlo hhi
    exact h.builtIn hlo hhi
  · intro addr value href
    exact registersWrite_refused r addr value href

end SipfClient
