import SipfClient.HexText
set_option autoImplicit false

namespace SipfClient.Command
open ByteMem HexText

def cmdBuffSz : Nat := 4096

def cmdCreateResIllParam : List UInt8 := ascii "ILLIGAL PARAMETER\r\nNG\r\n"

def cmdCreateResOk : List UInt8 := ascii "OK\r\n"

def cmdCreateResNg : List UInt8 := ascii "NG\r\n"

def hexToUint8Step (acc : UInt8 × UInt8) (c shift : UInt8) : UInt8 × UInt8 :=
  match digitValue c with
  | some v => (acc.1 ||| v <<< shift, acc.2)
  | none => (0, 0xff)

/-- The result and `*err`. A bad first digit does not stop the loop. -/
def hexToUint8 (pchars : Mem) : UInt8 × UInt8 :=
  hexToUint8Step (hexToUint8Step (0, 0) (pchars 0) 4) (pchars 1) 0

theorem hexToUint8_ok {m : Mem} {v : UInt8} (h : pairValue (m 0) (m 1) = some v) :
    hexToUint8 m = (v, 0) := by
  simp only [pairValue,bind,Option.bind_eq_some_iff] at h
  obtain ⟨hi,hhi,lo,hlo,hv⟩ := h
  cases hv
  simp [hexToUint8,hexToUint8Step,hhi,hlo]

theorem hexToUint8_err {m : Mem} (h : pairValue (m 0) (m 1) = none) :
    (hexToUint8 m).2 ≠ 0 := by
  cases hhi : digitValue (m 0) with
  | none =>
    cases hlo : digitValue (m 1) <;> simp [hexToUint8,hexToUint8Step,hhi,hlo]
  | some hi =>
    cases hlo : digitValue (m 1) with
    | none => simp [hexToUint8,hexToUint8Step,hlo]
    | some lo => simp [pairValue,hhi,hlo] at h

end SipfClient.Command
