import SipfClient.HexText
set_option autoImplicit false

namespace Base64
open HexText

def alphabet : List UInt8 :=
  ascii "ABCDEFGHIJKLMNOPQRSTUVWXYZabcdefghijklmnopqrstuvwxyz0123456789+/"

def digit (n : Nat) : UInt8 := alphabet.getD (n % 64) 0

def pad : UInt8 := 0x3d

def encode : List UInt8 → List UInt8
  | [] => []
  | [a] => [digit (a.toNat / 4),digit (a.toNat * 16),pad,pad]
  | [a,b] => [digit (a.toNat / 4),digit (a.toNat * 16 + b.toNat / 16),digit (b.toNat * 4),pad]
  | a :: b :: c :: rest =>
    [digit (a.toNat / 4),digit (a.toNat * 16 + b.toNat / 16),digit (b.toNat * 4 + c.toNat / 64),
      digit c.toNat] ++ encode rest

theorem encode_length (bs : List UInt8) : (encode bs).length = 4 * ((bs.length + 2) / 3) := by
  induction bs using encode.induct with
  | case1 => rfl
  | case2 a => simp [encode]
  | case3 a b => simp [encode]
  | case4 a b c rest ih =>
    simp only [encode,List.length_append,List.length_cons,List.length_nil,ih]
    omega

def value (c : UInt8) : Option Nat := (List.range 64).find? fun n => digit n = c

def first (x y : Nat) : UInt8 := UInt8.ofNat (x * 4 + y / 16)

def second (y z : Nat) : UInt8 := UInt8.ofNat (y * 16 + z / 4)

def third (z w : Nat) : UInt8 := UInt8.ofNat (z * 64 + w)

/-- Padding stands in the last group only. -/
def decode : List UInt8 → Option (List UInt8)
  | [] => some []
  | p :: q :: r :: s :: rest => do
    let x ← value p
    let y ← value q
    if s = pad then
      if rest ≠ [] then none
      else if r = pad then pure [first x y]
      else do
        let z ← value r
        pure [first x y,second y z]
    else do
      let z ← value r
      let w ← value s
      let bytes ← decode rest
      pure (first x y :: second y z :: third z w :: bytes)
  | _ => none

theorem digit_mod (n : Nat) : digit (n % 64) = digit n := by rw [digit,digit,Nat.mod_mod]

theorem value_digit (n : Nat) : value (digit n) = some (n % 64) := by
  have hall : ∀ k : Fin 64, value (digit k) = some k.1 := by decide +kernel
  have hk := hall ⟨n % 64,Nat.mod_lt _ (by decide)⟩
  rwa [digit_mod] at hk

theorem digit_ne_pad (n : Nat) : digit n ≠ pad := by
  have hall : ∀ k : Fin 64, digit k ≠ pad := by decide +kernel
  have hk := hall ⟨n % 64,Nat.mod_lt _ (by decide)⟩
  rwa [digit_mod] at hk

theorem byte_of {n : Nat} {b : UInt8} (h : n % 256 = b.toNat) : UInt8.ofNat n = b := by
  apply UInt8.toNat_inj.1
  rw [UInt8.toNat_ofNat',← h]

theorem first_of (a : UInt8) {k : Nat} (hk : k < 16) :
    first (a.toNat / 4 % 64) ((a.toNat * 16 + k) % 64) = a := by
  have ha := a.toNat_lt
  exact byte_of (by omega)

theorem second_of (a b : UInt8) {k : Nat} (hk : k < 4) :
    second ((a.toNat * 16 + b.toNat / 16) % 64) ((b.toNat * 4 + k) % 64) = b := by
  have hb := b.toNat_lt
  exact byte_of (by omega)

theorem third_of (b c : UInt8) : third ((b.toNat * 4 + c.toNat / 64) % 64) (c.toNat % 64) = c := by
  have hc := c.toNat_lt
  exact byte_of (by omega)

theorem decode_encode (bs : List UInt8) : decode (encode bs) = some bs := by
  induction bs using encode.induct with
  | case1 => rfl
  | case2 a =>
    have hfirst := @first_of a 0 (by decide)
    rw [Nat.add_zero] at hfirst
    simp [encode,decode,value_digit,hfirst]
  | case3 a b =>
    have hb := b.toNat_lt
    have hfirst := @first_of a (b.toNat / 16) (by omega)
    have hsecond := @second_of a b 0 (by decide)
    rw [Nat.add_zero] at hsecond
    simp [encode,decode,value_digit,digit_ne_pad,hfirst,hsecond]
  | case4 a b c rest ih =>
    have hb := b.toNat_lt
    have hc := c.toNat_lt
    have hfirst := @first_of a (b.toNat / 16) (by omega)
    have hsecond := @second_of a b (c.toNat / 64) (by omega)
    simp [encode,decode,value_digit,digit_ne_pad,hfirst,hsecond,third_of,ih]

example : encode [0x66,0x6f,0x6f,0x62,0x61] = ascii "Zm9vYmE=" := by decide

end Base64
