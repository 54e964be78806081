import TagFill.Bytes

/-! # Hexadecimal text -/

namespace TagFill.Hex

/-- The digit of a value below 16, lowercase. -/
def digit (n : Nat) : UInt8 := UInt8.ofNat (if n < 10 then 0x30 + n else 0x57 + n)

def upperDigit (n : Nat) : UInt8 := UInt8.ofNat (if n < 10 then 0x30 + n else 0x37 + n)

def high (b : UInt8) : Nat := b.toNat / 16

def low (b : UInt8) : Nat := b.toNat % 16

theorem high_lt (b : UInt8) : high b < 16 := Nat.div_lt_of_lt_mul b.toNat_lt

theorem low_lt (b : UInt8) : low b < 16 := Nat.mod_lt _ (by decide)

/-- Two lowercase digits a byte, the high one first. -/
def encode (b : Bytes) : Bytes := b.flatMap fun b => [digit (high b), digit (low b)]

/-- The value of a digit, in either case. -/
def value? (d : UInt8) : Option Nat :=
  if 0x30 ≤ d && d ≤ 0x39 then some (d.toNat - 0x30)
  else if 0x61 ≤ d && d ≤ 0x66 then some (d.toNat - 0x57)
  else if 0x41 ≤ d && d ≤ 0x46 then some (d.toNat - 0x37)
  else none

def decode? : Bytes → Option Bytes
  | [] => some []
  | [_] => none
  | h :: l :: rest => do
    let high ← value? h
    let low ← value? l
    let others ← decode? rest
    return UInt8.ofNat (high * 16 + low) :: others

end TagFill.Hex
