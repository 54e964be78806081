import TagFill.Text.Hex

/-! # UUIDs

A version 4 UUID is sixteen random bytes with the version and the variant written over six of their
bits. Its text has five groups of hex digits.
-/

namespace TagFill.Uuid

def versioned (b : UInt8) : UInt8 := (b &&& 0x0F) ||| 0x40

def varied (b : UInt8) : UInt8 := (b &&& 0x3F) ||| 0x80

/-- Byte 6 starts with the version and byte 8 with the variant. -/
def marked (b : Bytes) : Bytes := (b.modify 6 versioned).modify 8 varied

/-- The bytes in groups of 4, 2, 2, 2 and 6. -/
def groups (b : Bytes) : List Bytes :=
  [b.take 4, (b.drop 4).take 2, (b.drop 6).take 2, (b.drop 8).take 2, b.drop 10]

def hyphenated (b : Bytes) : Bytes := Bytes.joined (Bytes.ofText "-") ((groups b).map Hex.encode)

def render (drawn : Bytes) : Bytes := hyphenated (marked drawn)

end TagFill.Uuid
