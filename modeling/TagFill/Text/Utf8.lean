import TagFill.Bytes

/-! # UTF-8

Two ways to read bytes as text: `decode?` refuses what is not UTF-8, and `decodeLossy` puts one
replacement character in place of each longest part that could have begun a character.
-/

namespace TagFill.Utf8

/-- How many bytes a character takes that starts with `lead`, or 0 if none does. -/
def width (lead : UInt8) : Nat :=
  if lead < 0x80 then 1 else if lead < 0xC2 then 0 else if lead < 0xE0 then 2
  else if lead < 0xF0 then 3 else if lead < 0xF5 then 4 else 0

def isContinuation (b : UInt8) : Bool := 0x80 ≤ b && b ≤ 0xBF

/-- The second byte also rules out overlong forms, surrogates and values past `10FFFF`. -/
def secondAllowed (lead b : UInt8) : Bool :=
  if lead = 0xE0 then 0xA0 ≤ b && b ≤ 0xBF
  else if lead = 0xED then 0x80 ≤ b && b ≤ 0x9F
  else if lead = 0xF0 then 0x90 ≤ b && b ≤ 0xBF
  else if lead = 0xF4 then 0x80 ≤ b && b ≤ 0x8F
  else isContinuation b

/-- The bytes of `rest` that belong behind `lead`, at most as many as its character takes. -/
def tail (lead : UInt8) (rest : Bytes) : Bytes :=
  match rest.take (width lead - 1) with
  | [] => []
  | second :: others =>
    if secondAllowed lead second then second :: others.takeWhile isContinuation else []

/-- The payload bits of the lead byte, then six bits of each byte behind it. -/
def scalar (lead : UInt8) (tail : Bytes) : Nat :=
  let bits := match tail.length with
    | 0 => 128
    | 1 => 32
    | 2 => 16
    | _ => 8
  tail.foldl (fun value b => value * 64 + b.toNat % 64) (lead.toNat % bits)

/-- The first character, or `none` for an ill-formed part, and what follows it. -/
def next (lead : UInt8) (rest : Bytes) : Option Char × Bytes :=
  (if width lead = (tail lead rest).length + 1 then some (Char.ofNat (scalar lead (tail lead rest)))
    else none,
  rest.drop (tail lead rest).length)

theorem next_length_le (lead : UInt8) (rest : Bytes) : (next lead rest).2.length ≤ rest.length := by
  simp [next]

def replacement : Char := '\uFFFD'

def decodeLossy : Bytes → List Char
  | [] => []
  | lead :: rest => (next lead rest).1.getD replacement :: decodeLossy (next lead rest).2
termination_by b => b.length
decreasing_by exact Nat.lt_succ_of_le (next_length_le lead rest)

def decode? : Bytes → Option (List Char)
  | [] => some []
  | lead :: rest => do
    let first ← (next lead rest).1
    let others ← decode? (next lead rest).2
    return first :: others
termination_by b => b.length
decreasing_by exact Nat.lt_succ_of_le (next_length_le lead rest)

/-- The bytes are the UTF-8 form of some text. -/
def Valid (b : Bytes) : Prop := ∃ s : String, b = Bytes.ofText s

end TagFill.Utf8
