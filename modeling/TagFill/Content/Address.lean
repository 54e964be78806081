import TagFill.Text.Hex

/-! # Internet addresses

Four bytes are written as decimal numbers with dots. Sixteen bytes are written as eight groups of
hex digits with colons, where `::` stands for the first of the longest runs of zero groups, if it
has two groups at least. Sixteen bytes that hold an address of four are written with dots at the
end.
-/

namespace TagFill.Address

/-- Digits without the leading zeros. The last digit always stays. -/
def significant : List Nat → List Nat
  | [] => []
  | [d] => [d]
  | 0 :: rest => significant rest
  | digits => digits

def decimal (b : UInt8) : Bytes :=
  (significant [b.toNat / 100, b.toNat / 10 % 10, b.toNat % 10]).map Hex.digit

def dotted (b : Bytes) : Bytes := Bytes.joined (Bytes.ofText ".") (b.map decimal)

/-! ## Groups -/

/-- Pairs of bytes as numbers, the high byte first. -/
def groups : Bytes → List Nat
  | high :: low :: rest => (high.toNat * 256 + low.toNat) :: groups rest
  | _ => []

def hexadecimal (group : Nat) : Bytes :=
  (significant [group / 4096, group / 256 % 16, group / 16 % 16, group % 16]).map Hex.digit

def colons (gs : List Nat) : Bytes := Bytes.joined (Bytes.ofText ":") (gs.map hexadecimal)

/-- A run of zero groups. -/
structure Run where
  start : Nat
  length : Nat
  deriving DecidableEq, Repr

def zeros (gs : List Nat) : Nat := (gs.takeWhile (· == 0)).length

/-- The first of the longest runs of zeros. -/
def longestRun : List Nat → Run
  | [] => ⟨0, 0⟩
  | g :: rest =>
    let later := longestRun rest
    if later.length ≤ zeros (g :: rest) then ⟨0, zeros (g :: rest)⟩
    else ⟨later.start + 1, later.length⟩

def compressed (gs : List Nat) : Bytes :=
  let run := longestRun gs
  if run.length < 2 then colons gs
  else colons (gs.take run.start) ++ Bytes.ofText "::" ++ colons (gs.drop (run.start + run.length))

/-- What stands before the four bytes of an address that is held in sixteen. -/
def mappedStart : Bytes := List.replicate 10 0 ++ [0xFF, 0xFF]

def render4 (b : Bytes) : Bytes := dotted b

def render6 (b : Bytes) : Bytes :=
  match mappedStart.isPrefixOf? b with
  | some inner => Bytes.ofText "::ffff:" ++ dotted inner
  | none => compressed (groups b)

end TagFill.Address
