import TagFill.Bytes

/-! # Streams of random bytes

A stream is an endless run of bytes and the position reached in it. What it hands out is cut to
whole steps: a stream of words drops the unused bytes of the last word taken.
-/

namespace TagFill

structure Stream where
  byte : Nat → UInt8
  /-- Positions are multiples of this: 1 for a stream of bytes, 4 for a stream of words. -/
  stride : Nat
  position : Nat := 0

namespace Stream

/-- The least multiple of `stride` that is not below `n`. -/
def roundUp (stride n : Nat) : Nat := (n + stride - 1) / stride * stride

/-- The next `n` bytes. -/
def bytes (n : Nat) : StateM Stream Bytes := fun s =>
  ((List.range n).map fun i => s.byte (s.position + i),
    { s with position := roundUp s.stride (s.position + n) })

def littleEndian : Bytes → Nat
  | [] => 0
  | b :: rest => b.toNat + 256 * littleEndian rest

/-- How many bits are drawn at a time. -/
inductive Width
  | word
  | long
  deriving DecidableEq, Repr

namespace Width

def bytes : Width → Nat
  | .word => 4
  | .long => 8

/-- The number of values that fit. -/
def modulus : Width → Nat
  | .word => UInt32.size
  | .long => UInt64.size

end Width

/-- The next number of the given width, its low byte first. -/
def number (w : Width) : StateM Stream Nat := do
  let drawn ← bytes w.bytes
  return littleEndian drawn

/-- `n` results of one reading after the other. -/
def repeated {α : Type} (read : StateM Stream α) : Nat → StateM Stream (List α)
  | 0 => pure []
  | n + 1 => do
    let first ← read
    let others ← repeated read n
    return first :: others

/-! ## Uniform numbers -/

/-- Bounds that fit in 32 bits are drawn from 32 bits. -/
def Width.ofBound (bound : Nat) : Width := if bound < UInt32.size then .word else .long

/-- A number in `low ..= high`. The drawn number scales the size of the range, and what the scaling
cuts off may bring a carry from a second number. A range of every value of the width takes the
number as it is. -/
def uniform (w : Width) (low high : Nat) : StateM Stream Nat := do
  let size := (high - low + 1) % w.modulus
  let x ← number w
  if size = 0 then return x
  let scaled := x * size / w.modulus
  let cutOff := x * size % w.modulus
  if cutOff ≤ w.modulus - size then return low + scaled
  let y ← number w
  return low + scaled + (cutOff + y * size / w.modulus) / w.modulus

def between (low high : Nat) : StateM Stream Nat := uniform (.ofBound high) low high

/-- A number below `n`. The width goes by the bound, although it is never reached. -/
def below (n : Nat) : StateM Stream Nat := uniform (.ofBound n) 0 (n - 1)

/-- `n` bytes of `charset`, each at an index of its own. -/
def text (n : Nat) (charset : Bytes) : StateM Stream Bytes :=
  repeated (do return charset.getD (← below charset.length) 0) n

end Stream

end TagFill
