import TagFill.Bytes

/-! # Simple generators

A generator gives the bytes for a length. These three need nothing but the length.
-/

namespace TagFill

abbrev Generator := Nat → Bytes

namespace Generator

/-- The same bytes for every length. -/
def constant (b : Bytes) : Generator := fun _ => b

/-- As many copies as the length says. -/
def copies (b : Bytes) : Generator := fun n => (List.replicate n b).flatten

/-- The length itself in decimal. -/
def decimal : Generator := fun n => Bytes.ofText (toString n)

end Generator

end TagFill
