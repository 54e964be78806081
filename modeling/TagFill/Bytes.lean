/-! # Bytes

Payloads, tags and everything written for them are lists of bytes.
-/

namespace TagFill

abbrev Bytes := List UInt8

namespace Bytes

/-- The UTF-8 form of a text. -/
def ofText (s : String) : Bytes := s.toList.flatMap String.utf8EncodeChar

/-- `count` consecutive byte values from `first` on. -/
def span (first : Char) (count : Nat) : Bytes :=
  (List.range count).map fun i => UInt8.ofNat (first.toNat + i)

def isDigit (b : UInt8) : Bool := 0x30 ≤ b && b ≤ 0x39

def isLetter (b : UInt8) : Bool := (0x41 ≤ b && b ≤ 0x5A) || (0x61 ≤ b && b ≤ 0x7A)

/-! ## Leading bytes -/

theorem isPrefixOf?_eq_some_iff {l r rest : Bytes} :
    l.isPrefixOf? r = some rest ↔ r = l ++ rest := by
  induction l generalizing r with
  | nil =>
    change some r = some rest ↔ r = rest
    rw [Option.some.injEq]
  | cons a l ih =>
    cases r with
    | nil =>
      change none = some rest ↔ [] = a :: l ++ rest
      simp
    | cons b r =>
      change (if a == b then l.isPrefixOf? r else none) = some rest ↔ b :: r = a :: l ++ rest
      by_cases hab : a = b
      · simp [hab, ih]
      · simp [hab, Ne.symm hab]

theorem length_isPrefixOf? {l r rest : Bytes} (h : l.isPrefixOf? r = some rest) :
    r.length = l.length + rest.length := by
  simp [isPrefixOf?_eq_some_iff.1 h]

/-! ## Cutting at a separator -/

/-- What stands before and after the first `sep`, if there is one. -/
def cut (sep : UInt8) (b : Bytes) : Option (Bytes × Bytes) :=
  match b.dropWhile (· != sep) with
  | [] => none
  | _ :: after => some (b.takeWhile (· != sep), after)

/-- The pieces between the separators. There is always one more piece than separators. -/
def entries (sep : UInt8) : Bytes → List Bytes
  | [] => [[]]
  | b :: rest =>
    if b = sep then [] :: entries sep rest
    else match entries sep rest with
      | first :: others => (b :: first) :: others
      | [] => [[b]]

/-- The pieces with `sep` between neighbours. -/
def joined (sep : Bytes) : List Bytes → Bytes
  | [] => []
  | [piece] => piece
  | piece :: others => piece ++ sep ++ joined sep others

theorem entries_ne_nil (sep : UInt8) (b : Bytes) : entries sep b ≠ [] := by
  cases b with
  | nil => simp [entries]
  | cons b rest =>
    unfold entries
    split
    · simp
    · split <;> simp

end Bytes

end TagFill
