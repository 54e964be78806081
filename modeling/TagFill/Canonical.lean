import TagFill.Delimiter

/-! # Canonical form

Before a tag is read, every encoded delimiter of an accepted dialect is replaced by its raw
spelling. This is one pass from left to right, so what it writes is not read again.
-/

namespace TagFill

/-- Bytes after a pass that may have found nothing to do. -/
inductive Revised
  | untouched (bytes : Bytes)
  | rebuilt (bytes : Bytes)
  deriving DecidableEq, Repr

namespace Revised

def bytes : Revised → Bytes
  | .untouched b | .rebuilt b => b

def isUntouched : Revised → Bool
  | .untouched _ => true
  | .rebuilt _ => false

end Revised

namespace Canonical

/-- The encoded spellings of the accepted dialects. -/
def spellings (accepted : Dialects) : List (Delimiter × Bytes) :=
  accepted.toList.flatMap fun dialect =>
    Delimiter.all.map fun d => (d, Delimiter.encoded dialect d)

/-- The encoded delimiter that the bytes start with, and what follows it. -/
def encodedAt? (accepted : Dialects) (b : Bytes) : Option (Delimiter × Bytes) :=
  (spellings accepted).findSome? fun (d, spelling) => (spelling.isPrefixOf? b).map (d, ·)

theorem mem_spellings {accepted : Dialects} {d : Delimiter} {s : Bytes} :
    (d, s) ∈ spellings accepted ↔
      ∃ dialect, accepted.accepts dialect = true ∧ s = Delimiter.encoded dialect d := by
  simp only [spellings, List.mem_flatMap, Dialects.mem_toList, List.mem_map, Prod.mk.injEq]
  constructor
  · rintro ⟨dialect, hacc, d', -, rfl, rfl⟩
    exact ⟨dialect, hacc, rfl⟩
  · rintro ⟨dialect, hacc, rfl⟩
    exact ⟨dialect, hacc, d, by cases d <;> decide, rfl, rfl⟩

theorem encodedAt?_length {accepted : Dialects} {b rest : Bytes} {d : Delimiter}
    (h : encodedAt? accepted b = some (d, rest)) : rest.length < b.length := by
  obtain ⟨⟨d', spelling⟩, hmem, hfound⟩ := List.exists_of_findSome?_eq_some h
  obtain ⟨after, hafter, heq⟩ := Option.map_eq_some_iff.1 hfound
  cases heq
  obtain ⟨dialect, -, rfl⟩ := mem_spellings.1 hmem
  have := Bytes.length_isPrefixOf? hafter
  have := List.length_pos_iff.2 (Delimiter.encoded_ne_nil dialect d)
  omega

/-- Every encoded delimiter in its raw spelling. -/
def revise (accepted : Dialects) (b : Bytes) : Bytes :=
  match _h : encodedAt? accepted b with
  | some (d, rest) => d.raw ++ revise accepted rest
  | none =>
    match b with
    | [] => []
    | byte :: rest => byte :: revise accepted rest
termination_by b.length
decreasing_by
  · exact encodedAt?_length ‹_›
  · simp

/-- Encoded delimiters start with `%` or `&`, and without a dialect there are none. -/
def mayRevise (accepted : Dialects) (b : Bytes) : Bool :=
  accepted != .rawOnly && b.any fun byte => byte == '%'.toUInt8 || byte == '&'.toUInt8

end Canonical

/-- The canonical form, which is the bytes themselves where nothing can need a change. -/
def canonicalise (accepted : Dialects) (b : Bytes) : Revised :=
  if Canonical.mayRevise accepted b then .rebuilt (Canonical.revise accepted b)
  else .untouched b

def canonical (accepted : Dialects) (b : Bytes) : Bytes := (canonicalise accepted b).bytes

end TagFill
