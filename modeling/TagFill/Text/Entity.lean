import TagFill.Bytes

/-! # Character entities

The five bytes that mean something in markup are written as entities, and every other byte stands
for itself.
-/

namespace TagFill.Entity

def entities : List (UInt8 × Bytes) :=
  [('&'.toUInt8, Bytes.ofText "&amp;"), ('<'.toUInt8, Bytes.ofText "&lt;"),
    ('>'.toUInt8, Bytes.ofText "&gt;"), ('"'.toUInt8, Bytes.ofText "&quot;"),
    ('\''.toUInt8, Bytes.ofText "&#39;")]

def encodeByte (b : UInt8) : Bytes := (entities.lookup b).getD [b]

def encode (b : Bytes) : Bytes := b.flatMap encodeByte

/-- The byte whose entity the text starts with, and what follows the entity. -/
def entityAt? (b : Bytes) : Option (UInt8 × Bytes) :=
  entities.findSome? fun (byte, entity) => (entity.isPrefixOf? b).map (byte, ·)

theorem entityAt?_length {b rest : Bytes} {byte : UInt8} (h : entityAt? b = some (byte, rest)) :
    rest.length < b.length := by
  obtain ⟨⟨k, entity⟩, hk, hfound⟩ := List.exists_of_findSome?_eq_some h
  obtain ⟨after, hafter, heq⟩ := Option.map_eq_some_iff.1 hfound
  have hlen := Bytes.length_isPrefixOf? hafter
  have hpos : 0 < entity.length := by
    simp only [entities, List.mem_cons, List.not_mem_nil, or_false] at hk
    rcases hk with hk | hk | hk | hk | hk <;> (cases hk; decide)
  cases heq
  omega

/-- Entities are replaced from left to right. Any other `&` stays as it is. -/
def decode (b : Bytes) : Bytes :=
  match _h : entityAt? b with
  | some (byte, rest) => byte :: decode rest
  | none =>
    match b with
    | [] => []
    | byte :: rest => byte :: decode rest
termination_by b.length
decreasing_by
  · exact entityAt?_length ‹_›
  · simp

end TagFill.Entity
