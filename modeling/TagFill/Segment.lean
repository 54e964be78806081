import TagFill.Delimiter

/-! # Segments

A payload is a row of literals and tags. A tag runs from an opening delimiter to the nearest closing
one behind it, both in any accepted spelling, and holds both. What opens and never closes is part of
the last literal.
-/

namespace TagFill

inductive Segment
  | literal (bytes : Bytes)
  | tag (bytes : Bytes)
  deriving DecidableEq, Repr

namespace Segment

def bytes : Segment → Bytes
  | .literal b | .tag b => b

end Segment

/-! ## Finding a delimiter -/

/-- A delimiter in the bytes that it was looked for in. -/
structure Found where
  before : Bytes
  spelling : Bytes
  after : Bytes

/-- The spelling that the bytes start with, and what follows it. -/
def spellingAt? (spellings : List Bytes) (b : Bytes) : Option (Bytes × Bytes) :=
  spellings.findSome? fun s => (s.isPrefixOf? b).map (s, ·)

/-- The first place where one of the spellings starts. -/
def findFirst? (spellings : List Bytes) : Bytes → Option Found
  | [] => none
  | byte :: rest =>
    match spellingAt? spellings (byte :: rest) with
    | some (s, after) => some ⟨[], s, after⟩
    | none => (findFirst? spellings rest).map fun f => { f with before := byte :: f.before }

def Delimiter.find? (accepted : Dialects) (d : Delimiter) (b : Bytes) : Option Found :=
  findFirst? (d.spellings accepted) b

/-- Whether a tag could start anywhere. -/
def opensTag (accepted : Dialects) (b : Bytes) : Bool :=
  (Delimiter.tagOpen.find? accepted b).isSome

/-- The first tag: an opening delimiter and the nearest closing one behind it. -/
def firstTag? (accepted : Dialects) (b : Bytes) : Option Found := do
  let opening ← Delimiter.tagOpen.find? accepted b
  let closing ← Delimiter.tagClose.find? accepted opening.after
  return ⟨opening.before, opening.spelling ++ closing.before ++ closing.spelling, closing.after⟩

theorem spellingAt?_append {spellings : List Bytes} {b s after : Bytes}
    (h : spellingAt? spellings b = some (s, after)) : s ∈ spellings ∧ b = s ++ after := by
  obtain ⟨s', hmem, hfound⟩ := List.exists_of_findSome?_eq_some h
  obtain ⟨rest, hrest, heq⟩ := Option.map_eq_some_iff.1 hfound
  cases heq
  exact ⟨hmem, (Bytes.isPrefixOf?_eq_some_iff.1 hrest)⟩

/-- Finding loses nothing. -/
theorem findFirst?_append {spellings : List Bytes} {b : Bytes} {f : Found}
    (h : findFirst? spellings b = some f) :
    f.spelling ∈ spellings ∧ b = f.before ++ f.spelling ++ f.after := by
  induction b generalizing f with
  | nil => simp [findFirst?] at h
  | cons byte rest ih =>
    unfold findFirst? at h
    split at h
    · rename_i s after hat
      cases h
      exact spellingAt?_append hat
    · obtain ⟨g, hg, rfl⟩ := Option.map_eq_some_iff.1 h
      obtain ⟨hmem, happ⟩ := ih hg
      exact ⟨hmem, by simpa using happ⟩

theorem firstTag?_append {accepted : Dialects} {b : Bytes} {f : Found}
    (h : firstTag? accepted b = some f) :
    f.spelling ≠ [] ∧ b = f.before ++ f.spelling ++ f.after := by
  obtain ⟨opening, hopen, h⟩ := Option.bind_eq_some_iff.1 h
  obtain ⟨closing, hclose, h⟩ := Option.bind_eq_some_iff.1 h
  cases h
  obtain ⟨hmem, rfl⟩ := findFirst?_append hopen
  obtain ⟨-, happ⟩ := findFirst?_append hclose
  refine ⟨by simp [Delimiter.ne_nil_of_mem_spellings hmem], ?_⟩
  simp only [happ]
  simp

/-! ## Scanning -/

/-- A payload on its way to segments. `pending` is a tag that was found behind the literal handed
out last, and `rest` is what follows it. -/
structure Scanner where
  accepted : Dialects
  payload : Bytes
  rest : Bytes
  pending : Option Bytes := none

namespace Scanner

def ofPayload (accepted : Dialects) (payload : Bytes) : Scanner where
  accepted := accepted
  payload := payload
  rest := payload

/-- Whether the whole payload has an opening delimiter, wherever the scanner stands. -/
def opensTag (s : Scanner) : Bool := TagFill.opensTag s.accepted s.payload

def next? (s : Scanner) : Option (Segment × Scanner) :=
  match s.pending with
  | some tag => some (.tag tag, { s with pending := none })
  | none =>
    if s.rest = [] then none
    else match firstTag? s.accepted s.rest with
      | none => some (.literal s.rest, { s with rest := [] })
      | some ⟨[], tag, after⟩ => some (.tag tag, { s with rest := after })
      | some ⟨before, tag, after⟩ =>
        some (.literal before, { s with rest := after, pending := some tag })

/-- What is left to hand out. -/
def remaining (s : Scanner) : Nat := s.rest.length + if s.pending.isSome then 1 else 0

theorem remaining_lt {s t : Scanner} {seg : Segment} (h : s.next? = some (seg, t)) :
    t.remaining < s.remaining := by
  unfold next? at h
  split at h
  · rename_i tag hp
    cases h
    simp [remaining, hp]
  · rename_i hp
    split at h
    · simp at h
    · rename_i hrest
      have hpos := List.length_pos_iff.2 hrest
      split at h
      · cases h
        simp [remaining, hp, hpos]
      · rename_i htag
        have hlen := congrArg List.length (firstTag?_append htag).2
        have := List.length_pos_iff.2 (firstTag?_append htag).1
        cases h
        simp_all [remaining]
      · rename_i before tag after hne htag
        have hlen := congrArg List.length (firstTag?_append htag).2
        have hspell := List.length_pos_iff.2 (firstTag?_append htag).1
        have hbefore : 0 < before.length := List.length_pos_iff.2 (by
          rintro rfl
          exact hne rfl)
        cases h
        simp_all [remaining]
        omega

def segments (s : Scanner) : List Segment :=
  match _h : s.next? with
  | none => []
  | some (seg, t) => seg :: t.segments
termination_by s.remaining
decreasing_by exact remaining_lt ‹_›

end Scanner

def segments (accepted : Dialects) (payload : Bytes) : List Segment :=
  (Scanner.ofPayload accepted payload).segments

end TagFill
