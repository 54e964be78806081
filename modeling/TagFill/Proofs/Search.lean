import TagFill.Proofs.Spelling

/-! # The first delimiter and the first tag

What a search finds is settled by where delimiters start: it is the first of them, and there is none
in front of it.
-/

namespace TagFill

theorem isPrefixOf?_eq_none_iff {s b : Bytes} : s.isPrefixOf? b = none ↔ ¬ s <+: b := by
  rw [Option.eq_none_iff_forall_ne_some]
  constructor
  · rintro h ⟨rest, hrest⟩
    exact h rest (Bytes.isPrefixOf?_eq_some_iff.mpr hrest.symm)
  · intro h rest hrest
    exact h ⟨rest, (Bytes.isPrefixOf?_eq_some_iff.mp hrest).symm⟩

section

variable {κ : Type} {table : List (κ × Bytes)} {k : κ} {s b rest : Bytes}

theorem findSome?_start_eq_none_iff :
    (table.findSome? fun p => (p.2.isPrefixOf? b).map (p.1, ·)) = none ↔
      ∀ p ∈ table, ¬ p.2 <+: b := by
  simp only [List.findSome?_eq_none_iff, Option.map_eq_none_iff, isPrefixOf?_eq_none_iff]

theorem findSome?_start_append (hfree : ∀ p ∈ table, ∀ q ∈ table, p.2 <+: q.2 → p = q)
    (h : (k, s) ∈ table) :
    (table.findSome? fun p => (p.2.isPrefixOf? (s ++ rest)).map (p.1, ·)) = some (k, rest) := by
  cases hat : table.findSome? fun p => (p.2.isPrefixOf? (s ++ rest)).map (p.1, ·) with
  | none => exact absurd (List.prefix_append s rest) (findSome?_start_eq_none_iff.mp hat _ h)
  | some found =>
    obtain ⟨⟨k', s'⟩, hmem, hfound⟩ := List.exists_of_findSome?_eq_some hat
    obtain ⟨after, hafter, rfl⟩ := Option.map_eq_some_iff.mp hfound
    have happ := Bytes.isPrefixOf?_eq_some_iff.mp hafter
    have hsame : (k, s) = (k', s') := by
      rcases List.prefix_or_prefix_of_prefix (List.prefix_append s rest)
        ⟨after, happ.symm⟩ with hp | hp
      · exact hfree _ h _ hmem hp
      · exact (hfree _ hmem _ h hp).symm
    cases hsame
    rw [List.append_cancel_left happ]

end

/-- What is found in bytes that stand behind others. -/
def Found.behind (a : Bytes) (f : Found) : Found := { f with before := a ++ f.before }

@[simp] theorem Found.behind_mk (a before s after : Bytes) :
    Found.behind a ⟨before, s, after⟩ = ⟨a ++ before, s, after⟩ := rfl

namespace Delimiter

variable {accepted : Dialects} {d : Delimiter} {s a b after : Bytes} {f : Found}

theorem spellingAt?_eq_none_iff :
    spellingAt? (d.spellings accepted) b = none ↔ ¬ d.BeginsAt accepted b 0 := by
  simp only [spellingAt?, List.findSome?_eq_none_iff, Option.map_eq_none_iff,
    isPrefixOf?_eq_none_iff, BeginsAt, List.drop_zero, not_exists, not_and]

theorem spellingAt?_spelling (h : s ∈ d.spellings accepted) :
    spellingAt? (d.spellings accepted) (s ++ after) = some (s, after) := by
  cases hat : spellingAt? (d.spellings accepted) (s ++ after) with
  | none =>
    rw [spellingAt?_eq_none_iff] at hat
    exact absurd ⟨s, h, List.prefix_append s after⟩ hat
  | some found =>
    obtain ⟨s', after'⟩ := found
    obtain ⟨hs', happ⟩ := spellingAt?_append hat
    have hpre : s' <+: s ++ after := ⟨after', happ.symm⟩
    obtain ⟨-, rfl⟩ := eq_of_start h hs' (List.prefix_append s after) hpre
    rw [List.append_cancel_left happ]

@[simp] theorem find?_nil : d.find? accepted [] = none := rfl

theorem find?_cons_of_not_beginsAt {x : UInt8} (h : ¬ d.BeginsAt accepted (x :: b) 0) :
    d.find? accepted (x :: b) = (d.find? accepted b).map (Found.behind [x]) := by
  have hat := spellingAt?_eq_none_iff.mpr h
  unfold find?
  rw [findFirst?, hat]
  rfl

theorem find?_append_of_not_beginsAt (h : ∀ i < a.length, ¬ d.BeginsAt accepted (a ++ b) i) :
    d.find? accepted (a ++ b) = (d.find? accepted b).map (Found.behind a) := by
  induction a with
  | nil =>
    rw [List.nil_append]
    cases d.find? accepted b <;> rfl
  | cons x a ih =>
    have hx : ¬ d.BeginsAt accepted (x :: (a ++ b)) 0 := h 0 (by simp)
    have ha : ∀ i < a.length, ¬ d.BeginsAt accepted (a ++ b) i := by
      intro i hi
      exact h (i + 1) (by simpa using hi)
    rw [List.cons_append, find?_cons_of_not_beginsAt hx, ih ha, Option.map_map]
    rfl

theorem find?_append_of_head (h : ∀ s ∈ d.spellings accepted, ∀ x ∈ s.head?, x ∉ a) :
    d.find? accepted (a ++ b) = (d.find? accepted b).map (Found.behind a) :=
  find?_append_of_not_beginsAt fun _ hi => not_beginsAt_of_head h hi

theorem find?_spelling_append (h : s ∈ d.spellings accepted) :
    d.find? accepted (s ++ after) = some ⟨[], s, after⟩ := by
  obtain ⟨x, t, rfl⟩ := List.exists_cons_of_ne_nil (ne_nil_of_mem_spellings h)
  unfold find?
  rw [List.cons_append, findFirst?, ← List.cons_append, spellingAt?_spelling h]

theorem find?_eq_none_iff : d.find? accepted b = none ↔ ∀ i, ¬ d.BeginsAt accepted b i := by
  constructor
  · intro h i hi
    induction b generalizing i with
    | nil => exact absurd hi.lt_length (by simp)
    | cons x b ih =>
      by_cases hx : d.BeginsAt accepted (x :: b) 0
      · obtain ⟨s, hs, after, hafter⟩ := hx
        rw [List.drop_zero] at hafter
        rw [← hafter, find?_spelling_append hs] at h
        contradiction
      · rw [find?_cons_of_not_beginsAt hx, Option.map_eq_none_iff] at h
        cases i with
        | zero => exact hx hi
        | succ i => exact ih h i hi
  · intro h
    have hpass : d.find? accepted (b ++ []) = (d.find? accepted []).map (Found.behind b) := by
      apply find?_append_of_not_beginsAt
      intro i _
      rw [List.append_nil]
      exact h i
    rw [List.append_nil] at hpass
    exact hpass

theorem find?_eq_none_iff_append (hb : LeadFirst b) :
    d.find? accepted a = none ↔ ∀ i < a.length, ¬ d.BeginsAt accepted (a ++ b) i := by
  rw [find?_eq_none_iff]
  constructor
  · intro h i hi
    rw [beginsAt_append_left hi hb]
    exact h i
  · intro h i hbegins
    have hi := hbegins.lt_length
    exact h i hi ((beginsAt_append_left hi hb).mpr hbegins)

theorem find?_before (h : d.find? accepted b = some f) : d.find? accepted f.before = none := by
  induction b generalizing f with
  | nil => simp at h
  | cons x b ih =>
    by_cases hx : d.BeginsAt accepted (x :: b) 0
    · obtain ⟨s, hs, after, hafter⟩ := hx
      rw [List.drop_zero] at hafter
      rw [← hafter, find?_spelling_append hs, Option.some.injEq] at h
      rw [← h]
      rfl
    · have happ := (findFirst?_append h).2
      rw [find?_cons_of_not_beginsAt hx, Option.map_eq_some_iff] at h
      obtain ⟨g, hg, rfl⟩ := h
      have hfront : ¬ d.BeginsAt accepted (x :: g.before) 0 := by
        intro hb
        apply hx
        rw [happ, List.append_assoc]
        exact hb.append
      change d.find? accepted (x :: g.before) = none
      rw [find?_cons_of_not_beginsAt hfront, ih hg]
      rfl

/-- A search finds the first delimiter, cut off where it starts and where it ends. -/
theorem find?_eq_some_iff (hd : d ≠ .separator) :
    d.find? accepted b = some f ↔
      f.spelling ∈ d.spellings accepted ∧ b = f.before ++ f.spelling ++ f.after ∧
        d.find? accepted f.before = none := by
  constructor
  · intro h
    obtain ⟨hmem, happ⟩ := findFirst?_append h
    exact ⟨hmem, happ, find?_before h⟩
  · obtain ⟨before, s, after⟩ := f
    rintro ⟨hmem, rfl, hbefore⟩
    rw [find?_eq_none_iff_append (leadFirst_append hd hmem)] at hbefore
    rw [List.append_assoc, find?_append_of_not_beginsAt hbefore, find?_spelling_append hmem]
    simp

end Delimiter

theorem opensTag_eq_false_iff {accepted : Dialects} {b : Bytes} :
    opensTag accepted b = false ↔ Delimiter.tagOpen.find? accepted b = none := by
  rw [opensTag, Option.isSome_eq_false_iff, Option.isNone_iff_eq_none]

/-! ## Tags -/

/-- An accepted opening delimiter, bytes in which no accepted closing delimiter starts, and an
accepted closing delimiter. -/
def IsTag (accepted : Dialects) (tag : Bytes) : Prop :=
  ∃ o ∈ Delimiter.tagOpen.spellings accepted, ∃ interior,
    ∃ c ∈ Delimiter.tagClose.spellings accepted,
      tag = o ++ interior ++ c ∧ Delimiter.tagClose.find? accepted interior = none

section

variable {accepted : Dialects} {tag a b : Bytes} {f : Found}

theorem IsTag.leadFirst (h : IsTag accepted tag) : LeadFirst (tag ++ b) := by
  obtain ⟨o, ho, interior, c, -, rfl, -⟩ := h
  rw [List.append_assoc, List.append_assoc]
  exact Delimiter.leadFirst_append (by decide) ho

theorem IsTag.ne_nil (h : IsTag accepted tag) : tag ≠ [] := by
  obtain ⟨o, ho, interior, c, -, rfl, -⟩ := h
  simp [Delimiter.ne_nil_of_mem_spellings ho]

theorem firstTag?_eq_some_iff :
    firstTag? accepted b = some f ↔
      b = f.before ++ f.spelling ++ f.after ∧
        Delimiter.tagOpen.find? accepted f.before = none ∧ IsTag accepted f.spelling := by
  unfold firstTag?
  rw [Option.bind_eq_bind, Option.bind_eq_some_iff]
  constructor
  · rintro ⟨opening, hopen, h⟩
    obtain ⟨closing, hclose, h⟩ := Option.bind_eq_some_iff.mp h
    cases h
    rw [Delimiter.find?_eq_some_iff (by decide)] at hopen hclose
    obtain ⟨ho, happ, hbefore⟩ := hopen
    obtain ⟨hc, happ', hinterior⟩ := hclose
    refine ⟨?_, hbefore, opening.spelling, ho, closing.before, closing.spelling, hc, rfl, hinterior⟩
    rw [happ, happ']
    simp
  · obtain ⟨before, tag, after⟩ := f
    rintro ⟨happ, hbefore, o, ho, interior, c, hc, rfl, hinterior⟩
    -- Both searches stop where the tag says, as nothing opens or closes before.
    have hopen : Delimiter.tagOpen.find? accepted b = some ⟨before, o, interior ++ c ++ after⟩ := by
      rw [Delimiter.find?_eq_some_iff (by decide)]
      exact ⟨ho, by simpa using happ, hbefore⟩
    have hclose : Delimiter.tagClose.find? accepted (interior ++ c ++ after) =
        some ⟨interior, c, after⟩ := by
      rw [Delimiter.find?_eq_some_iff (by decide)]
      exact ⟨hc, rfl, hinterior⟩
    exact ⟨_, hopen, Option.bind_eq_some_iff.mpr ⟨_, hclose, rfl⟩⟩

theorem firstTag?_eq_none_iff :
    firstTag? accepted b = none ↔
      ∀ f, Delimiter.tagOpen.find? accepted b = some f →
        Delimiter.tagClose.find? accepted f.after = none := by
  unfold firstTag?
  cases Delimiter.tagOpen.find? accepted b with
  | none => simp
  | some opening =>
    simp only [Option.bind_eq_bind, Option.bind_some, Option.some.injEq, forall_eq']
    cases Delimiter.tagClose.find? accepted opening.after <;> simp

theorem firstTag?_of_not_opensTag (h : opensTag accepted b = false) :
    firstTag? accepted b = none := by
  rw [opensTag_eq_false_iff] at h
  rw [firstTag?_eq_none_iff, h]
  intro f hf
  contradiction

theorem firstTag?_append_of_not_beginsAt
    (h : ∀ i < a.length, ¬ Delimiter.tagOpen.BeginsAt accepted (a ++ b) i) :
    firstTag? accepted (a ++ b) = (firstTag? accepted b).map (Found.behind a) := by
  unfold firstTag?
  rw [Delimiter.find?_append_of_not_beginsAt h]
  cases Delimiter.tagOpen.find? accepted b with
  | none => rfl
  | some opening =>
    simp only [Option.map_some, Option.bind_eq_bind, Option.bind_some, Found.behind]
    cases Delimiter.tagClose.find? accepted opening.after <;> rfl

end

end TagFill
