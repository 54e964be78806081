import TagFill.Proofs.Respelling

/-! # What a pass leaves as it is

Whether a tag can be read is decided on its canonical form, but it can be told from the tag as it is
written. A payload in which no tag can be read comes out of a pass as it went in, and nothing is
drawn for it.
-/

namespace TagFill

/-- Between its delimiters, and behind the long name where there is one, the tag has bytes that no
accepted separator starts. -/
def Unreadable (accepted : Dialects) (tag : Bytes) : Prop :=
  ∃ o ∈ Delimiter.tagOpen.spellings accepted, ∃ interior,
    ∃ c ∈ Delimiter.tagClose.spellings accepted,
      tag = o ++ interior ++ c ∧ TagBody.withoutLongName interior ≠ [] ∧
        ¬ Delimiter.separator.BeginsAt accepted (TagBody.withoutLongName interior) 0

/-- What could be read as a tag by itself is not read inside. -/
example : Unreadable .both (Bytes.ofText "%7BRANDOMx\x7bRAND;4\x7d") :=
  ⟨Bytes.ofText "%7BRAND", by decide, Bytes.ofText "OMx\x7bRAND;4", Bytes.ofText "\x7d", by decide,
    rfl, by decide, by decide⟩

section

variable {accepted : Dialects} {payload tag b : Bytes}

/-! ## Bodies -/

theorem withoutLongName_eq_self (h : ¬ TagBody.longName <+: b) :
    TagBody.withoutLongName b = b := by
  rw [TagBody.withoutLongName, isPrefixOf?_eq_none_iff.mpr h, Option.getD_none]

theorem withoutLongName_revise (accepted : Dialects) (b : Bytes) :
    TagBody.withoutLongName (Canonical.revise accepted b) =
      Canonical.revise accepted (TagBody.withoutLongName b) := by
  by_cases hlong : TagBody.longName <+: b
  · obtain ⟨rest, rfl⟩ := hlong
    have hescape : ∀ x ∈ TagBody.longName, Canonical.isEscape x = false :=
      fun x hx => (longName_plain true x hx).2
    rw [Canonical.revise_append_of_not_isEscape hescape, withoutLongName_longName,
      withoutLongName_longName]
  · have hhead : ∀ x ∈ TagBody.longName, ∀ d : Delimiter, d.raw.head? ≠ some x := by
      intro x hx d
      have hall : TagBody.longName.all (fun x => d.raw.head? != some x) = true := by
        cases d <;> decide
      simpa using List.all_eq_true.mp hall x hx
    have hrevise : ¬ TagBody.longName <+: Canonical.revise accepted b :=
      mt (Canonical.prefix_of_prefix_revise hhead) hlong
    rw [withoutLongName_eq_self hlong, withoutLongName_eq_self hrevise]

theorem parse_eq_malformed_iff {rules : FieldRules} :
    TagBody.parse rules b = .malformed ↔
      TagBody.withoutLongName b ≠ [] ∧
        ¬ Delimiter.raw .separator <+: TagBody.withoutLongName b := by
  have hraw : Delimiter.raw .separator = [TagBody.separator] := rfl
  unfold TagBody.parse
  rw [hraw]
  cases TagBody.withoutLongName b with
  | nil => simp
  | cons first rest =>
    by_cases hfirst : first = TagBody.separator
    · simp [hfirst, parseFields_ne_malformed]
    · simp [hfirst, Ne.symm hfirst]

/-! ## Tags -/

theorem tag_not_mem_literals : .tag tag ∉ Segment.literals b := by
  unfold Segment.literals
  split <;> simp

theorem segments_isTag (h : .tag tag ∈ segments accepted payload) : IsTag accepted tag := by
  induction payload using firstTag?_induction accepted with
  | whole b hb =>
    rw [segments_of_firstTag?_none hb] at h
    exact absurd h tag_not_mem_literals
  | step f hbefore htag ih =>
    rw [segments_of_firstTag?_some (firstTag?_eq_some_iff.mpr ⟨rfl, hbefore, htag⟩)] at h
    rcases List.mem_append.mp h with h | h
    · exact absurd h tag_not_mem_literals
    · rcases List.mem_cons.mp h with heq | h
      · cases heq
        exact htag
      · exact ih h

theorem no_tag_iff :
    (∀ tag, .tag tag ∉ segments accepted payload) ↔ firstTag? accepted payload = none := by
  constructor
  · intro h
    cases hfirst : firstTag? accepted payload with
    | none => rfl
    | some f =>
      have hmem : .tag f.spelling ∈ segments accepted payload := by
        rw [segments_of_firstTag?_some hfirst]
        simp
      exact absurd hmem (h f.spelling)
  · intro h tag
    rw [segments_of_firstTag?_none h]
    exact tag_not_mem_literals

end

namespace Config

variable {c : Config} {payload tag : Bytes} {segs : List Segment}

theorem tagBody_eq_malformed_iff (h : IsTag c.accepted tag) :
    c.tagBody tag = .malformed ↔ Unreadable c.accepted tag := by
  have hparse (interior : Bytes) :
      TagBody.parse c.rules (Canonical.revise c.accepted interior) = .malformed ↔
        TagBody.withoutLongName interior ≠ [] ∧
          ¬ Delimiter.separator.BeginsAt c.accepted (TagBody.withoutLongName interior) 0 := by
    rw [parse_eq_malformed_iff, withoutLongName_revise, Canonical.prefix_revise_iff, ne_eq,
      Canonical.revise_eq_nil_iff]
  constructor
  · intro hbody
    obtain ⟨o, ho, interior, cl, hcl, rfl, -⟩ := h
    rw [tagBody_eq_parse ho hcl, hparse] at hbody
    exact ⟨o, ho, interior, cl, hcl, rfl, hbody⟩
  · rintro ⟨o, ho, interior, cl, hcl, rfl, hbody⟩
    rw [tagBody_eq_parse ho hcl, hparse]
    exact hbody

theorem fill_copied (h : ∀ tag, .tag tag ∈ segs → c.tagBody tag = .malformed) :
    c.fill segs = .done (Segment.joined segs) := by
  induction segs with
  | nil => rfl
  | cons seg segs ih =>
    have hrest := ih fun tag hmem => h tag (List.mem_cons_of_mem seg hmem)
    have hseg : c.fillSegment seg = .done seg.bytes := by
      cases seg with
      | literal b => rfl
      | tag tag => exact fillTag_malformed (h tag List.mem_cons_self)
    rw [fill_cons, hseg, hrest]
    rfl

end Config

end TagFill
