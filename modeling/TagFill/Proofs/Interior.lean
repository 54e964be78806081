import TagFill.Proofs.Passthrough

/-! # The interior of a tag

A tag that was found in a payload has one interior, and what is read of the tag is the canonical
form of that. No closing delimiter is left in it, and none comes about.
-/

namespace TagFill

variable {accepted : Dialects} {payload tag a b m : Bytes}

namespace Delimiter

variable {s s' : Bytes}

theorem table_end : ∀ p ∈ table, ∀ q ∈ table, p.1 = .tagClose → q.1 = .tagClose →
    p.2 <:+ q.2 → p = q := by decide

theorem eq_of_end (h : s ∈ tagClose.spellings accepted) (h' : s' ∈ tagClose.spellings accepted)
    (hb : s <:+ b) (hb' : s' <:+ b) : s = s' := by
  rcases List.suffix_or_suffix_of_suffix hb hb' with hs | hs
  · have := table_end _ (mem_table h) _ (mem_table h') rfl rfl hs
    simpa using this
  · have := table_end _ (mem_table h') _ (mem_table h) rfl rfl hs
    simpa [eq_comm] using this

theorem find?_tagClose_rawOnly_eq_none_iff :
    tagClose.find? .rawOnly b = none ↔ '}'.toUInt8 ∉ b := by
  have hraw : raw .tagClose = ['}'.toUInt8] := rfl
  rw [find?_eq_none_iff]
  constructor
  · intro h hmem
    obtain ⟨front, back, rfl⟩ := List.append_of_mem hmem
    apply h front.length
    refine ⟨_, raw_mem_spellings, ?_⟩
    rw [hraw, List.drop_left]
    exact ⟨back, rfl⟩
  · rintro h i ⟨s, hs, hpre⟩
    rw [Canonical.spellings_rawOnly, List.mem_singleton, hraw] at hs
    apply h
    apply List.mem_of_mem_drop (i := i)
    exact hpre.subset (by rw [hs]; exact List.mem_singleton_self _)

end Delimiter

/-- `m` stands between an accepted opening and an accepted closing delimiter. -/
def HasInterior (accepted : Dialects) (tag m : Bytes) : Prop :=
  ∃ o ∈ Delimiter.tagOpen.spellings accepted, ∃ c ∈ Delimiter.tagClose.spellings accepted,
    tag = o ++ m ++ c

theorem HasInterior.unique {m' : Bytes} (h : HasInterior accepted tag m)
    (h' : HasInterior accepted tag m') : m = m' := by
  obtain ⟨o, ho, c, hc, htag⟩ := h
  obtain ⟨o', ho', c', hc', htag'⟩ := h'
  have hopen : o = o' := by
    have hpre : o <+: tag := ⟨m ++ c, by rw [htag, List.append_assoc]⟩
    have hpre' : o' <+: tag := ⟨m' ++ c', by rw [htag', List.append_assoc]⟩
    exact (Delimiter.eq_of_start ho ho' hpre hpre').2
  have hclose : c = c' := Delimiter.eq_of_end hc hc' ⟨o ++ m, htag.symm⟩ ⟨o' ++ m', htag'.symm⟩
  rw [htag, hopen, hclose] at htag'
  exact List.append_cancel_left (List.append_cancel_right htag')

theorem IsTag.exists_interior (h : IsTag accepted tag) :
    ∃ m, HasInterior accepted tag m ∧ '}'.toUInt8 ∉ canonical accepted m := by
  obtain ⟨o, ho, m, c, hc, htag, hfree⟩ := h
  refine ⟨m, ⟨o, ho, c, hc, htag⟩, ?_⟩
  rw [canonical_eq_revise, ← Delimiter.find?_tagClose_rawOnly_eq_none_iff]
  exact Canonical.find?_revise_eq_none hfree

theorem HasInterior.canonical_eq (h : HasInterior accepted tag m) :
    canonical accepted tag =
      Delimiter.raw .tagOpen ++ canonical accepted m ++ Delimiter.raw .tagClose := by
  obtain ⟨o, ho, c, hc, rfl⟩ := h
  rw [canonical_eq_revise, canonical_eq_revise, Canonical.revise_tag ho hc]

namespace Config

/-- A tag that was found has one interior, and in canonical form it is the canonical form of that
between raw delimiters, without another closing one. So both delimiters come off, always, and what
is left of the interior is what is read. -/
theorem tag_interior (c : Config) (h : .tag tag ∈ segments c.accepted payload) :
    ∃ m, (∀ m', HasInterior c.accepted tag m' ↔ m' = m) ∧
      canonical c.accepted tag =
        Delimiter.raw .tagOpen ++ canonical c.accepted m ++ Delimiter.raw .tagClose ∧
      '}'.toUInt8 ∉ canonical c.accepted m ∧
      interior? (canonical c.accepted tag) = some (canonical c.accepted m) ∧
      c.tagBody tag = .parse c.rules (canonical c.accepted m) := by
  obtain ⟨m, hm, hfree⟩ := (segments_isTag h).exists_interior
  have hinterior : interior? (canonical c.accepted tag) = some (canonical c.accepted m) := by
    rw [hm.canonical_eq, interior?_append]
  refine ⟨m, ?_, hm.canonical_eq, hfree, hinterior, ?_⟩
  · intro m'
    constructor
    · intro hm'
      exact hm'.unique hm
    · rintro rfl
      exact hm
  · rw [tagBody, hinterior]

/-- Behind the raw separator stand two encoded ones, and what they are written as would complete an
encoded closing delimiter, one in front and one behind. -/
theorem tag_interior_almost_closed :
    let tag := Bytes.ofText "%7BRAND;&rbrace%3B%%3B7D&rbrace;"
    .tag tag ∈ segments .both (Bytes.ofText "\x7dx" ++ tag ++ Bytes.ofText "\x7d") ∧
      HasInterior .both tag (Bytes.ofText ";&rbrace%3B%%3B7D") ∧
      canonical .both tag = Bytes.ofText "\x7bRAND;&rbrace;%;7D\x7d" ∧
      interior? (canonical .both tag) = some (Bytes.ofText ";&rbrace;%;7D") ∧
      ({} : Config).tagBody tag = .parse {} (Bytes.ofText ";&rbrace;%;7D") := by
  intro tag
  have hfirst : firstTag? .both (Bytes.ofText "\x7dx" ++ tag ++ Bytes.ofText "\x7d") =
      some ⟨Bytes.ofText "\x7dx", tag, Bytes.ofText "\x7d"⟩ := rfl
  have hmem : .tag tag ∈ segments .both (Bytes.ofText "\x7dx" ++ tag ++ Bytes.ofText "\x7d") := by
    rw [segments_of_firstTag?_some hfirst]
    simp
  have hinterior : HasInterior .both tag (Bytes.ofText ";&rbrace%3B%%3B7D") :=
    ⟨Bytes.ofText "%7BRAND", by decide, Bytes.ofText "&rbrace;", by decide, rfl⟩
  have hcanonical : canonical .both (Bytes.ofText ";&rbrace%3B%%3B7D") =
      Bytes.ofText ";&rbrace;%;7D" := by decide +kernel
  obtain ⟨m, hm, htag, -, hread, hbody⟩ := tag_interior {} hmem
  obtain rfl := (hm _).mp hinterior
  rw [hcanonical] at htag hread hbody
  exact ⟨hmem, hinterior, htag, hread, hbody⟩

end Config

end TagFill
