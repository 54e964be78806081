import TagFill.Settings.Basic

/-! # Valid settings

Settings that are not refused have values that make sense.
-/

namespace TagFill

namespace Settings

/-- No length is zero, the bounds are in order, and no charset is empty. -/
structure Valid (s : Settings) : Prop where
  lengths : ∀ field, s.length? field ≠ some 0
  bounds : ∀ min max, s.minLength = some min → s.maxLength = some max → min ≤ max
  charsets : ∀ entry ∈ s.charsets.entries, entry.2 ≠ ""

theorem zeroLength?_eq_none_iff {s : Settings} :
    s.zeroLength? = none ↔ ∀ field, s.length? field ≠ some 0 := by
  unfold zeroLength?
  rw [Option.map_eq_none_iff, List.find?_eq_none]
  constructor
  · intro h field
    cases field <;> simpa using h _ (by simp)
  · intro h field _
    simpa using h field

theorem invalidBounds?_eq_none_iff {s : Settings} :
    s.invalidBounds? = none ↔
      ∀ min max, s.minLength = some min → s.maxLength = some max → min ≤ max := by
  unfold invalidBounds?
  cases s.minLength <;> cases s.maxLength <;> simp

theorem emptyCharset?_eq_none_iff {s : Settings} :
    s.emptyCharset? = none ↔ ∀ entry ∈ s.charsets.entries, entry.2 ≠ "" := by
  simp [emptyCharset?]

theorem validate_eq_ok_iff {s : Settings} : s.validate = .ok s ↔ s.Valid := by
  have hfault : s.validate = .ok s ↔ s.fault? = none := by
    unfold validate
    cases s.fault? <;> simp
  rw [hfault, fault?]
  simp only [Option.orElse_eq_orElse, Option.orElse_eq_or, Option.or_eq_none_iff,
    zeroLength?_eq_none_iff, invalidBounds?_eq_none_iff, emptyCharset?_eq_none_iff]
  constructor
  · rintro ⟨hlengths, hbounds, hcharsets⟩
    exact ⟨hlengths, hbounds, hcharsets⟩
  · rintro ⟨hlengths, hbounds, hcharsets⟩
    exact ⟨hlengths, hbounds, hcharsets⟩

end Settings

end TagFill
