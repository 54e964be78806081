import TagFill.Proofs.LengthGrammar
import TagFill.Proofs.Overriding

/-! # Bounds in the wrong order

The bounds that settings give are compared only where both are set. A bound that is set alone comes
beside the one that the builder has, and there the two may be in the wrong order. Then no length
can be declared but by a range.
-/

namespace TagFill

namespace LengthSpec

variable {rules : FieldRules}

theorem not_valid_of_lt (h : rules.maxLength < rules.minLength) (field : Bytes) (n : Nat) :
    ¬ Valid rules field n := by
  rintro ⟨-, hmin, hmax⟩
  omega

theorem not_isChoice_of_lt (h : rules.maxLength < rules.minLength) (field : Bytes)
    (ns : List Nat) : ¬ IsChoice rules field ns := by
  rintro ⟨-, -, -, hne, entries, -, hvalues⟩
  apply hne
  rw [← values_iff.mp hvalues, List.filterMap_eq_nil_iff]
  intro entry _
  rw [Option.eq_none_iff_forall_ne_some]
  intro n hn
  exact not_valid_of_lt h entry n (admitted?_eq_some_iff.mp hn)

theorem parse_of_lt (h : rules.maxLength < rules.minLength) (field : Bytes) :
    parse rules field = .absent ∨ ∃ a b, parse rules field = .range a b := by
  cases hparse : parse rules field with
  | absent => exact .inl rfl
  | range a b => exact .inr ⟨a, b, rfl⟩
  | fixed n => exact absurd (parse_eq_fixed_iff.mp hparse) (not_valid_of_lt h field n)
  | choice ns => exact absurd (parse_eq_choice_iff.mp hparse) (not_isChoice_of_lt h field ns)

end LengthSpec

namespace Settings

/-- One bound is set, and it passes the other one of the rules. -/
@[mk_iff crosses_iff]
inductive Crosses (s : Settings) (rules : FieldRules) : Prop
  | least {n : Nat} (hmin : s.minLength = some n) (hmax : s.maxLength = none)
      (h : rules.maxLength < n)
  | greatest {n : Nat} (hmin : s.minLength = none) (hmax : s.maxLength = some n)
      (h : n < rules.minLength)

theorem Valid.le_iff_not_crosses {s : Settings} (h : s.Valid) {c : Config}
    (hc : c.rules.minLength ≤ c.rules.maxLength) :
    (c.applySettings s).rules.minLength ≤ (c.applySettings s).rules.maxLength ↔
      ¬ s.Crosses c.rules := by
  have hboth := h.bounds
  rw [Config.applySettings_of_valid h, crosses_iff]
  cases hmin : s.minLength with
  | none => cases hmax : s.maxLength <;> simp [hc]
  | some a =>
    cases hmax : s.maxLength with
    | none => simp
    | some b => simp [hboth a b hmin hmax]

/-- Settings that are not refused leave the default bounds in order just where they do not set the
least length alone and beyond 99. Where they do, a field declares a range or nothing. -/
theorem bounds_in_order_iff {s : Settings} (h : s.validate = .ok s) :
    let rules := (Config.ofChanges [.settings s]).rules
    (rules.minLength ≤ rules.maxLength ↔
        ∀ n, s.minLength = some n → s.maxLength = none → n ≤ 99) ∧
      (rules.maxLength < rules.minLength → ∀ field,
        LengthSpec.parse rules field = .absent ∨
          ∃ a b, LengthSpec.parse rules field = .range a b) := by
  have hvalid := validate_eq_ok_iff.mp h
  refine ⟨?_, LengthSpec.parse_of_lt⟩
  change (({} : Config).applySettings s).rules.minLength ≤
    (({} : Config).applySettings s).rules.maxLength ↔ _
  rw [hvalid.le_iff_not_crosses (by decide)]
  constructor
  · intro hnot n hmin hmax
    by_contra hlt
    exact hnot (.least hmin hmax (Nat.lt_of_not_le hlt))
  · rintro hle (⟨hmin, hmax, hlt⟩ | ⟨hmin, hmax, hlt⟩)
    · exact Nat.lt_irrefl _ (Nat.lt_of_lt_of_le hlt (hle _ hmin hmax))
    · -- The least length is 1, and no length that is set is zero.
      have hzero := hvalid.lengths .greatest
      simp_all [length?]

/-- The least length may be the default greatest one. -/
theorem bounds_in_order_iff_equal :
    let s : Settings := { minLength := some 99 }
    let rules := (Config.ofChanges [.settings s]).rules
    s.validate = .ok s ∧ rules.minLength = 99 ∧ rules.minLength ≤ rules.maxLength := by
  intro s rules
  have hvalid : s.validate = .ok s := rfl
  refine ⟨hvalid, rfl, (bounds_in_order_iff hvalid).1.mpr ?_⟩
  rintro n ⟨⟩ -
  exact Nat.le_refl 99

/-- The document sets one bound and is not refused, and the lengths that it leaves cannot be
declared, alone or in a choice. -/
theorem bounds_out_of_order :
    let document : SettingsDocument := .json (.object [("min_length", .natural 100)]) true
    (∃ s, load document = .ok s ∧ s.validate = .ok s ∧
      let rules := (Config.ofChanges [.settings s]).rules
      rules.minLength = 100 ∧ rules.maxLength = 99 ∧
        ∀ field ∈ ["50", "99", "98,99"], LengthSpec.parse rules (Bytes.ofText field) = .absent) ∧
      ¬ ∀ s : Settings, s.validate = .ok s →
        (Config.ofChanges [.settings s]).rules.minLength ≤
          (Config.ofChanges [.settings s]).rules.maxLength := by
  intro document
  let s : Settings := { minLength := some 100 }
  have hload : load document = .ok s := rfl
  have hvalid : s.validate = .ok s := rfl
  refine ⟨⟨s, hload, hvalid, rfl, rfl, by decide⟩, ?_⟩
  intro hall
  exact absurd (hall s hvalid) (by decide)

end Settings

end TagFill
