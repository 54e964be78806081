import TagFill.Config.Change

/-! # The last registration wins

Changes register switches, charsets and generators under names. What a configuration has for a name
is what the last change that names it registered.
-/

namespace TagFill

variable {α : Type}

/-- The last value under a name, in any ASCII case. -/
def lastFor (name : String) (regs : List (String × α)) : Option α :=
  ((regs.filter fun reg => Name.upper reg.1 = Name.upper name).getLast?).map (·.2)

theorem lastFor_nil (name : String) : lastFor name ([] : List (String × α)) = none := rfl

theorem lastFor_append (name : String) (regs later : List (String × α)) :
    lastFor name (regs ++ later) = (lastFor name later).or (lastFor name regs) := by
  unfold lastFor
  rw [List.filter_append, List.getLast?_append]
  cases (later.filter fun reg => Name.upper reg.1 = Name.upper name).getLast? <;> simp

theorem lastFor_cons (name other : String) (value : α) (later : List (String × α)) :
    lastFor name ((other, value) :: later) =
      (lastFor name later).or
        (if Name.upper other = Name.upper name then some value else none) := by
  have happend := lastFor_append name [(other, value)] later
  rw [List.singleton_append] at happend
  rw [happend]
  by_cases h : Name.upper other = Name.upper name <;> simp [lastFor, h]

theorem lastFor_eq_none_iff {name : String} {regs : List (String × α)} :
    lastFor name regs = none ↔ ∀ reg ∈ regs, Name.upper reg.1 ≠ Name.upper name := by
  simp [lastFor]

theorem exists_mem_of_lastFor {name : String} {regs : List (String × α)} {value : α}
    (h : lastFor name regs = some value) :
    ∃ reg ∈ regs, Name.upper reg.1 = Name.upper name ∧ reg.2 = value := by
  obtain ⟨reg, hlast, hvalue⟩ := Option.map_eq_some_iff.mp h
  obtain ⟨hmem, hname⟩ := List.mem_filter.mp (List.mem_of_getLast? hlast)
  exact ⟨reg, hmem, by simpa using hname, hvalue⟩

namespace Registry

def insertAll (r : Registry α) (regs : List (String × α)) : Registry α :=
  regs.foldl (fun r reg => r.insert (Name.upper reg.1) reg.2) r

theorem insertAll_append (r : Registry α) (regs later : List (String × α)) :
    r.insertAll (regs ++ later) = (r.insertAll regs).insertAll later := List.foldl_append

theorem find?_insertAll (r : Registry α) (regs : List (String × α)) (name : String) :
    (r.insertAll regs).find? (Name.upper name) =
      (lastFor name regs).or (r.find? (Name.upper name)) := by
  induction regs generalizing r with
  | nil => simp [insertAll, lastFor_nil]
  | cons reg later ih =>
    obtain ⟨other, value⟩ := reg
    have hstep : r.insertAll ((other, value) :: later) =
        (r.insert (Name.upper other) value).insertAll later := rfl
    rw [hstep, ih, lastFor_cons, find?_insert, Option.or_assoc]
    by_cases h : Name.upper other = Name.upper name
    · simp [h]
    · simp [h, Ne.symm h]

end Registry

/-- An empty charset registers nothing. -/
def usable (charsets : List (String × Bytes)) : List (String × Bytes) :=
  charsets.filter fun reg => reg.2 ≠ []

theorem usable_cons (reg : String × Bytes) (later : List (String × Bytes)) :
    usable (reg :: later) = usable [reg] ++ usable later := List.filter_append [reg] later

namespace Change

/-- The names that the change enables or disables. -/
def switches : Change → List (String × Bool)
  | .enabled on names => names.map (·, on)
  | .settings s => s.disabled.map (·, false)
  | _ => []

def charsets : Change → List (String × Bytes)
  | .charset name chars => usable [(name, chars)]
  | .settings s => usable (s.charsets.entries.map fun entry => (entry.1, Bytes.ofText entry.2))
  | _ => []

def generators : Change → List (String × Generator)
  | .generator name value => [(name, value)]
  | _ => []

end Change

namespace Config

/-- What registrations can change. -/
def named (c : Config) : Registry Bool × Registry Bytes × Registry Generator :=
  (c.enabled, c.charsets, c.generators)

variable {c : Config}

/-! ## Changes that register nothing -/

theorem named_setDefaultLength (c : Config) (n : Nat) : (c.setDefaultLength n).named = c.named := by
  unfold setDefaultLength
  split <;> rfl

theorem named_setMinLength (c : Config) (n : Nat) : (c.setMinLength n).named = c.named := by
  unfold setMinLength
  split <;> rfl

theorem named_setMaxLength (c : Config) (n : Nat) : (c.setMaxLength n).named = c.named := by
  unfold setMaxLength
  split <;> rfl

theorem named_setProviders (c : Config) (providers : List String) :
    (c.setProviders providers).named = c.named := by
  unfold setProviders
  split <;> rfl

theorem named_applySetting (set : Config → α → Config)
    (h : ∀ c value, (set c value).named = c.named) (c : Config) (setting : Option α) :
    (c.applySetting set setting).named = c.named := by
  cases setting with
  | none => rfl
  | some value => exact h c value

/-! ## Changes that register -/

theorem named_setEnabled (c : Config) (on : Bool) (names : List String) :
    (c.setEnabled on names).named =
      (c.enabled.insertAll (names.map (·, on)), c.charsets, c.generators) := by
  unfold setEnabled Registry.insertAll
  rw [List.foldl_map]
  rfl

theorem named_addCharset (c : Config) (name : String) (chars : Bytes) :
    (c.addCharset name chars).named =
      (c.enabled, c.charsets.insertAll (usable [(name, chars)]), c.generators) := by
  unfold addCharset
  by_cases h : chars = []
  · simp [h, usable, Registry.insertAll, named]
  · simp [h, usable, Registry.insertAll, named]

theorem named_addCharsets (c : Config) (entries : List (String × String)) :
    (entries.foldl (fun c entry => c.addCharset entry.1 (Bytes.ofText entry.2)) c).named =
      (c.enabled, c.charsets.insertAll
        (usable (entries.map fun entry => (entry.1, Bytes.ofText entry.2))),
        c.generators) := by
  induction entries generalizing c with
  | nil => rfl
  | cons entry entries ih =>
    have hadd := named_addCharset c entry.1 (Bytes.ofText entry.2)
    simp only [named, Prod.mk.injEq] at hadd
    rw [List.foldl_cons, ih, hadd.1, hadd.2.1, hadd.2.2, List.map_cons,
      usable_cons _ (entries.map _), Registry.insertAll_append]

theorem named_applySettings (c : Config) (s : Settings) :
    (c.applySettings s).named =
      (c.enabled.insertAll (Change.settings s).switches,
        c.charsets.insertAll (Change.settings s).charsets, c.generators) := by
  unfold applySettings
  extract_lets c₁ c₂ c₃ c₄ c₅ c₆ c₇ c₈ c₉ c₁₀
  have h₁ : c₁.named = c.named := named_applySetting _ named_setDefaultLength c s.defaultLength
  have h₂ : c₂.named = c₁.named := named_applySetting _ named_setMinLength c₁ s.minLength
  have h₃ : c₃.named = c₂.named := named_applySetting _ named_setMaxLength c₂ s.maxLength
  have h₄ : c₄.named = c₃.named := named_applySetting setAccepted (fun _ _ => rfl) c₃ _
  have h₅ : c₅.named = c₄.named := named_applySetting setOutput (fun _ _ => rfl) c₄ s.output
  have h₆ : c₆.named = c₅.named := named_applySetting setRanges (fun _ _ => rfl) c₅ s.ranges
  have h₇ : c₇.named = c₆.named :=
    named_applySetting setTypeChoices (fun _ _ => rfl) c₆ s.typeChoices
  have h₈ : c₈.named = c₇.named :=
    named_applySetting setLengthChoices (fun _ _ => rfl) c₇ s.lengthChoices
  -- Of all steps only the switches and the charsets register anything.
  have hplain : c₈.named = c.named := by
    rw [h₈, h₇, h₆, h₅, h₄, h₃, h₂, h₁]
  have h₉ : c₉.named = _ := named_setEnabled c₈ false s.disabled
  have h₁₀ : c₁₀.named = c₉.named := named_setProviders c₉ s.providers
  have hlast := named_addCharsets c₁₀ s.charsets.entries
  rw [h₉] at h₁₀
  simp only [named, Prod.mk.injEq] at hplain h₁₀
  rw [h₁₀.1, h₁₀.2.1, h₁₀.2.2, hplain.1, hplain.2.1, hplain.2.2] at hlast
  exact hlast

theorem named_apply (c : Config) (change : Change) :
    (c.apply change).named =
      (c.enabled.insertAll change.switches, c.charsets.insertAll change.charsets,
        c.generators.insertAll change.generators) := by
  cases change with
  | defaultLength n => exact named_setDefaultLength c n
  | minLength n => exact named_setMinLength c n
  | maxLength n => exact named_setMaxLength c n
  | providers providers => exact named_setProviders c providers
  | enabled on names => exact named_setEnabled c on names
  | charset name chars => exact named_addCharset c name chars
  | settings s => exact named_applySettings c s
  | generator | accepted | output | ranges | typeChoices | lengthChoices => rfl

theorem named_applyAll (c : Config) (changes : List Change) :
    (c.applyAll changes).named =
      (c.enabled.insertAll (changes.flatMap Change.switches),
        c.charsets.insertAll (changes.flatMap Change.charsets),
        c.generators.insertAll (changes.flatMap Change.generators)) := by
  induction changes generalizing c with
  | nil => rfl
  | cons change changes ih =>
    have happly := named_apply c change
    simp only [named, Prod.mk.injEq] at happly
    have hstep : c.applyAll (change :: changes) = (c.apply change).applyAll changes := rfl
    rw [hstep, ih, happly.1, happly.2.1, happly.2.2]
    simp only [List.flatMap_cons, Registry.insertAll_append]

/-! ## What the changes come to -/

theorem isEnabled_default (name : String) : ({} : Config).isEnabled name = true := by
  unfold isEnabled
  cases hfind : ({} : Config).enabled.find? (Name.upper name) with
  | none => rfl
  | some on =>
    -- Only built-in names are in the map, all of them enabled.
    obtain ⟨keyword, -, hkeyword⟩ :=
      List.mem_map.mp (Registry.mem_of_mem_ofList (Registry.mem_of_find? hfind))
    exact (Prod.mk.inj hkeyword).2.symm

theorem isEnabled_ofChanges (changes : List Change) (name : String) :
    (ofChanges changes).isEnabled name =
      (lastFor name (changes.flatMap Change.switches)).getD true := by
  have hnamed := named_applyAll {} changes
  simp only [named, Prod.mk.injEq] at hnamed
  have hdefault := isEnabled_default name
  unfold isEnabled ofChanges at *
  rw [hnamed.1, Registry.find?_insertAll, Option.getD_or, hdefault]

theorem charset?_ofChanges (changes : List Change) (name : String) :
    (ofChanges changes).charset? name = lastFor name (changes.flatMap Change.charsets) := by
  have hnamed := named_applyAll {} changes
  simp only [named, Prod.mk.injEq] at hnamed
  unfold charset? ofChanges
  rw [hnamed.2.1, Registry.find?_insertAll]
  simp

theorem generator?_ofChanges (changes : List Change) (name : String) :
    (ofChanges changes).generator? name = lastFor name (changes.flatMap Change.generators) := by
  have hnamed := named_applyAll {} changes
  simp only [named, Prod.mk.injEq] at hnamed
  unfold generator? ofChanges
  rw [hnamed.2.2, Registry.find?_insertAll]
  simp

end Config

end TagFill
