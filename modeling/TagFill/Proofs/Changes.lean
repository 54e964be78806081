import TagFill.Config.Change

/-! # Changes one at a time

Settings change several things at once. They come to a row of single changes, so what every single
change keeps is kept by all of them.
-/

namespace TagFill

variable {α : Type}

def Change.IsSingle : Change → Prop
  | .settings _ => False
  | _ => True

/-- The changes that settings come to, in their order. -/
def Settings.changes (s : Settings) : List Change :=
  (s.defaultLength.map .defaultLength).toList ++
  (s.minLength.map .minLength).toList ++
  (s.maxLength.map .maxLength).toList ++
  ((s.dialects.map Dialects.ofList).map .accepted).toList ++
  (s.output.map .output).toList ++
  (s.ranges.map .ranges).toList ++
  (s.typeChoices.map .typeChoices).toList ++
  (s.lengthChoices.map .lengthChoices).toList ++
  [.enabled false s.disabled, .providers s.providers] ++
  s.charsets.entries.map fun (name, chars) => .charset name (Bytes.ofText chars)

namespace Change

def singles : Change → List Change
  | .settings s => s.changes
  | change => [change]

theorem isSingle_singles (change : Change) : ∀ single ∈ change.singles, single.IsSingle := by
  intro single h
  cases change with
  | settings s =>
    cases single with
    | settings => simp [singles, Settings.changes] at h
    | _ => trivial
  | _ =>
    rw [List.mem_singleton.mp h]
    trivial

end Change

namespace Config

theorem applyAll_append (c : Config) (changes later : List Change) :
    c.applyAll (changes ++ later) = (c.applyAll changes).applyAll later := List.foldl_append

theorem applyAll_toList (c : Config) (change : α → Change) (setting : Option α) :
    c.applyAll (setting.map change).toList =
      c.applySetting (fun c value => c.apply (change value)) setting := by
  cases setting <;> rfl

theorem applySettings_eq (c : Config) (s : Settings) :
    c.applySettings s = c.applyAll s.changes := by
  unfold Settings.changes
  -- A setting that may be missing is a row of one change or of none.
  simp only [applyAll_append, applyAll_toList]
  rw [applyAll, applyAll, List.foldl_map]
  rfl

theorem apply_eq (c : Config) (change : Change) : c.apply change = c.applyAll change.singles := by
  cases change with
  | settings s => exact applySettings_eq c s
  | _ => rfl

theorem applyAll_singles (c : Config) (changes : List Change) :
    c.applyAll changes = c.applyAll (changes.flatMap Change.singles) := by
  induction changes generalizing c with
  | nil => rfl
  | cons change changes ih =>
    rw [List.flatMap_cons, applyAll_append, ← apply_eq, ← ih]
    rfl

theorem applyAll_induction {P : Config → Prop} {c : Config}
    (hsingle : ∀ c change, change.IsSingle → P c → P (c.apply change)) (h : P c)
    (changes : List Change) : P (c.applyAll changes) := by
  rw [applyAll_singles]
  apply List.foldlRecOn _ _ h
  intro c hc change hmem
  obtain ⟨whole, -, hmem⟩ := List.mem_flatMap.mp hmem
  exact hsingle c change (whole.isSingle_singles change hmem) hc

end Config

end TagFill
