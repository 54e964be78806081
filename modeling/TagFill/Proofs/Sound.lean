import TagFill.Proofs.Changes
import TagFill.Proofs.Resolution

/-! # What every configuration keeps

Whatever values a configuration is given, its lengths stay positive, its lists stay filled and its
names stay in uppercase.
-/

namespace TagFill

variable {α : Type}

namespace Config

/-- Values that a pass can rely on. -/
structure Sound (c : Config) : Prop where
  defaultLength : 1 ≤ c.defaultLength
  minLength : 1 ≤ c.rules.minLength
  maxLength : 1 ≤ c.rules.maxLength
  providers : c.providers ≠ []
  charsets : ∀ entry ∈ c.charsets.entries, entry.2 ≠ []
  switchNames : ∀ name ∈ c.enabled.names, Name.upper name = name
  charsetNames : ∀ name ∈ c.charsets.names, Name.upper name = name
  generatorNames : ∀ name ∈ c.generators.names, Name.upper name = name

end Config

theorem Registry.upper_insert {r : Registry α} (h : ∀ name ∈ r.names, Name.upper name = name)
    (name : String) (value : α) :
    ∀ other ∈ (r.insert (Name.upper name) value).names, Name.upper other = other := by
  intro other hother
  obtain ⟨entry, hentry, rfl⟩ := List.mem_map.mp hother
  obtain rfl | hmem := mem_insertEntry hentry
  · exact Name.upper_upper name
  · exact h _ (List.mem_map_of_mem hmem)

theorem Registry.upper_foldl {r : Registry α} (h : ∀ name ∈ r.names, Name.upper name = name)
    (names : List String) (value : α) :
    ∀ other ∈ (names.foldl (fun r name => r.insert (Name.upper name) value) r).names,
      Name.upper other = other := by
  induction names generalizing r with
  | nil => exact h
  | cons name names ih => exact ih (upper_insert h name value)

namespace Config

variable {c : Config}

theorem sound_default : ({} : Config).Sound where
  defaultLength := by decide
  minLength := by decide
  maxLength := by decide
  providers := by decide
  charsets := by simp [Registry.empty]
  switchNames := by
    intro name hname
    obtain ⟨entry, hentry, rfl⟩ := List.mem_map.mp hname
    obtain ⟨keyword, -, rfl⟩ := List.mem_map.mp (Registry.mem_of_mem_ofList hentry)
    exact keyword.upper_name
  charsetNames := by simp [Registry.empty, Registry.names]
  generatorNames := by simp [Registry.empty, Registry.names]

namespace Sound

theorem setDefaultLength (h : c.Sound) (n : Nat) : (c.setDefaultLength n).Sound := by
  unfold Config.setDefaultLength
  split
  · exact h
  · exact { h with defaultLength := by dsimp only; omega }

theorem setMinLength (h : c.Sound) (n : Nat) : (c.setMinLength n).Sound := by
  unfold Config.setMinLength
  split
  · exact h
  · exact { h with minLength := by dsimp only; omega }

theorem setMaxLength (h : c.Sound) (n : Nat) : (c.setMaxLength n).Sound := by
  unfold Config.setMaxLength
  split
  · exact h
  · exact { h with maxLength := by dsimp only; omega }

theorem setEnabled (h : c.Sound) (on : Bool) (names : List String) :
    (c.setEnabled on names).Sound :=
  { h with switchNames := Registry.upper_foldl h.switchNames names on }

theorem setProviders (h : c.Sound) (providers : List String) :
    (c.setProviders providers).Sound := by
  unfold Config.setProviders
  split
  · exact h
  · rename_i hne
    exact { h with providers := hne }

theorem addCharset (h : c.Sound) (name : String) (chars : Bytes) :
    (c.addCharset name chars).Sound := by
  unfold Config.addCharset
  split
  · exact h
  · rename_i hne
    have hnames := Registry.upper_insert h.charsetNames name chars
    refine { h with charsets := ?_, charsetNames := hnames }
    intro entry hentry
    obtain rfl | hmem := Registry.mem_insertEntry hentry
    · exact hne
    · exact h.charsets entry hmem

theorem addGenerator (h : c.Sound) (name : String) (generator : Generator) :
    (c.addGenerator name generator).Sound :=
  { h with generatorNames := Registry.upper_insert h.generatorNames name generator }

theorem apply (h : c.Sound) {change : Change} (hsingle : change.IsSingle) :
    (c.apply change).Sound := by
  cases change with
  | defaultLength n => exact h.setDefaultLength n
  | minLength n => exact h.setMinLength n
  | maxLength n => exact h.setMaxLength n
  | enabled on names => exact h.setEnabled on names
  | providers providers => exact h.setProviders providers
  | charset name chars => exact h.addCharset name chars
  | generator name generator => exact h.addGenerator name generator
  | settings => exact hsingle.elim
  | accepted | output | ranges | typeChoices | lengthChoices => exact { h with }

end Sound

theorem sound_ofChanges (changes : List Change) : (ofChanges changes).Sound :=
  applyAll_induction (fun _ _ hsingle hc => hc.apply hsingle) sound_default changes

/-! ## Charsets -/

theorem charset?_of_filler {entry : Option Bytes} {chars : Bytes}
    (h : c.filler entry = .charset chars) : ∃ name, c.charset? name = some chars := by
  cases entry with
  | none => contradiction
  | some entry =>
    refine ⟨Name.ofEntry entry, ?_⟩
    unfold filler fillerOfName at h
    grind

theorem Sound.charset?_ne_nil (h : c.Sound) {name : String} {chars : Bytes}
    (hchars : c.charset? name = some chars) : chars ≠ [] :=
  h.charsets _ (Registry.mem_of_find? hchars)

theorem Sound.ne_nil_of_filler (h : c.Sound) {entry : Option Bytes} {chars : Bytes}
    (hfiller : c.filler entry = .charset chars) : chars ≠ [] := by
  obtain ⟨name, hname⟩ := charset?_of_filler hfiller
  exact h.charset?_ne_nil hname

end Config

end TagFill
