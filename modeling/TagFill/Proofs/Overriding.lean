import TagFill.Proofs.ByteOrder
import TagFill.Proofs.NameCase
import TagFill.Proofs.ValidSettings
import TagFill.Session

/-! # Settings override what they set

A builder ignores values that make no sense, and settings with such values are refused. So valid
settings leave nothing out: a builder goes by each value that is set, and by what it had for the
others.
-/

namespace TagFill

variable {α : Type}

namespace Config

/-! ## What the settings come to -/

theorem applySetting_eq (set put : Config → α → Config) (get : Config → α) (setting : Option α)
    (hset : ∀ value, setting = some value → ∀ c, set c value = put c value)
    (hput : ∀ c, put c (get c) = c) (c : Config) :
    c.applySetting set setting = put c (setting.getD (get c)) := by
  cases setting with
  | none => exact (hput c).symm
  | some value => exact hset value rfl c

theorem setEnabled_eq (c : Config) (on : Bool) (names : List String) :
    c.setEnabled on names = { c with enabled := c.enabled.insertAll (names.map (·, on)) } := by
  unfold setEnabled Registry.insertAll
  rw [List.foldl_map]

theorem setProviders_eq (c : Config) (providers : List String) :
    c.setProviders providers =
      { c with providers := if providers = [] then c.providers else providers } := by
  unfold setProviders
  split <;> rfl

theorem addCharsets_eq {entries : List (String × String)} (h : ∀ entry ∈ entries, entry.2 ≠ "")
    (c : Config) :
    entries.foldl (fun c entry => c.addCharset entry.1 (Bytes.ofText entry.2)) c =
      { c with charsets :=
          c.charsets.insertAll (entries.map fun entry => (entry.1, Bytes.ofText entry.2)) } := by
  induction entries generalizing c with
  | nil => rfl
  | cons entry entries ih =>
    rw [List.forall_mem_cons] at h
    have hne : Bytes.ofText entry.2 ≠ [] := mt Utf8.ofText_eq_nil_iff.mp h.1
    rw [List.foldl_cons, ih h.2, addCharset, if_neg hne]
    rfl

/-- Valid settings in one step: where a value is set it is taken, whatever the others are. -/
theorem applySettings_of_valid {s : Settings} (h : s.Valid) (c : Config) :
    c.applySettings s =
      { defaultLength := s.defaultLength.getD c.defaultLength
        rules :=
          { minLength := s.minLength.getD c.rules.minLength
            maxLength := s.maxLength.getD c.rules.maxLength
            ranges := s.ranges.getD c.rules.ranges
            lengthChoices := s.lengthChoices.getD c.rules.lengthChoices
            typeChoices := s.typeChoices.getD c.rules.typeChoices }
        accepted := (s.dialects.map Dialects.ofList).getD c.accepted
        output := s.output.getD c.output
        enabled := c.enabled.insertAll (s.disabled.map (·, false))
        providers := if s.providers = [] then c.providers else s.providers
        charsets := c.charsets.insertAll
          (s.charsets.entries.map fun entry => (entry.1, Bytes.ofText entry.2))
        generators := c.generators } := by
  have hpos (field : Settings.LengthField) (n : Nat) (hn : s.length? field = some n) : n ≠ 0 := by
    rintro rfl
    exact h.lengths field hn
  have hdefault := applySetting_eq setDefaultLength (fun c n => { c with defaultLength := n })
    (·.defaultLength) s.defaultLength (fun n hn _ => if_neg (hpos .standard n hn)) (fun _ => rfl)
  have hmin := applySetting_eq setMinLength
    (fun c n => { c with rules := { c.rules with minLength := n } })
    (·.rules.minLength) s.minLength (fun n hn _ => if_neg (hpos .least n hn)) (fun _ => rfl)
  have hmax := applySetting_eq setMaxLength
    (fun c n => { c with rules := { c.rules with maxLength := n } })
    (·.rules.maxLength) s.maxLength (fun n hn _ => if_neg (hpos .greatest n hn)) (fun _ => rfl)
  -- The other five setters take every value.
  have haccepted := applySetting_eq setAccepted (fun c value => { c with accepted := value })
    (·.accepted) (s.dialects.map Dialects.ofList) (fun _ _ _ => rfl) (fun _ => rfl)
  have houtput := applySetting_eq setOutput (fun c value => { c with output := value })
    (·.output) s.output (fun _ _ _ => rfl) (fun _ => rfl)
  have hranges := applySetting_eq setRanges
    (fun c on => { c with rules := { c.rules with ranges := on } })
    (·.rules.ranges) s.ranges (fun _ _ _ => rfl) (fun _ => rfl)
  have htypes := applySetting_eq setTypeChoices
    (fun c on => { c with rules := { c.rules with typeChoices := on } })
    (·.rules.typeChoices) s.typeChoices (fun _ _ _ => rfl) (fun _ => rfl)
  have hlengths := applySetting_eq setLengthChoices
    (fun c on => { c with rules := { c.rules with lengthChoices := on } })
    (·.rules.lengthChoices) s.lengthChoices (fun _ _ _ => rfl) (fun _ => rfl)
  simp only [applySettings, hdefault, hmin, hmax, haccepted, houtput, hranges, htypes, hlengths,
    setEnabled_eq, setProviders_eq, addCharsets_eq h.charsets]

theorem applySettings_applySettings {s : Settings} (h : s.Valid) (c : Config) :
    (c.applySettings s).applySettings s = c.applySettings s := by
  have hgetD {β : Type} (setting : Option β) (old : β) :
      setting.getD (setting.getD old) = setting.getD old := by
    cases setting <;> rfl
  have hproviders : (if s.providers = [] then if s.providers = [] then c.providers else s.providers
      else s.providers) = if s.providers = [] then c.providers else s.providers := by
    split <;> rfl
  simp only [applySettings_of_valid h, hgetD, hproviders, Registry.insertAll_insertAll]

end Config

/-! ## One name of several -/

theorem lastFor_map {β : Type} (f : α → β) (name : String) (regs : List (String × α)) :
    lastFor name (regs.map fun reg => (reg.1, f reg.2)) = (lastFor name regs).map f := by
  rw [lastFor_eq, lastFor_eq, valuesFor_map, List.getLast?_map]

/-- `b'` goes by each value that is set, and by what `b` has for every other one. -/
structure Settings.Override (s : Settings) (b b' : Engine) : Prop where
  defaultLength : b'.config.defaultLength = s.defaultLength.getD b.config.defaultLength
  minLength : b'.config.rules.minLength = s.minLength.getD b.config.rules.minLength
  maxLength : b'.config.rules.maxLength = s.maxLength.getD b.config.rules.maxLength
  ranges : b'.config.rules.ranges = s.ranges.getD b.config.rules.ranges
  typeChoices : b'.config.rules.typeChoices = s.typeChoices.getD b.config.rules.typeChoices
  lengthChoices : b'.config.rules.lengthChoices = s.lengthChoices.getD b.config.rules.lengthChoices
  output : b'.config.output = s.output.getD b.config.output
  /-- An empty list leaves the raw spellings alone. -/
  listed : ∀ list, s.dialects = some list →
    ∀ dialect, b'.config.accepted.accepts dialect = true ↔ dialect ∈ list
  unlisted : s.dialects = none → b'.config.accepted = b.config.accepted
  providers : b'.config.providers = if s.providers = [] then b.config.providers else s.providers
  disabled : ∀ name, (∃ other ∈ s.disabled, Name.upper other = Name.upper name) →
    b'.config.isEnabled name = false
  switches : ∀ name, (∀ other ∈ s.disabled, Name.upper other ≠ Name.upper name) →
    b'.config.isEnabled name = b.config.isEnabled name
  /-- Of the names that differ in ASCII case only the last one counts. -/
  charsets : ∀ name,
    (∃ entry, s.charsets.IsLast name entry ∧
      b'.config.charset? name = some (Bytes.ofText entry.2)) ∨
    (∀ entry ∈ s.charsets.entries, Name.upper entry.1 ≠ Name.upper name) ∧
      b'.config.charset? name = b.config.charset? name
  generators : b'.config.generators = b.config.generators
  source : b'.source = b.source

theorem Settings.Valid.override {s : Settings} (h : s.Valid) (b : Engine) :
    s.Override b { b with config := b.config.applySettings s } := by
  have hswitches (name : String) : (b.config.applySettings s).isEnabled name =
      ((lastFor name (s.disabled.map (·, false))).or
        (b.config.enabled.find? (Name.upper name))).getD true := by
    rw [Config.applySettings_of_valid h, Config.isEnabled, Registry.find?_insertAll]
  have hcharsets (name : String) : (b.config.applySettings s).charset? name =
      ((lastFor name s.charsets.entries).map Bytes.ofText).or (b.config.charset? name) := by
    rw [Config.applySettings_of_valid h, Config.charset?, Registry.find?_insertAll, lastFor_map,
      Config.charset?]
  constructor
  case disabled =>
    rintro name ⟨other, hother, hname⟩
    rw [hswitches]
    cases hlast : lastFor name (s.disabled.map (·, false)) with
    | none => exact absurd hname (lastFor_eq_none_iff.mp hlast _ (List.mem_map_of_mem hother))
    | some on =>
      obtain ⟨reg, hreg, -, rfl⟩ := exists_mem_of_lastFor hlast
      obtain ⟨_, -, rfl⟩ := List.mem_map.mp hreg
      rfl
  case switches =>
    intro name hname
    rw [hswitches, lastFor_eq_none_iff.mpr (by simpa using hname)]
    rfl
  case charsets =>
    intro name
    rw [hcharsets]
    obtain ⟨entry, hlast, hvalue⟩ | ⟨hnone, hvalue⟩ := s.charsets.isLast_or name
    · exact .inl ⟨entry, hlast, by rw [hvalue]; rfl⟩
    · exact .inr ⟨hnone, by rw [hvalue]; rfl⟩
  case listed =>
    intro list hlist dialect
    rw [Config.applySettings_of_valid h, hlist]
    simp
  case unlisted =>
    intro hnone
    rw [Config.applySettings_of_valid h, hnone]
    rfl
  all_goals simp only [Config.applySettings_of_valid h]

/-- A builder that is given valid settings goes by all of them: a value is lost only to a charset
whose name differs in ASCII case and comes later. Giving it the same settings again changes
nothing. -/
theorem Session.settings_override (σ : Session) {s : Settings} (hvalid : s.validate = .ok s) :
    ∃ b, σ.step (.change (.settings s)) = (.done, { σ with builder := b }) ∧
      s.Override σ.builder b ∧
      (∀ entry ∈ s.charsets.entries,
        b.config.charset? entry.1 = some (Bytes.ofText entry.2) ∨
        ∃ later ∈ s.charsets.entries, Name.upper later.1 = Name.upper entry.1 ∧
          (Bytes.ofText entry.1).Before (Bytes.ofText later.1)) ∧
      ({ σ with builder := b } : Session).step (.change (.settings s)) =
        (.done, { σ with builder := b }) := by
  have hvalid := Settings.validate_eq_ok_iff.mp hvalid
  have hoverride := hvalid.override σ.builder
  refine ⟨_, rfl, hoverride, ?_, ?_⟩
  · intro entry hentry
    obtain ⟨last, hlast, hvalue⟩ | ⟨hnone, -⟩ := hoverride.charsets entry.1
    · obtain rfl | hbefore := hlast.last entry hentry rfl
      · exact .inl hvalue
      · exact .inr ⟨last, hlast.mem, hlast.upper, hbefore⟩
    · exact absurd rfl (hnone entry hentry)
  · simp only [step, changeBuilder, Config.apply, Config.applySettings_applySettings hvalid]

/-- Two of the three names differ in ASCII case only, and the later one has the charset. -/
theorem Session.settings_override_colliding :
    let document : SettingsDocument := .json (.object [("min_length", .natural 200),
      ("input_encodings", .array []), ("disabled_keywords", .array [.string "hEX"]),
      ("charsets", .object [("key", .string "ab"), ("é", .string "ef"), ("KEY", .string "cd")])])
      true
    ∃ s b, Settings.load document = .ok s ∧
      (start 0).step (.change (.settings s)) = (.done, { start 0 with builder := b }) ∧
      b.config.rules.minLength = 200 ∧ b.config.rules.maxLength = 99 ∧
      b.config.accepted.accepts .url = false ∧ b.config.isEnabled "Hex" = false ∧
      b.config.charset? "Key" = some (Bytes.ofText "ab") := by
  intro document
  let s : Settings :=
    { minLength := some 200, dialects := some [], disabled := ["hEX"],
      charsets := .ofList [("key", "ab"), ("é", "ef"), ("KEY", "cd")] }
  have hload : Settings.load document = .ok s := rfl
  have hvalid : s.validate = .ok s := rfl
  have hentries : s.charsets.entries = [("KEY", "cd"), ("key", "ab"), ("é", "ef")] := rfl
  obtain ⟨b, hstep, hover, -, -⟩ := settings_override (start 0) hvalid
  have hkey : Name.upper "key" = Name.upper "Key" := by simp [Name.upper, ← String.toList_inj]
  have hhex : Name.upper "hEX" = Name.upper "Hex" := by simp [Name.upper, ← String.toList_inj]
  have haccent : Name.upper "é" ≠ Name.upper "Key" := by simp [Name.upper, ← String.toList_inj]
  refine ⟨s, b, hload, hstep, hover.minLength, hover.maxLength, ?_, ?_, ?_⟩
  · simpa using hover.listed [] rfl .url
  · exact hover.disabled "Hex" ⟨"hEX", List.mem_singleton_self _, hhex⟩
  · obtain ⟨entry, hlast, hcharset⟩ | ⟨hnone, -⟩ := hover.charsets "Key"
    · have hmem := hlast.mem
      have hbehind := hlast.last ("key", "ab") (by simp [hentries]) hkey
      simp only [hentries, List.mem_cons, List.not_mem_nil, or_false] at hmem
      obtain rfl | rfl | rfl := hmem
      · -- The lowercase name comes behind this one.
        simp only [Prod.mk.injEq, String.reduceEq, false_and, false_or, Bytes.Before] at hbehind
        exact absurd hbehind (by decide)
      · exact hcharset
      · exact absurd hlast.upper haccent
    · exact absurd hkey (hnone ("key", "ab") (by simp [hentries]))

end TagFill
