import Mathlib.Data.List.Forall2
import TagFill.Proofs.Resolution

/-! # Names in any case

Which filler an entry stands for follows from its name and from the last registrations of that name.
So neither an entry nor a registration has to be written in one ASCII case.
-/

namespace TagFill

/-! ## Entries -/

namespace Name

def upperByte (b : UInt8) : UInt8 := if 0x61 ≤ b && b ≤ 0x7A then b - 0x20 else b

variable {x : UInt8}

theorem upperByte_of_le (h : 0x80 ≤ x) : upperByte x = x := by
  have hle : 128 ≤ x.toNat := UInt8.le_iff_toNat_le.mp h
  have hz : ¬ x ≤ 0x7A := by
    rw [UInt8.le_iff_toNat_le]
    change ¬ x.toNat ≤ 122
    omega
  simp [upperByte, hz]

theorem upperByte_of_ascii (h : x < 0x80) :
    upperByte x < 0x80 ∧ Char.ofNat (upperByte x).toNat = (Char.ofNat x.toNat).toUpper := by
  have hall : ∀ n < 128, upperByte (UInt8.ofNat n) < 0x80 ∧
      Char.ofNat (upperByte (UInt8.ofNat n)).toNat = (Char.ofNat n).toUpper := by
    decide +kernel
  have hx := hall x.toNat (UInt8.lt_iff_toNat_lt.mp h)
  rwa [UInt8.ofNat_toNat] at hx

theorem toUpper_ofNat {n : Nat} (h : 0x80 ≤ n) : (Char.ofNat n).toUpper = Char.ofNat n := by
  have hnat : (Char.ofNat n).val.toNat = n ∨ (Char.ofNat n).val.toNat = 0 := by
    by_cases hvalid : n.isValidChar
    · left
      rw [Char.ofNat, dif_pos hvalid]
      rfl
    · right
      rw [Char.ofNat, dif_neg hvalid]
      rfl
  -- Neither of the two is the number of a lowercase letter.
  unfold Char.toUpper
  rw [dif_neg]
  rintro ⟨hlow, hhigh⟩
  have ha : 'a'.val.toNat = 97 := rfl
  have hz : 'z'.val.toNat = 122 := rfl
  rw [UInt32.le_iff_toNat_le] at hlow hhigh
  omega

end Name

namespace Utf8

open Name (upperByte)

variable {lead x : UInt8} {rest : Bytes}

theorem isContinuation_upperByte (x : UInt8) :
    isContinuation (upperByte x) = isContinuation x := by
  by_cases h : x < 0x80
  · rw [not_isContinuation_of_ascii h, not_isContinuation_of_ascii (Name.upperByte_of_ascii h).1]
  · rw [Name.upperByte_of_le (UInt8.not_lt.mp h)]

theorem takeWhile_map_upperByte (b : Bytes) :
    (b.map upperByte).takeWhile isContinuation = b.takeWhile isContinuation := by
  induction b with
  | nil => rfl
  | cons x b ih =>
    rw [List.map_cons, List.takeWhile_cons, List.takeWhile_cons, isContinuation_upperByte]
    split
    · rename_i hx
      rw [Name.upperByte_of_le (le_of_isContinuation hx), ih]
    · rfl

theorem secondAllowed_upperByte (lead x : UInt8) :
    secondAllowed lead (upperByte x) = secondAllowed lead x := by
  by_cases h : x < 0x80
  · have hx := not_isContinuation_of_ascii h
    have hupper := not_isContinuation_of_ascii (Name.upperByte_of_ascii h).1
    rw [Bool.eq_iff_iff, secondAllowed_iff, secondAllowed_iff, hx, hupper]
    simp
  · rw [Name.upperByte_of_le (UInt8.not_lt.mp h)]

theorem tail_map_upperByte (lead : UInt8) (rest : Bytes) :
    tail lead (rest.map upperByte) = tail lead rest := by
  unfold tail
  rw [← List.map_take]
  cases rest.take (width lead - 1) with
  | nil => rfl
  | cons second others =>
    simp only [List.map_cons, secondAllowed_upperByte, takeWhile_map_upperByte]
    split
    · rename_i hsecond
      rw [Name.upperByte_of_le (le_of_isContinuation (secondAllowed_iff.mp hsecond).1)]
    · rfl

theorem next_map_upperByte (lead : UInt8) (rest : Bytes) :
    next (upperByte lead) (rest.map upperByte) =
      ((next lead rest).1.map Char.toUpper, (next lead rest).2.map upperByte) := by
  by_cases h : lead < 0x80
  · obtain ⟨hupper, hchar⟩ := Name.upperByte_of_ascii h
    rw [next_of_ascii hupper, next_of_ascii h, hchar]
    rfl
  · have hlead := UInt8.not_lt.mp h
    rw [Name.upperByte_of_le hlead]
    unfold next
    rw [tail_map_upperByte, ← List.map_drop]
    split
    · rename_i hwidth
      rw [Option.map_some, Name.toUpper_ofNat (le_scalar_tail hlead hwidth)]
    · rfl

theorem decodeLossy_map_upperByte (b : Bytes) :
    decodeLossy (b.map upperByte) = (decodeLossy b).map Char.toUpper := by
  induction b using decodeLossy.induct with
  | case1 => rw [List.map_nil, decodeLossy]; rfl
  | case2 lead rest ih =>
    have hreplacement : replacement.toUpper = replacement := by decide
    rw [List.map_cons, decodeLossy, next_map_upperByte, ih, decodeLossy, List.map_cons]
    cases (next lead rest).1 with
    | none => rw [Option.map_none, Option.getD_none, hreplacement]
    | some c => rfl

end Utf8

theorem Name.ofEntry_map_upperByte (entry : Bytes) :
    ofEntry (entry.map upperByte) = ofEntry entry := by
  have hmap (cs : List Char) : String.ofList (cs.map Char.toUpper) = upper (String.ofList cs) := by
    rw [← String.toList_inj, upper, String.toList_map, String.toList_ofList, String.toList_ofList]
  rw [ofEntry, ofEntry, Utf8.decodeLossy_map_upperByte, hmap, upper_upper]

/-! ## Registrations -/

section

variable {α β : Type} {name : String}

/-- All that is registered under the name, in any ASCII case. -/
def valuesFor (name : String) (regs : List (String × α)) : List α :=
  (regs.filter fun reg => Name.upper reg.1 = Name.upper name).map (·.2)

theorem lastFor_eq (name : String) (regs : List (String × α)) :
    lastFor name regs = (valuesFor name regs).getLast? := List.getLast?_map.symm

theorem valuesFor_append (regs later : List (String × α)) :
    valuesFor name (regs ++ later) = valuesFor name regs ++ valuesFor name later := by
  rw [valuesFor, List.filter_append, List.map_append]
  rfl

theorem valuesFor_map (f : α → β) (regs : List (String × α)) :
    valuesFor name (regs.map fun reg => (reg.1, f reg.2)) = (valuesFor name regs).map f := by
  unfold valuesFor
  rw [List.filter_map, List.map_map, List.map_map]
  rfl

theorem valuesFor_usable (regs : List (String × Bytes)) :
    valuesFor name (usable regs) = (valuesFor name regs).filter (· ≠ []) := by
  unfold valuesFor usable
  rw [List.filter_map, List.filter_filter, List.filter_filter]
  simp only [Function.comp_apply, Bool.and_comm]

theorem valuesFor_congr {names names' : List String}
    (h : names.map Name.upper = names'.map Name.upper) (value : α) :
    valuesFor name (names.map (·, value)) = valuesFor name (names'.map (·, value)) := by
  have hupper (names : List String) : valuesFor name (names.map (·, value)) =
      ((names.map Name.upper).filter (· = Name.upper name)).map fun _ => value := by
    unfold valuesFor
    rw [List.filter_map, List.filter_map, List.map_map, List.map_map]
    rfl
  rw [hupper, hupper, h]

theorem valuesFor_flatMap {R : Change → Change → Prop} {changes changes' : List Change}
    (hchanges : List.Forall₂ R changes changes') {regs : Change → List (String × α)}
    (h : ∀ {a b}, R a b → valuesFor name (regs a) = valuesFor name (regs b)) :
    valuesFor name (changes.flatMap regs) = valuesFor name (changes'.flatMap regs) := by
  induction hchanges with
  | nil => rfl
  | cons hchange _ ih =>
    rw [List.flatMap_cons, List.flatMap_cons, valuesFor_append, valuesFor_append, h hchange, ih]

end

namespace Change

/-- The same change with names in another ASCII case. Settings have the same charsets under every
name, in the same order. -/
inductive Recased : Change → Change → Prop
  | same (change : Change) : Recased change change
  | enabled (on : Bool) {names names' : List String}
      (h : names.map Name.upper = names'.map Name.upper) :
      Recased (.enabled on names) (.enabled on names')
  | charset (chars : Bytes) {name name' : String} (h : Name.upper name = Name.upper name') :
      Recased (.charset name chars) (.charset name' chars)
  | generator (value : Generator) {name name' : String} (h : Name.upper name = Name.upper name') :
      Recased (.generator name value) (.generator name' value)
  | settings (s : Settings) {disabled : List String} {charsets : Registry String}
      (hdisabled : s.disabled.map Name.upper = disabled.map Name.upper)
      (hcharsets : ∀ name, valuesFor name s.charsets.entries = valuesFor name charsets.entries) :
      Recased (.settings s) (.settings { s with disabled := disabled, charsets := charsets })

variable {a b : Change}

theorem Recased.valuesFor_switches (name : String) (h : Recased a b) :
    valuesFor name a.switches = valuesFor name b.switches := by
  cases h with
  | same => rfl
  | enabled on h => exact valuesFor_congr h on
  | settings s hdisabled => exact valuesFor_congr hdisabled false
  | charset | generator => rfl

theorem Recased.valuesFor_charsets (name : String) (h : Recased a b) :
    valuesFor name a.charsets = valuesFor name b.charsets := by
  cases h with
  | same => rfl
  | @charset chars name₁ name₂ h =>
    have hnames : [name₁].map Name.upper = [name₂].map Name.upper := by simpa using h
    have hvalues : valuesFor name [(name₁, chars)] = valuesFor name [(name₂, chars)] :=
      valuesFor_congr hnames chars
    simp only [charsets, valuesFor_usable, hvalues]
  | settings s hdisabled hcharsets =>
    simp only [charsets, valuesFor_usable, valuesFor_map, hcharsets]
  | enabled | generator => rfl

theorem Recased.valuesFor_generators (name : String) (h : Recased a b) :
    valuesFor name a.generators = valuesFor name b.generators := by
  cases h with
  | same => rfl
  | @generator value name₁ name₂ h =>
    have hnames : [name₁].map Name.upper = [name₂].map Name.upper := by simpa using h
    exact valuesFor_congr hnames value
  | enabled | charset | settings => rfl

end Change

namespace Config

variable {changes changes' : List Change} {entry : Option Bytes} {filler : Filler}

theorem filler_recased (h : List.Forall₂ Change.Recased changes changes') (entry : Option Bytes) :
    (ofChanges changes).filler entry = (ofChanges changes').filler entry := by
  have hswitches (name : String) := valuesFor_flatMap h (Change.Recased.valuesFor_switches name)
  have hcharsets (name : String) := valuesFor_flatMap h (Change.Recased.valuesFor_charsets name)
  have hgenerators (name : String) :=
    valuesFor_flatMap h (Change.Recased.valuesFor_generators name)
  cases entry with
  | none => rfl
  | some entry =>
    simp only [filler, fillerOfName, isEnabled_ofChanges, charset?_ofChanges, generator?_ofChanges,
      lastFor_eq, hswitches, hcharsets, hgenerators]

/-! ## Resolution -/

theorem ofName?_of_isFree {entry : Bytes} (h : IsFree changes (Name.ofEntry entry)) :
    Keyword.ofName? (Name.ofEntry entry) = none := by
  rw [Option.eq_none_iff_forall_ne_some]
  intro keyword hkeyword
  have hname := Keyword.name_of_ofName? hkeyword
  rw [Name.upper_ofEntry] at hname
  exact h.2 keyword hname.symm

/-- The rules leave no choice. -/
theorem filler_of_resolves (h : Resolves changes entry filler) :
    (ofChanges changes).filler entry = filler := by
  have hon {name : String} (h : ¬ Disabled changes name) :
      (ofChanges changes).isEnabled name = true := by
    rwa [← isEnabled_eq_false_iff, Bool.not_eq_false] at h
  cases h with
  | untyped => rfl
  | disabled h =>
    have hoff := isEnabled_eq_false_iff.mpr h
    simp [Config.filler, fillerOfName, hoff]
  | builtin h hname =>
    rw [hname] at h
    simp [Config.filler, fillerOfName, hname, hon h, Keyword.ofName?_name]
  | generator h hlast | charset h hno hlast | unknown h hno hnone =>
    simp [Config.filler, fillerOfName, hon h.1, ofName?_of_isFree h, generator?_ofChanges,
      charset?_ofChanges, *]

/-- What an entry stands for is what the rules say of its name. So entries may be written in any
ASCII case, and registrations as well. -/
theorem filler_resolution (changes : List Change) :
    (∀ entry filler, (ofChanges changes).filler entry = filler ↔ Resolves changes entry filler) ∧
    (∀ entry other, Name.ofEntry entry = Name.ofEntry other →
      (ofChanges changes).filler (some entry) = (ofChanges changes).filler (some other)) ∧
    (∀ entry other, entry.map Name.upperByte = other.map Name.upperByte →
      (ofChanges changes).filler (some entry) = (ofChanges changes).filler (some other)) ∧
    ∀ changes', List.Forall₂ Change.Recased changes changes' →
      ∀ entry, (ofChanges changes).filler entry = (ofChanges changes').filler entry := by
  have hname (entry other : Bytes) (h : Name.ofEntry entry = Name.ofEntry other) :
      (ofChanges changes).filler (some entry) = (ofChanges changes).filler (some other) :=
    congrArg (ofChanges changes).fillerOfName h
  refine ⟨?_, hname, ?_, fun changes' => filler_recased⟩
  · intro entry filler
    constructor
    · rintro rfl
      exact resolves_filler changes entry
    · exact filler_of_resolves
  · intro entry other h
    apply hname
    rw [← Name.ofEntry_map_upperByte entry, h, Name.ofEntry_map_upperByte]

end Config

end TagFill
