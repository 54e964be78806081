import TagFill.Filler
import TagFill.Proofs.Decoding
import TagFill.Proofs.Registration

/-! # What a type entry stands for

An entry is resolved by its name alone, and by what the changes of a configuration did with that
name.
-/

namespace TagFill

/-! ## Names -/

theorem Name.toUpper_toUpper (x : Char) : x.toUpper.toUpper = x.toUpper := by
  have hbounds : 'a'.val.toNat = 97 ∧ 'z'.val.toNat = 122 ∧
      ('A'.val - 'a'.val).toNat = 2 ^ 32 - 32 := by decide
  unfold Char.toUpper
  split
  · rename_i h
    have hnot : ¬ ('a'.val ≤ x.val + ('A'.val - 'a'.val) ∧
        x.val + ('A'.val - 'a'.val) ≤ 'z'.val) := by
      rw [UInt32.le_iff_toNat_le, UInt32.le_iff_toNat_le] at h ⊢
      rw [UInt32.toNat_add]
      omega
    exact dif_neg hnot
  · rfl

theorem Name.upper_upper (name : String) : upper (upper name) = upper name := by
  have htwice : Char.toUpper ∘ Char.toUpper = Char.toUpper := funext toUpper_toUpper
  rw [← String.toList_inj, upper, upper, String.toList_map, String.toList_map, List.map_map, htwice]

theorem Name.upper_ofEntry (entry : Bytes) : upper (ofEntry entry) = ofEntry entry :=
  upper_upper _

theorem Name.ofEntry_ofText (name : String) : ofEntry (Bytes.ofText name) = upper name := by
  rw [ofEntry, Utf8.decodeLossy_ofText, String.ofList_toList]

namespace Keyword

theorem name_of_ofName? {name : String} {keyword : Keyword} (h : ofName? name = some keyword) :
    keyword.name = Name.upper name := by
  simpa using List.find?_some h

theorem name_ne_of_ofName? {name : String} (h : ofName? name = none) (keyword : Keyword) :
    keyword.name ≠ Name.upper name := by
  simpa using List.find?_eq_none.mp h keyword (mem_all keyword)

theorem ofEntry_name (keyword : Keyword) :
    Name.ofEntry (Bytes.ofText keyword.name) = keyword.name := by
  have hascii : (Bytes.ofText keyword.name).all (· < 0x80) = true := by
    cases keyword <;> decide
  rw [← String.toList_inj, Name.ofEntry, Name.upper, String.toList_map, String.toList_ofList,
    Utf8.decodeLossy_of_ascii (by simpa using hascii)]
  cases keyword <;> decide

theorem upper_name (keyword : Keyword) : Name.upper keyword.name = keyword.name := by
  rw [← ofEntry_name, Name.upper_ofEntry]

theorem ofName?_name (keyword : Keyword) : ofName? keyword.name = some keyword := by
  unfold ofName?
  rw [upper_name]
  cases keyword <;> decide

end Keyword

/-! ## Entries -/

/-- The last change that switches the name disables it. -/
def Disabled (changes : List Change) (name : String) : Prop :=
  lastFor name (changes.flatMap Change.switches) = some false

/-- A name that is left to registrations. -/
def IsFree (changes : List Change) (name : String) : Prop :=
  ¬ Disabled changes name ∧ ∀ keyword : Keyword, name ≠ keyword.name

inductive Resolves (changes : List Change) : Option Bytes → Filler → Prop
  | untyped : Resolves changes none .standard
  | disabled {entry : Bytes} (h : Disabled changes (Name.ofEntry entry)) :
      Resolves changes (some entry) .standard
  | builtin {entry : Bytes} {keyword : Keyword} (h : ¬ Disabled changes (Name.ofEntry entry))
      (hname : Name.ofEntry entry = keyword.name) : Resolves changes (some entry) (.builtin keyword)
  | generator {entry : Bytes} {value : Generator} (h : IsFree changes (Name.ofEntry entry))
      (hlast : lastFor (Name.ofEntry entry) (changes.flatMap Change.generators) = some value) :
      Resolves changes (some entry) (.custom value)
  | charset {entry chars : Bytes} (h : IsFree changes (Name.ofEntry entry))
      (hno : lastFor (Name.ofEntry entry) (changes.flatMap Change.generators) = none)
      (hlast : lastFor (Name.ofEntry entry) (changes.flatMap Change.charsets) = some chars) :
      Resolves changes (some entry) (.charset chars)
  | unknown {entry : Bytes} (h : IsFree changes (Name.ofEntry entry))
      (hno : lastFor (Name.ofEntry entry) (changes.flatMap Change.generators) = none)
      (hnone : lastFor (Name.ofEntry entry) (changes.flatMap Change.charsets) = none) :
      Resolves changes (some entry) .standard

namespace Config

theorem filler_name {c : Config} (keyword : Keyword) (h : c.isEnabled keyword.name = true) :
    c.filler (some (Bytes.ofText keyword.name)) = .builtin keyword := by
  rw [filler, Keyword.ofEntry_name, fillerOfName, h, Keyword.ofName?_name]
  rfl

variable {changes : List Change}

theorem isEnabled_eq_false_iff {name : String} :
    (ofChanges changes).isEnabled name = false ↔ Disabled changes name := by
  rw [isEnabled_ofChanges, Disabled]
  cases lastFor name (changes.flatMap Change.switches) <;> simp

theorem resolves_some (entry : Bytes) :
    Resolves changes (some entry) ((ofChanges changes).fillerOfName (Name.ofEntry entry)) := by
  unfold fillerOfName
  split
  · rename_i hoff
    exact .disabled (isEnabled_eq_false_iff.mp (by simpa using hoff))
  · rename_i hon
    have hon : ¬ Disabled changes (Name.ofEntry entry) := by
      rw [← isEnabled_eq_false_iff]
      simpa using hon
    split
    · rename_i keyword hkeyword
      have hname := Keyword.name_of_ofName? hkeyword
      rw [Name.upper_ofEntry] at hname
      exact .builtin hon hname.symm
    · rename_i hnone
      have hfree : IsFree changes (Name.ofEntry entry) := by
        refine ⟨hon, ?_⟩
        intro keyword hname
        apply Keyword.name_ne_of_ofName? hnone keyword
        rw [Name.upper_ofEntry, hname]
      rw [generator?_ofChanges, charset?_ofChanges]
      split
      · rename_i value hvalue
        exact .generator hfree hvalue
      · rename_i hno
        split
        · rename_i chars hchars
          exact .charset hfree hno hchars
        · rename_i hnochars
          exact .unknown hfree hno hnochars

theorem resolves_filler (changes : List Change) (entry : Option Bytes) :
    Resolves changes entry ((ofChanges changes).filler entry) := by
  cases entry with
  | none => exact .untyped
  | some entry => exact resolves_some entry

end Config

end TagFill
