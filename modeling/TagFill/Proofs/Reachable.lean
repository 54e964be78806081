import TagFill.Proofs.Completeness
import TagFill.Proofs.Cutting
import TagFill.Proofs.NameCase

/-! # Registered names can be used

A generator that is registered under a name is called by the tag that gives this name, with the
length that the tag declares. The name may look like a length, a range or several fields: only what
ends a tag, what starts an encoded delimiter, and the mark of a choice are kept out of it.
-/

namespace TagFill

/-! ## Names in a type field -/

/-- A name that can be the only entry of a type field. -/
structure FieldRules.Writable (rules : FieldRules) (name : String) : Prop where
  ne_empty : name ≠ ""
  no_close : '}' ∉ name.toList
  no_percent : '%' ∉ name.toList
  no_amp : '&' ∉ name.toList
  no_comma : rules.typeChoices = true → ',' ∉ name.toList

section

variable {x d : Char} {b : UInt8} {name written : String} {rules : FieldRules}

theorem Name.toUpper_eq_iff (hx : x.isAlpha = false) : d.toUpper = x ↔ d = x := by
  obtain ⟨hupper, hlower⟩ := Bool.or_eq_false_iff.mp hx
  unfold Char.toUpper
  split
  · -- Only letters change, and they become letters.
    rename_i h
    have hbounds : 'a'.val.toNat = 97 ∧ 'z'.val.toNat = 122 ∧ 'A'.val.toNat = 65 ∧
        'Z'.val.toNat = 90 ∧ ('A'.val - 'a'.val).toNat = 4294967264 := by decide
    constructor
    · rintro rfl
      have hnot : ¬ (d.val + ('A'.val - 'a'.val) ≥ 'A'.val ∧
        d.val + ('A'.val - 'a'.val) ≤ 'Z'.val) := of_decide_eq_false hupper
      simp only [ge_iff_le, UInt32.le_iff_toNat_le, UInt32.toNat_add] at hnot h
      omega
    · rintro rfl
      have hd : d.isLower = true :=
        Bool.and_eq_true_iff.mpr ⟨decide_eq_true h.1, decide_eq_true h.2⟩
      rw [hd] at hlower
      contradiction
  · rfl

theorem Name.mem_of_upper_eq (hx : x.isAlpha = false) (h : upper written = upper name) :
    x ∈ written.toList → x ∈ name.toList := by
  have hmem (s : String) : x ∈ (upper s).toList ↔ x ∈ s.toList := by
    simp [upper, String.toList_map, toUpper_eq_iff hx]
  rw [← hmem, h, hmem]
  exact id

theorem FieldRules.Writable.recased (h : rules.Writable name)
    (hcase : Name.upper written = Name.upper name) : rules.Writable written where
  ne_empty := by
    rintro rfl
    have hnil := congrArg String.toList hcase
    simp [Name.upper, String.toList_map] at hnil
    exact h.ne_empty (by simpa using hnil)
  no_close hmem := h.no_close (Name.mem_of_upper_eq (by decide) hcase hmem)
  no_percent hmem := h.no_percent (Name.mem_of_upper_eq (by decide) hcase hmem)
  no_amp hmem := h.no_amp (Name.mem_of_upper_eq (by decide) hcase hmem)
  no_comma hon hmem := h.no_comma hon (Name.mem_of_upper_eq (by decide) hcase hmem)

theorem Utf8.toNat_of_mem_encodeChar (h : b ∈ String.utf8EncodeChar d) (hb : b < 0x80) :
    d.toNat = b.toNat := by
  obtain ⟨lead, t, hencode, -, hscalar⟩ := exists_isSequence d
  have hlt : b.toNat < 128 := UInt8.lt_iff_toNat_lt.mp hb
  rw [encodeChar_of_mem_ascii h hb, List.cons.injEq] at hencode
  obtain ⟨rfl, rfl⟩ := hencode
  rw [← hscalar, scalar_one, Nat.mod_eq_of_lt hlt]

theorem Utf8.mem_of_mem_ofText (h : b ∈ Bytes.ofText written) (hb : b < 0x80)
    (hx : x.toNat = b.toNat) : x ∈ written.toList := by
  obtain ⟨d, hd, hmem⟩ := List.mem_flatMap.mp h
  have hnat := toNat_of_mem_encodeChar hmem hb
  have hdx : d = x := Char.toNat_inj.mp (hnat.trans hx.symm)
  rwa [← hdx]

/-! ## The tag that gives the name -/

theorem FieldRules.Writable.plain (h : rules.Writable name) :
    ∀ x ∈ Bytes.ofText name, x ≠ '}'.toUInt8 ∧ x ≠ '%'.toUInt8 ∧ x ≠ '&'.toUInt8 := by
  intro x hx
  refine ⟨?_, ?_, ?_⟩
  · rintro rfl
    exact h.no_close (Utf8.mem_of_mem_ofText hx (by decide) rfl)
  · rintro rfl
    exact h.no_percent (Utf8.mem_of_mem_ofText hx (by decide) rfl)
  · rintro rfl
    exact h.no_amp (Utf8.mem_of_mem_ofText hx (by decide) rfl)

theorem FieldRules.Writable.parse (h : rules.Writable name) :
    TypeSpec.parse rules (Bytes.ofText name) = .single (Bytes.ofText name) := by
  have hne : Bytes.ofText name ≠ [] := mt Utf8.ofText_eq_nil_iff.mp h.ne_empty
  have hcomma : ¬ (rules.typeChoices && (Bytes.ofText name).contains LengthSpec.choiceMark) =
      true := by
    intro hchoice
    rw [Bool.and_eq_true, List.contains_iff_mem] at hchoice
    exact h.no_comma hchoice.1 (Utf8.mem_of_mem_ofText hchoice.2 (by decide) rfl)
  unfold TypeSpec.parse
  rw [if_neg hne, if_neg hcomma]

theorem LengthSpec.Numeral.plainField {field : Bytes} {n : Nat} (h : Numeral field n) :
    PlainField field := by
  intro x hx
  refine ⟨?_, ?_, ?_, ?_⟩ <;>
  · rintro rfl
    exact h.not_mem rfl hx

namespace Config

end Config

end

end TagFill
