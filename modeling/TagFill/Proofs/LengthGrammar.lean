import TagFill.Proofs.Shape

/-! # The grammar of a length field

A length field is a range, a choice or one length, and each of the three is said here of the bytes
as they are written. A field that is none of them declares nothing.
-/

namespace TagFill

/-! ## What stands between separators -/

namespace Bytes

variable {sep : UInt8} {b piece : Bytes} {pieces : List Bytes}

/-- The pieces that the separators cut the bytes into. -/
structure Separated (sep : UInt8) (b : Bytes) (pieces : List Bytes) : Prop where
  ne_nil : pieces ≠ []
  not_mem : ∀ piece ∈ pieces, sep ∉ piece
  joined : Bytes.joined [sep] pieces = b

theorem joined_cons (h : pieces ≠ []) :
    joined [sep] (piece :: pieces) = piece ++ sep :: joined [sep] pieces := by
  obtain ⟨next, others, rfl⟩ := List.exists_cons_of_ne_nil h
  simp [joined]

theorem joined_entries (sep : UInt8) (b : Bytes) : joined [sep] (entries sep b) = b := by
  induction b with
  | nil => rfl
  | cons x b ih =>
    by_cases h : x = sep
    · subst h
      rw [entries_cons_self, joined_cons (entries_ne_nil x b), ih]
      rfl
    · obtain ⟨first, others, hentries, hcons⟩ := entries_cons_of_ne (b := b) h
      rw [hentries] at ih
      rw [hcons]
      cases others with
      | nil => simpa [joined] using ih
      | cons next others => simpa [joined] using ih

theorem entries_append (h : sep ∉ piece) :
    entries sep (piece ++ sep :: b) = piece :: entries sep b := by
  induction piece with
  | nil => exact entries_cons_self
  | cons x piece ih =>
    simp only [List.mem_cons, not_or] at h
    obtain ⟨first, others, hentries, hcons⟩ :=
      entries_cons_of_ne (b := piece ++ sep :: b) (Ne.symm h.1)
    rw [ih h.2, List.cons.injEq] at hentries
    rw [List.cons_append, hcons, ← hentries.1, ← hentries.2]

theorem entries_joined (hne : pieces ≠ []) (h : ∀ piece ∈ pieces, sep ∉ piece) :
    entries sep (joined [sep] pieces) = pieces := by
  induction pieces with
  | nil => contradiction
  | cons piece pieces ih =>
    rw [List.forall_mem_cons] at h
    by_cases hlast : pieces = []
    · subst hlast
      exact entries_of_not_mem h.1
    · rw [joined_cons hlast, entries_append h.1, ih hlast h.2]

theorem entries_eq_iff : entries sep b = pieces ↔ Separated sep b pieces := by
  constructor
  · rintro rfl
    exact ⟨entries_ne_nil sep b, fun _ hpiece hmem => (mem_of_mem_entries hpiece hmem).2 rfl,
      joined_entries sep b⟩
  · rintro ⟨hne, hpieces, rfl⟩
    exact entries_joined hne hpieces

end Bytes

namespace LengthSpec

variable {rules : FieldRules} {field entry : Bytes} {entries : List Bytes} {ns : List Nat}
  {n a b : Nat}

/-! ## Numbers -/

/-- One or two digits that write `n`. -/
@[mk_iff numeral_iff]
structure Numeral (field : Bytes) (n : Nat) : Prop where
  length : field.length = 1 ∨ field.length = 2
  digits : ∀ d ∈ field, Bytes.isDigit d = true
  value : field.foldl (fun v d => 10 * v + (d.toNat - '0'.toNat)) 0 = n

/-- A length that may stand alone or in a choice. -/
def Valid (rules : FieldRules) (field : Bytes) (n : Nat) : Prop :=
  Numeral field n ∧ max rules.minLength 1 ≤ n ∧ n ≤ rules.maxLength

theorem digits?_eq_some_iff : digits? field = some n ↔ Numeral field n := by
  have hzero : '0'.toNat = 0x30 := rfl
  match field with
  | [] => simp [digits?, numeral_iff]
  | [d] => simp [digits?, numeral_iff, hzero]
  | [d, e] =>
    simp only [digits?, numeral_iff]
    simp [hzero, Nat.mul_comm 10, and_assoc]
  | d :: e :: f :: rest => simp [digits?, numeral_iff]

theorem admitted?_eq_some_iff : admitted? rules field = some n ↔ Valid rules field n := by
  simp [admitted?, Valid, digits?_eq_some_iff]

/-! ## The three forms -/

/-- Two numbers with the mark of a range between them. -/
def IsRange (rules : FieldRules) (field : Bytes) (a b : Nat) : Prop :=
  rules.ranges = true ∧
    (∃ low high, field = low ++ rangeMark :: high ∧ Numeral low a ∧ Numeral high b) ∧
    a ≤ b ∧ b ≤ rules.maxLength

/-- The numbers of the valid entries, in their order. -/
inductive Values (rules : FieldRules) : List Bytes → List Nat → Prop
  | nil : Values rules [] []
  | valid {entry : Bytes} {entries : List Bytes} {n : Nat} {ns : List Nat}
      (h : Valid rules entry n) (hrest : Values rules entries ns) :
      Values rules (entry :: entries) (n :: ns)
  | invalid {entry : Bytes} {entries : List Bytes} {ns : List Nat}
      (h : ∀ n, ¬ Valid rules entry n) (hrest : Values rules entries ns) :
      Values rules (entry :: entries) ns

/-- Entries between commas, with a valid one among them. -/
def IsChoice (rules : FieldRules) (field : Bytes) (ns : List Nat) : Prop :=
  (rules.ranges = false ∨ rangeMark ∉ field) ∧ rules.lengthChoices = true ∧ choiceMark ∈ field ∧
    ns ≠ [] ∧ ∃ entries, Bytes.Separated choiceMark field entries ∧ Values rules entries ns

inductive Form (rules : FieldRules) (field : Bytes) : LengthSpec → Prop
  | range {a b : Nat} (h : IsRange rules field a b) : Form rules field (.range a b)
  | choice {ns : List Nat} (h : IsChoice rules field ns) : Form rules field (.choice ns)
  | fixed {n : Nat} (h : Valid rules field n) : Form rules field (.fixed n)

theorem values_iff : Values rules entries ns ↔ entries.filterMap (admitted? rules) = ns := by
  constructor
  · intro h
    induction h with
    | nil => rfl
    | valid h _ ih => rw [List.filterMap_cons_some (admitted?_eq_some_iff.mpr h), ih]
    | @invalid entry _ _ h _ ih =>
      have hnone : admitted? rules entry = none := by
        simpa [Option.eq_none_iff_forall_ne_some, admitted?_eq_some_iff] using h
      rw [List.filterMap_cons_none hnone, ih]
  · rintro rfl
    induction entries with
    | nil => exact .nil
    | cons entry entries ih =>
      cases h : admitted? rules entry with
      | none =>
        rw [List.filterMap_cons_none h]
        refine .invalid (fun n hn => ?_) ih
        rw [admitted?_eq_some_iff.mpr hn] at h
        contradiction
      | some n =>
        rw [List.filterMap_cons_some h]
        exact .valid (admitted?_eq_some_iff.mp h) ih

theorem Numeral.not_mem {mark : UInt8} (h : Numeral field n) (hmark : Bytes.isDigit mark = false) :
    mark ∉ field := by
  intro hmem
  simp [h.digits mark hmem] at hmark

/-! ## What is read -/

theorem IsRange.parse? (h : IsRange rules field a b) : parse? rules field = some (.range a b) := by
  obtain ⟨hon, ⟨low, high, rfl, hlow, hhigh⟩, hab, hmax⟩ := h
  rw [parse?_range hon (hlow.not_mem rfl), range?_eq_some_iff]
  exact ⟨a, b, digits?_eq_some_iff.mpr hlow, digits?_eq_some_iff.mpr hhigh, hab, hmax, rfl⟩

theorem IsChoice.parse? (h : IsChoice rules field ns) : parse? rules field = some (.choice ns) := by
  obtain ⟨hoff, hon, hmem, hne, entries, hentries, hvalues⟩ := h
  rw [parse?_entries (by simpa [imp_iff_not_or] using hoff), if_pos (by simp [hon, hmem]),
    choice?_eq_some_iff]
  refine ⟨ns, hne, ?_, rfl⟩
  rw [Bytes.entries_eq_iff.mpr hentries, values_iff.mp hvalues]

theorem Valid.parse? (h : Valid rules field n) : parse? rules field = some (.fixed n) := by
  have hchoice : choiceMark ∉ field := h.1.not_mem rfl
  rw [parse?_entries fun _ => h.1.not_mem rfl, if_neg (by simp [hchoice]),
    admitted?_eq_some_iff.mpr h, Option.map_some]

theorem parse?_eq_some_iff {spec : LengthSpec} :
    parse? rules field = some spec ↔ Form rules field spec := by
  constructor
  · intro h
    -- The first mark of a range, where ranges are on, rules out the other two forms.
    rcases range_or_entries rules field with ⟨low, high, hon, hlow, hfield⟩ | hoff
    · rw [hfield, parse?_range hon hlow, range?_eq_some_iff] at h
      obtain ⟨a, b, ha, hb, hab, hmax, rfl⟩ := h
      have hnumerals := And.intro (digits?_eq_some_iff.mp ha) (digits?_eq_some_iff.mp hb)
      exact .range ⟨hon, ⟨low, high, hfield, hnumerals⟩, hab, hmax⟩
    · rw [parse?_entries hoff] at h
      split at h
      · rename_i hchoice
        simp only [Bool.and_eq_true, List.contains_iff_mem] at hchoice
        obtain ⟨ns, hne, hns, rfl⟩ := choice?_eq_some_iff.mp h
        have hcut := Bytes.entries_eq_iff.mp (Eq.refl (Bytes.entries choiceMark field))
        exact .choice ⟨by simpa [imp_iff_not_or] using hoff, hchoice.1, hchoice.2, hne, _, hcut,
          values_iff.mpr hns⟩
      · obtain ⟨n, hn, rfl⟩ := Option.map_eq_some_iff.mp h
        exact .fixed (admitted?_eq_some_iff.mp hn)
  · rintro (h | h | h)
    · exact h.parse?
    · exact h.parse?
    · exact h.parse?

theorem parse_eq_iff {spec : LengthSpec} (h : spec ≠ .absent) :
    parse rules field = spec ↔ Form rules field spec := by
  rw [← parse?_eq_some_iff]
  unfold parse
  cases parse? rules field with
  | none => simp [Ne.symm h]
  | some other => simp

theorem parse_eq_range_iff : parse rules field = .range a b ↔ IsRange rules field a b := by
  rw [parse_eq_iff (by simp)]
  exact ⟨fun | .range h => h, .range⟩

theorem parse_eq_choice_iff : parse rules field = .choice ns ↔ IsChoice rules field ns := by
  rw [parse_eq_iff (by simp)]
  exact ⟨fun | .choice h => h, .choice⟩

theorem parse_eq_fixed_iff : parse rules field = .fixed n ↔ Valid rules field n := by
  rw [parse_eq_iff (by simp)]
  exact ⟨fun | .fixed h => h, .fixed⟩

theorem parse_eq_absent_iff_no_form :
    parse rules field = .absent ↔ (∀ a b, ¬ IsRange rules field a b) ∧
      (∀ ns, ¬ IsChoice rules field ns) ∧ ∀ n, ¬ Valid rules field n := by
  simp only [← parse_eq_range_iff, ← parse_eq_choice_iff, ← parse_eq_fixed_iff]
  cases parse rules field <;> simp

/-! ## What is resolved -/

theorem Declares.le (h : Declares rules field n) : n ≤ min rules.maxLength 99 := by
  cases h with
  | range hon hfield hlow hhigh hn hmax =>
    have htwo := digits?_le hhigh
    omega
  | entry hoff hpiece hn =>
    obtain ⟨hnumeral, -, hmax⟩ := admitted?_eq_some_iff.mp hn
    have htwo := digits?_le (digits?_eq_some_iff.mpr hnumeral)
    omega

theorem declaredAs_run {length : Option Nat} {s : Source}
    (h : ((parse rules field).draw.run s).1 = .ok length) : DeclaredAs rules field length := by
  have hread := Draw.read_of_run (Prod.ext h rfl)
  rw [← admits_parse_iff, ← hread]
  exact admits_draw (parse_proper rules field) s.stream

/-- A field is read as the form that it has. What it comes to is at most 99 and at most the greatest
length, and it comes to nothing just where no form is there. Only a source that refuses keeps it
from coming to anything. -/
theorem parse_grammar (rules : FieldRules) (field : Bytes) :
    (∀ a b, parse rules field = .range a b ↔ IsRange rules field a b) ∧
    (∀ ns, parse rules field = .choice ns ↔ IsChoice rules field ns) ∧
    (∀ n, parse rules field = .fixed n ↔ Valid rules field n) ∧
    (parse rules field = .absent ↔ (∀ a b, ¬ IsRange rules field a b) ∧
      (∀ ns, ¬ IsChoice rules field ns) ∧ ∀ n, ¬ Valid rules field n) ∧
    ∀ s : Source,
      (∀ n, ((parse rules field).draw.run s).1 = .ok (some n) → n ≤ min rules.maxLength 99) ∧
      (((parse rules field).draw.run s).1 = .ok none ↔ parse rules field = .absent) ∧
      (s.allowance = none → ∃ length, ((parse rules field).draw.run s).1 = .ok length) := by
  refine ⟨fun _ _ => parse_eq_range_iff, fun _ => parse_eq_choice_iff, fun _ => parse_eq_fixed_iff,
    parse_eq_absent_iff_no_form, fun s => ⟨?_, ?_, ?_⟩⟩
  · intro n h
    exact (declaredAs_run h).le
  · constructor
    · intro h
      exact parse_eq_absent_iff.mpr (declaredAs_run h)
    · intro h
      rw [h]
      rfl
  · obtain ⟨stream, calls, allowance⟩ := s
    rintro rfl
    exact ⟨_, congrArg Prod.fst (Draw.run_unlimited _ stream calls)⟩

/-- Only two entries of five may be declared, and they are the same. -/
theorem parse_grammar_repeated :
    let field := Bytes.ofText "00,7,007,100,07"
    IsChoice {} field [7, 7] ∧
      ∃ n, ((parse {} field).draw.run (.scripted [9] none)).1 = .ok (some n) ∧ n ≤ 99 := by
  intro field
  obtain ⟨-, hchoice, -, -, hresolve⟩ := parse_grammar {} field
  obtain ⟨hle, hnone, hreturns⟩ := hresolve (.scripted [9] none)
  have hparse : parse {} field = .choice [7, 7] := by decide
  refine ⟨(hchoice _).mp hparse, ?_⟩
  obtain ⟨length, hlength⟩ := hreturns rfl
  cases length with
  | none =>
    rw [hnone.mp hlength] at hparse
    contradiction
  | some n => exact ⟨n, hlength, hle n hlength⟩

end LengthSpec

end TagFill
