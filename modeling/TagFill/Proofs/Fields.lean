import TagFill.Tag.Body

/-! # What the fields of a tag declare

A length field declares lengths and a type field gives types. Both are said here of the bytes as
they are written, and a tag is read as just that.
-/

namespace TagFill

namespace Bytes

variable {sep x : UInt8} {b front after piece : Bytes}

/-! ## Cutting -/

theorem cut_cons_self : cut sep (sep :: b) = some ([], b) := by
  simp [cut]

theorem cut_cons_of_ne (h : x ≠ sep) :
    cut sep (x :: b) = (cut sep b).map fun parts => (x :: parts.1, parts.2) := by
  simp only [cut, List.dropWhile_cons, List.takeWhile_cons, bne_iff_ne, ne_eq, h,
    not_false_eq_true, if_true]
  cases b.dropWhile (· != sep) <;> rfl

theorem cut_append (h : sep ∉ front) : cut sep (front ++ sep :: after) = some (front, after) := by
  induction front with
  | nil => exact cut_cons_self
  | cons x front ih =>
    rw [List.mem_cons, not_or] at h
    rw [List.cons_append, cut_cons_of_ne (Ne.symm h.1), ih h.2]
    rfl

theorem cut_eq_none (h : sep ∉ b) : cut sep b = none := by
  induction b with
  | nil => rfl
  | cons x b ih =>
    rw [List.mem_cons, not_or] at h
    rw [cut_cons_of_ne (Ne.symm h.1), ih h.2]
    rfl

theorem exists_append_of_mem (h : sep ∈ b) :
    ∃ front after, b = front ++ sep :: after ∧ sep ∉ front := by
  obtain ⟨front, after, rfl, hfront⟩ := List.eq_append_cons_of_mem h
  exact ⟨front, after, rfl, hfront⟩

/-! ## Entries -/

theorem entries_cons_self : entries sep (sep :: b) = [] :: entries sep b := by
  simp [entries]

theorem entries_cons_of_ne (h : x ≠ sep) :
    ∃ first others,
      entries sep b = first :: others ∧ entries sep (x :: b) = (x :: first) :: others := by
  obtain ⟨first, others, hentries⟩ := List.exists_cons_of_ne_nil (entries_ne_nil sep b)
  exact ⟨first, others, hentries, by simp [entries, h, hentries]⟩

theorem length_entries (sep : UInt8) (b : Bytes) : (entries sep b).length = b.count sep + 1 := by
  induction b with
  | nil => rfl
  | cons x b ih =>
    by_cases h : x = sep
    · subst h
      simp [entries_cons_self, ih]
    · obtain ⟨first, others, hentries, hcons⟩ := entries_cons_of_ne (b := b) h
      rw [hentries] at ih
      rw [hcons, List.count_cons_of_ne h, ← ih]
      rfl

theorem flatMap_entries (sep : UInt8) (b : Bytes) :
    (entries sep b).flatMap (sep :: ·) = sep :: b := by
  induction b with
  | nil => rfl
  | cons x b ih =>
    by_cases h : x = sep
    · subst h
      rw [entries_cons_self, List.flatMap_cons, ih]
      rfl
    · obtain ⟨first, others, hentries, hcons⟩ := entries_cons_of_ne (b := b) h
      rw [hentries, List.flatMap_cons, List.cons_append, List.cons.injEq] at ih
      rw [hcons, List.flatMap_cons, List.cons_append, List.cons_append, ih.2]

theorem entries_of_not_mem (h : sep ∉ b) : entries sep b = [b] := by
  induction b with
  | nil => rfl
  | cons x b ih =>
    rw [List.mem_cons, not_or] at h
    obtain ⟨first, others, hentries, hcons⟩ := entries_cons_of_ne (b := b) (Ne.symm h.1)
    rw [ih h.2, List.cons.injEq] at hentries
    rw [hcons, ← hentries.1, ← hentries.2]

theorem entries_of_no_choice {on : Bool} (h : ¬ (on && b.contains sep) = true) :
    (if on then entries sep b else [b]) = [b] := by
  split
  · rename_i hon
    exact entries_of_not_mem (by simpa [hon] using h)
  · rfl

theorem mem_of_mem_entries (hpiece : piece ∈ entries sep b) (hx : x ∈ piece) : x ∈ b ∧ x ≠ sep := by
  induction b generalizing piece with
  | nil =>
    rw [entries, List.mem_singleton] at hpiece
    simp [hpiece] at hx
  | cons y b ih =>
    by_cases h : y = sep
    · subst h
      rw [entries_cons_self, List.mem_cons] at hpiece
      rcases hpiece with rfl | hpiece
      · simp at hx
      · obtain ⟨hmem, hne⟩ := ih hpiece hx
        exact ⟨List.mem_cons_of_mem y hmem, hne⟩
    · obtain ⟨first, others, hentries, hcons⟩ := entries_cons_of_ne (b := b) h
      rw [hcons, List.mem_cons] at hpiece
      rcases hpiece with rfl | hpiece
      · rcases List.mem_cons.mp hx with rfl | hx
        · exact ⟨List.mem_cons_self, h⟩
        · obtain ⟨hmem, hne⟩ := ih (by rw [hentries]; exact List.mem_cons_self) hx
          exact ⟨List.mem_cons_of_mem y hmem, hne⟩
      · obtain ⟨hmem, hne⟩ := ih (by rw [hentries]; exact List.mem_cons_of_mem first hpiece) hx
        exact ⟨List.mem_cons_of_mem y hmem, hne⟩

end Bytes

/-! ## Length fields -/

namespace LengthSpec

/-- A length that the field declares: one between the bounds of a range, or a valid entry. Without
choices the field is its only entry. -/
inductive Declares (rules : FieldRules) (field : Bytes) (n : Nat) : Prop
  | range {low high : Bytes} {a b : Nat} (hon : rules.ranges = true)
      (hfield : field = low ++ rangeMark :: high) (hlow : digits? low = some a)
      (hhigh : digits? high = some b) (hn : a ≤ n ∧ n ≤ b) (hmax : b ≤ rules.maxLength)
  | entry {piece : Bytes} (hoff : rules.ranges = true → rangeMark ∉ field)
      (hpiece : piece ∈ if rules.lengthChoices then Bytes.entries choiceMark field else [field])
      (hn : admitted? rules piece = some n)

/-- The declared lengths, or `none` where there are none. -/
def DeclaredAs (rules : FieldRules) (field : Bytes) : Option Nat → Prop
  | some n => Declares rules field n
  | none => ∀ n, ¬ Declares rules field n

/-- The lengths that may be used for a tag. -/
def Admits : LengthSpec → Option Nat → Prop
  | .absent, length => length = none
  | .fixed n, length => length = some n
  | .range low high, length => ∃ n, length = some n ∧ low ≤ n ∧ n ≤ high
  | .choice ns, length => ∃ n ∈ ns, length = some n

/-- A range is not empty and ends at two digits, and a choice is not empty. -/
def Proper : LengthSpec → Prop
  | .range low high => low ≤ high ∧ high ≤ 99
  | .choice ns => ns ≠ []
  | _ => True

variable {rules : FieldRules} {field low high : Bytes} {n a b : Nat}

theorem isDigit_of_digits? (h : digits? field = some n) : ∀ x ∈ field, Bytes.isDigit x = true := by
  unfold digits? at h
  split at h
  · split at h
    · simpa
    · contradiction
  · split at h
    · rename_i hdigits
      simpa using hdigits
    · contradiction
  · contradiction

theorem digits?_le (h : digits? field = some n) : n ≤ 99 := by
  have hdigits := isDigit_of_digits? h
  have hle : ∀ x ∈ field, x.toNat - 0x30 ≤ 9 := by
    intro x hx
    have hx := hdigits x hx
    rw [Bytes.isDigit, Bool.and_eq_true, decide_eq_true_eq, decide_eq_true_eq] at hx
    have hmax := UInt8.le_iff_toNat_le.mp hx.2
    have h39 : (0x39 : UInt8).toNat = 0x39 := rfl
    omega
  unfold digits? at h
  split at h
  · rename_i d
    have hd := hle d (by simp)
    split at h
    · cases h
      omega
    · contradiction
  · rename_i d e
    have hd := hle d (by simp)
    have he := hle e (by simp)
    split at h
    · cases h
      omega
    · contradiction
  · contradiction

theorem rangeMark_not_mem (h : digits? field = some n) : rangeMark ∉ field := by
  intro hmem
  have hdigit := isDigit_of_digits? h _ hmem
  contradiction

theorem range?_eq_some_iff {spec : LengthSpec} :
    range? rules low high = some spec ↔
      ∃ a b, digits? low = some a ∧ digits? high = some b ∧ a ≤ b ∧ b ≤ rules.maxLength ∧
        spec = .range a b := by
  unfold range?
  cases digits? low with
  | none => simp
  | some a =>
    cases digits? high with
    | none => simp
    | some b =>
      simp only [Option.bind_eq_bind, Option.bind_some, Option.some.injEq]
      by_cases h : a ≤ b ∧ b ≤ rules.maxLength
      · simp [h, eq_comm]
      · grind

theorem choice?_eq_some_iff {spec : LengthSpec} :
    choice? rules field = some spec ↔
      ∃ ns, ns ≠ [] ∧ (Bytes.entries choiceMark field).filterMap (admitted? rules) = ns ∧
        spec = .choice ns := by
  unfold choice?
  cases (Bytes.entries choiceMark field).filterMap (admitted? rules) with
  | nil =>
    constructor
    · intro h
      contradiction
    · rintro ⟨ns, hne, hns, -⟩
      exact absurd hns.symm hne
  | cons n ns =>
    rw [Option.some.injEq, eq_comm]
    constructor
    · intro h
      exact ⟨n :: ns, List.cons_ne_nil n ns, rfl, h⟩
    · rintro ⟨ns', -, rfl, h⟩
      exact h

theorem parse?_range (hon : rules.ranges = true) (hlow : rangeMark ∉ low) :
    parse? rules (low ++ rangeMark :: high) = range? rules low high := by
  unfold parse?
  rw [if_pos hon, Bytes.cut_append hlow]

theorem parse?_entries (hoff : rules.ranges = true → rangeMark ∉ field) :
    parse? rules field =
      if rules.lengthChoices && field.contains choiceMark then choice? rules field
      else (admitted? rules field).map .fixed := by
  unfold parse?
  split
  · rename_i low high hcut
    split at hcut
    · rename_i hon
      rw [Bytes.cut_eq_none (hoff hon)] at hcut
      contradiction
    · contradiction
  · rfl

theorem range_or_entries (rules : FieldRules) (field : Bytes) :
    (∃ low high, rules.ranges = true ∧ rangeMark ∉ low ∧ field = low ++ rangeMark :: high) ∨
      (rules.ranges = true → rangeMark ∉ field) := by
  by_cases h : rules.ranges = true ∧ rangeMark ∈ field
  · left
    obtain ⟨low, high, hfield, hlow⟩ := Bytes.exists_append_of_mem h.2
    exact ⟨low, high, h.1, hlow, hfield⟩
  · right
    intro hon hmem
    exact h ⟨hon, hmem⟩

theorem Declares.exists_parse? (h : Declares rules field n) :
    ∃ spec, parse? rules field = some spec ∧ spec.Admits (some n) := by
  cases h with
  | @range low high a b hon hfield hlow hhigh hn hmax =>
    refine ⟨.range a b, ?_, n, rfl, hn⟩
    rw [hfield, parse?_range hon (rangeMark_not_mem hlow), range?_eq_some_iff]
    exact ⟨a, b, hlow, hhigh, Nat.le_trans hn.1 hn.2, hmax, rfl⟩
  | @entry piece hoff hpiece hn =>
    rw [parse?_entries hoff]
    by_cases hchoice : (rules.lengthChoices && field.contains choiceMark) = true
    · rw [Bool.and_eq_true] at hchoice
      rw [if_pos hchoice.1] at hpiece
      have hmem : n ∈ (Bytes.entries choiceMark field).filterMap (admitted? rules) :=
        List.mem_filterMap.mpr ⟨piece, hpiece, hn⟩
      refine ⟨.choice _, ?_, n, hmem, rfl⟩
      rw [if_pos (by simpa using hchoice), choice?_eq_some_iff]
      exact ⟨_, List.ne_nil_of_mem hmem, rfl, rfl⟩
    · rw [Bytes.entries_of_no_choice hchoice, List.mem_singleton] at hpiece
      refine ⟨.fixed n, ?_, rfl⟩
      rw [if_neg hchoice, ← hpiece, hn, Option.map_some]

theorem declares_of_parse? {spec : LengthSpec} (h : parse? rules field = some spec)
    (hn : spec.Admits (some n)) : Declares rules field n := by
  rcases range_or_entries rules field with ⟨low, high, hon, hlow, hfield⟩ | hoff
  · rw [hfield, parse?_range hon hlow, range?_eq_some_iff] at h
    obtain ⟨a, b, ha, hb, -, hmax, rfl⟩ := h
    obtain ⟨_, ⟨⟩, hbetween⟩ := hn
    exact .range hon hfield ha hb hbetween hmax
  · rw [parse?_entries hoff] at h
    split at h
    · rename_i hchoice
      rw [Bool.and_eq_true] at hchoice
      obtain ⟨ns, -, hns, rfl⟩ := choice?_eq_some_iff.mp h
      obtain ⟨_, hmem, ⟨⟩⟩ := hn
      rw [← hns, List.mem_filterMap] at hmem
      obtain ⟨piece, hpiece, hvalue⟩ := hmem
      exact .entry hoff (by rwa [if_pos hchoice.1]) hvalue
    · rename_i hchoice
      obtain ⟨m, hvalue, rfl⟩ := Option.map_eq_some_iff.mp h
      cases hn
      refine .entry hoff ?_ hvalue
      rw [Bytes.entries_of_no_choice hchoice]
      exact List.mem_singleton_self field

theorem proper_of_parse? {spec : LengthSpec} (h : parse? rules field = some spec) :
    spec.Proper := by
  rcases range_or_entries rules field with ⟨low, high, hon, hlow, hfield⟩ | hoff
  · rw [hfield, parse?_range hon hlow, range?_eq_some_iff] at h
    obtain ⟨a, b, -, hb, hab, -, rfl⟩ := h
    exact ⟨hab, digits?_le hb⟩
  · rw [parse?_entries hoff] at h
    split at h
    · obtain ⟨ns, hne, -, rfl⟩ := choice?_eq_some_iff.mp h
      exact hne
    · obtain ⟨m, -, rfl⟩ := Option.map_eq_some_iff.mp h
      trivial

theorem Proper.exists_admits {spec : LengthSpec} (h : spec.Proper) (hne : spec ≠ .absent) :
    ∃ n, spec.Admits (some n) := by
  cases spec with
  | absent => contradiction
  | fixed n => exact ⟨n, rfl⟩
  | range low high => exact ⟨low, low, rfl, Nat.le_refl low, h.1⟩
  | choice ns =>
    obtain ⟨n, ns, rfl⟩ := List.exists_cons_of_ne_nil h
    exact ⟨n, n, List.mem_cons_self, rfl⟩

theorem parse_proper (rules : FieldRules) (field : Bytes) : (parse rules field).Proper := by
  unfold parse
  cases h : parse? rules field with
  | none => trivial
  | some spec => exact proper_of_parse? h

theorem admits_parse_some_iff : (parse rules field).Admits (some n) ↔ Declares rules field n := by
  unfold parse
  constructor
  · intro h
    cases hparse : parse? rules field with
    | none =>
      rw [hparse] at h
      contradiction
    | some spec =>
      rw [hparse] at h
      exact declares_of_parse? hparse h
  · intro h
    obtain ⟨spec, hparse, hn⟩ := h.exists_parse?
    rw [hparse]
    exact hn

theorem parse_eq_absent_iff : parse rules field = .absent ↔ ∀ n, ¬ Declares rules field n := by
  constructor
  · intro h n hn
    rw [← admits_parse_some_iff, h] at hn
    contradiction
  · intro h
    apply Decidable.byContradiction
    intro hne
    obtain ⟨n, hn⟩ := (parse_proper rules field).exists_admits hne
    exact h n (admits_parse_some_iff.mp hn)

/-- A length field is read as the lengths that it declares. -/
theorem admits_parse_iff {length : Option Nat} :
    (parse rules field).Admits length ↔ DeclaredAs rules field length := by
  cases length with
  | some n => exact admits_parse_some_iff
  | none =>
    change (parse rules field).Admits none ↔ ∀ n, ¬ Declares rules field n
    rw [← parse_eq_absent_iff]
    cases parse rules field <;> simp [Admits]

end LengthSpec

/-! ## Type fields -/

namespace TypeSpec

/-- What the field may be read as: one of its entries where choices apply, and nothing where it is
empty. -/
def Names (rules : FieldRules) (field : Bytes) : Option Bytes → Prop
  | some entry => field ≠ [] ∧
      entry ∈ if rules.typeChoices then Bytes.entries LengthSpec.choiceMark field else [field]
  | none => field = []

def Admits : TypeSpec → Option Bytes → Prop
  | .absent, entry => entry = none
  | .single name, entry => entry = some name
  | .choice names, entry => ∃ name ∈ names, entry = some name

variable {rules : FieldRules} {field : Bytes}

/-- A choice has two entries at least. -/
def Proper : TypeSpec → Prop
  | .choice names => 2 ≤ names.length
  | _ => True

theorem parse_proper (rules : FieldRules) (field : Bytes) : (parse rules field).Proper := by
  unfold parse
  split
  · trivial
  · split
    · rename_i hchoice
      rw [Bool.and_eq_true, List.contains_iff_mem] at hchoice
      have hcount := List.count_pos_iff.mpr hchoice.2
      change 2 ≤ (Bytes.entries LengthSpec.choiceMark field).length
      rw [Bytes.length_entries]
      omega
    · trivial

theorem admits_parse_iff {entry : Option Bytes} :
    (parse rules field).Admits entry ↔ Names rules field entry := by
  by_cases hempty : field = []
  · subst hempty
    cases entry <;> simp [parse, Admits, Names]
  · unfold parse
    rw [if_neg hempty]
    by_cases hchoice : (rules.typeChoices && field.contains LengthSpec.choiceMark) = true
    · rw [if_pos hchoice]
      rw [Bool.and_eq_true] at hchoice
      cases entry <;> simp [Admits, Names, hempty, hchoice.1]
    · rw [if_neg hchoice]
      cases entry with
      | none => simp [Admits, Names, hempty]
      | some name =>
        rw [Names, Bytes.entries_of_no_choice hchoice, List.mem_singleton]
        simp [Admits, hempty]

end TypeSpec

/-! ## Bodies -/

namespace TagBody

/-- The length and the type that a body without the long name gives. A lone field is a type only
where it declares no length. -/
inductive Says (rules : FieldRules) : Bytes → Option Nat → Option Bytes → Prop
  | bare : Says rules [] none none
  | both {length type : Bytes} {n : Option Nat} {entry : Option Bytes} (hcut : separator ∉ length)
      (hn : LengthSpec.DeclaredAs rules length n) (hentry : TypeSpec.Names rules type entry) :
      Says rules (separator :: (length ++ separator :: type)) n entry
  | lengthOnly {field : Bytes} {n : Nat} (hcut : separator ∉ field)
      (hn : LengthSpec.Declares rules field n) : Says rules (separator :: field) (some n) none
  | typeOnly {field : Bytes} {entry : Option Bytes} (hcut : separator ∉ field)
      (hno : ∀ n, ¬ LengthSpec.Declares rules field n) (hentry : TypeSpec.Names rules field entry) :
      Says rules (separator :: field) none entry

def Admits : TagBody → Option Nat → Option Bytes → Prop
  | .bare, n, entry => n = none ∧ entry = none
  | .malformed, _, _ => False
  | .fields length type, n, entry => length.Admits n ∧ type.Admits entry

variable {rules : FieldRules} {body fields : Bytes} {n : Option Nat} {entry : Option Bytes}

def Proper : TagBody → Prop
  | .fields length type => length.Proper ∧ type.Proper
  | _ => True

theorem parse_proper (rules : FieldRules) (body : Bytes) : (parse rules body).Proper := by
  unfold parse
  split
  · trivial
  · split
    · unfold parseFields
      split
      · exact ⟨LengthSpec.parse_proper .., TypeSpec.parse_proper ..⟩
      · split
        · exact ⟨trivial, TypeSpec.parse_proper ..⟩
        · exact ⟨LengthSpec.parse_proper .., trivial⟩
    · trivial

theorem withoutLongName_cases (body : Bytes) :
    ∃ long : Bool, body = (if long then longName else []) ++ withoutLongName body := by
  unfold withoutLongName
  cases h : longName.isPrefixOf? body with
  | none => exact ⟨false, rfl⟩
  | some rest => exact ⟨true, Bytes.isPrefixOf?_eq_some_iff.mp h⟩

theorem says_parseFields (h : (parseFields rules fields).Admits n entry) :
    Says rules (separator :: fields) n entry := by
  unfold parseFields at h
  by_cases hmem : separator ∈ fields
  · obtain ⟨length, type, rfl, hcut⟩ := Bytes.exists_append_of_mem hmem
    rw [Bytes.cut_append hcut] at h
    exact .both hcut (LengthSpec.admits_parse_iff.mp h.1) (TypeSpec.admits_parse_iff.mp h.2)
  · rw [Bytes.cut_eq_none hmem] at h
    dsimp only at h
    split at h
    · rename_i habsent
      obtain ⟨rfl, hentry⟩ := h
      exact .typeOnly hmem (LengthSpec.parse_eq_absent_iff.mp habsent)
        (TypeSpec.admits_parse_iff.mp hentry)
    · rename_i hpresent
      obtain ⟨hn, rfl⟩ := h
      cases n with
      | some n => exact .lengthOnly hmem (LengthSpec.admits_parse_iff.mp hn)
      | none =>
        have habsent := LengthSpec.parse_eq_absent_iff.mpr (LengthSpec.admits_parse_iff.mp hn)
        exact absurd habsent hpresent

theorem says_of_admits (h : (parse rules body).Admits n entry) :
    ∃ (long : Bool) (rest : Bytes),
      body = (if long then longName else []) ++ rest ∧ Says rules rest n entry := by
  obtain ⟨long, hbody⟩ := withoutLongName_cases body
  refine ⟨long, withoutLongName body, hbody, ?_⟩
  unfold parse at h
  split at h
  · rename_i hempty
    obtain ⟨rfl, rfl⟩ := h
    rw [hempty]
    exact .bare
  · rename_i first fields hfields
    split at h
    · rename_i hfirst
      rw [hfields, hfirst]
      exact says_parseFields h
    · exact h.elim

end TagBody

end TagFill
