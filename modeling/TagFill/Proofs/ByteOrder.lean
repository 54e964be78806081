import Mathlib.Data.List.Lex
import TagFill.Proofs.Decoding
import TagFill.Proofs.Registration
import TagFill.Proofs.Sound

/-! # Registries in byte order

A registry holds its entries in the order of the bytes of their names, so of several names that
differ in ASCII case one comes last.
-/

namespace TagFill

variable {α : Type}

/-! ## The order of texts -/

/-- Where the two differ first, `a` has the lower byte, or it ends there. -/
def Bytes.Before (a b : Bytes) : Prop := List.Lex (fun x y : UInt8 => x < y) a b

namespace Utf8

theorem encodeChar_cases (c : Char) :
    (c.toNat < 0x80 ∧ String.utf8EncodeChar c = [c.toNat].map UInt8.ofNat) ∨
    (0x80 ≤ c.toNat ∧ c.toNat < 0x800 ∧ String.utf8EncodeChar c =
      [c.toNat / 64 + 192, c.toNat % 64 + 128].map UInt8.ofNat) ∨
    (0x800 ≤ c.toNat ∧ c.toNat < 0x10000 ∧ String.utf8EncodeChar c =
      [c.toNat / 64 / 64 + 224, c.toNat / 64 % 64 + 128, c.toNat % 64 + 128].map UInt8.ofNat) ∨
    (0x10000 ≤ c.toNat ∧ c.toNat < 0x110000 ∧ String.utf8EncodeChar c =
      [c.toNat / 64 / 64 / 64 + 240, c.toNat / 64 / 64 % 64 + 128, c.toNat / 64 % 64 + 128,
        c.toNat % 64 + 128].map UInt8.ofNat) := by
  have hvalid : c.toNat < 0xD800 ∨ (0xDFFF < c.toNat ∧ c.toNat < 0x110000) := c.valid
  have hval : c.val.toNat = c.toNat := rfl
  unfold String.utf8EncodeChar
  simp only [hval]
  split
  · exact .inl ⟨by omega, rfl⟩
  · split
    · rw [Nat.mod_eq_of_lt (by omega : c.toNat / 64 < 32)]
      exact .inr (.inl ⟨by omega, by omega, rfl⟩)
    · split
      · rw [Nat.mod_eq_of_lt (by omega : c.toNat / 4096 < 16), ← Nat.div_div_eq_div_mul _ 64 64]
        exact .inr (.inr (.inl ⟨by omega, by omega, rfl⟩))
      · rw [Nat.mod_eq_of_lt (by omega : c.toNat / 262144 < 8), ← Nat.div_div_eq_div_mul _ 4096 64,
          ← Nat.div_div_eq_div_mul _ 64 64]
        exact .inr (.inr (.inr ⟨by omega, by omega, rfl⟩))

theorem before_encodeChar {c d : Char} (h : c.toNat < d.toNat) (cs ds : Bytes) :
    Bytes.Before (String.utf8EncodeChar c ++ cs) (String.utf8EncodeChar d ++ ds) := by
  unfold Bytes.Before
  rcases encodeChar_cases c with ⟨hc, ec⟩ | ⟨hc, hc', ec⟩ | ⟨hc, hc', ec⟩ | ⟨hc, hc', ec⟩ <;>
  rcases encodeChar_cases d with ⟨hd, ed⟩ | ⟨hd, hd', ed⟩ | ⟨hd, hd', ed⟩ | ⟨hd, hd', ed⟩ <;>
  · simp only [ec, ed, List.map_cons, List.map_nil, List.cons_append, List.nil_append,
      List.cons_lex_cons_iff, UInt8.lt_iff_toNat_lt, ← UInt8.toNat_inj, UInt8.toNat_ofNat']
    omega

/-- UTF-8 keeps the order of texts. -/
theorem before_ofText {s t : String} (h : s < t) : (Bytes.ofText s).Before (Bytes.ofText t) := by
  have hlex : List.Lex (fun c d : Char => c < d) s.toList t.toList := h
  unfold Bytes.ofText
  generalize s.toList = cs at hlex ⊢
  generalize t.toList = ds at hlex ⊢
  induction hlex with
  | @nil d ds =>
    obtain ⟨lead, t, hencode, -, -⟩ := exists_isSequence d
    rw [List.flatMap_nil, List.flatMap_cons, hencode]
    exact .nil
  | rel h => exact before_encodeChar h _ _
  | cons _ ih =>
    rw [List.flatMap_cons, List.flatMap_cons]
    exact List.Lex.append_left _ ih _

end Utf8

namespace Registry

variable {r : Registry α} {name other : String} {value later : α}

/-! ## Insertion -/

theorem insert_insert (r : Registry α) (name : String) (value later : α) :
    (r.insert name value).insert name later = r.insert name later := by
  apply Registry.ext
  change insertEntry name later (insertEntry name value r.entries) =
    insertEntry name later r.entries
  induction r.entries with
  | nil => simp [insertEntry]
  | cons entry rest ih =>
    obtain ⟨k, v⟩ := entry
    grind [insertEntry]

theorem insert_comm (r : Registry α) (h : name ≠ other) (value later : α) :
    (r.insert name value).insert other later = (r.insert other later).insert name value := by
  apply Registry.ext
  change insertEntry other later (insertEntry name value r.entries) =
    insertEntry name value (insertEntry other later r.entries)
  induction r.entries with
  | nil => grind [insertEntry]
  | cons entry rest ih =>
    obtain ⟨k, v⟩ := entry
    grind [insertEntry]

theorem insertAll_insert {regs : List (String × α)}
    (h : name ∈ regs.map fun reg => Name.upper reg.1) (r : Registry α) (value : α) :
    (r.insert name value).insertAll regs = r.insertAll regs := by
  induction regs generalizing r with
  | nil => simp at h
  | cons reg regs ih =>
    obtain ⟨other, later⟩ := reg
    change ((r.insert name value).insert (Name.upper other) later).insertAll regs =
      (r.insert (Name.upper other) later).insertAll regs
    by_cases hname : name = Name.upper other
    · rw [hname, insert_insert]
    · rw [insert_comm r hname]
      apply ih
      simpa [hname] using h

theorem insertAll_insertAll_of_subset {front regs : List (String × α)}
    (h : ∀ reg ∈ front, reg ∈ regs) (r : Registry α) :
    (r.insertAll front).insertAll regs = r.insertAll regs := by
  induction front generalizing r with
  | nil => rfl
  | cons reg front ih =>
    rw [List.forall_mem_cons] at h
    have hname := List.mem_map_of_mem (f := fun reg => Name.upper reg.1) h.1
    calc
      _ = (r.insert (Name.upper reg.1) reg.2).insertAll regs := ih h.2 _
      _ = r.insertAll regs := insertAll_insert hname r reg.2

theorem insertAll_insertAll (r : Registry α) (regs : List (String × α)) :
    (r.insertAll regs).insertAll regs = r.insertAll regs :=
  insertAll_insertAll_of_subset (fun _ h => h) r

/-! ## The last of several names -/

theorem before (r : Registry α) :
    r.entries.Pairwise fun a b => (Bytes.ofText a.1).Before (Bytes.ofText b.1) :=
  r.ordered.imp Utf8.before_ofText

/-- Of all entries whose names are the given one in some ASCII case, this one comes last. -/
structure IsLast (r : Registry α) (name : String) (entry : String × α) : Prop where
  mem : entry ∈ r.entries
  upper : Name.upper entry.1 = Name.upper name
  last : ∀ other ∈ r.entries, Name.upper other.1 = Name.upper name →
    other = entry ∨ (Bytes.ofText other.1).Before (Bytes.ofText entry.1)

theorem isLast_or (r : Registry α) (name : String) :
    (∃ entry, r.IsLast name entry ∧ lastFor name r.entries = some entry.2) ∨
      (∀ entry ∈ r.entries, Name.upper entry.1 ≠ Name.upper name) ∧
        lastFor name r.entries = none := by
  cases hlast : (r.entries.filter fun reg => Name.upper reg.1 = Name.upper name).getLast? with
  | none =>
    have hnone : lastFor name r.entries = none := Option.map_eq_none_iff.mpr hlast
    exact .inr ⟨lastFor_eq_none_iff.mp hnone, hnone⟩
  | some entry =>
    obtain ⟨front, hfront⟩ := List.getLast?_eq_some_iff.mp hlast
    have hordered := r.before.filter fun reg => decide (Name.upper reg.1 = Name.upper name)
    rw [hfront, List.pairwise_append] at hordered
    have hmem (other : String × α) : other ∈ front ∨ other = entry ↔
        other ∈ r.entries ∧ Name.upper other.1 = Name.upper name := by
      simpa using (Iff.of_eq (congrArg (other ∈ ·) hfront)).symm
    obtain ⟨hentry, hupper⟩ := (hmem entry).mp (.inr rfl)
    refine .inl ⟨entry, ⟨hentry, hupper, ?_⟩, Option.map_eq_some_iff.mpr ⟨entry, hlast, rfl⟩⟩
    intro other hother hname
    obtain hother | rfl := (hmem other).mpr ⟨hother, hname⟩
    · exact .inr (hordered.2.2 other hother entry (by simp))
    · exact .inl rfl

end Registry

end TagFill
