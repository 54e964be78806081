import TagFill.Proofs.Decoding
import TagFill.Proofs.Splitting

/-! # Cutting UTF-8

A byte below `80` is a whole character wherever it stands in UTF-8. Delimiters are spelled with such
bytes alone, so the segments of a text are texts again, whatever characters stand around them.
-/

namespace TagFill

namespace Bytes

variable {α : Type} {a b : Bytes}

def IsAscii (b : Bytes) : Prop := ∀ x ∈ b, x < 0x80

instance (b : Bytes) : Decidable (IsAscii b) := List.decidableBAll (fun x => x < 0x80) b

theorem isAscii_append : IsAscii (a ++ b) ↔ IsAscii a ∧ IsAscii b := List.forall_mem_append

theorem isAscii_flatMap {f : α → Bytes} {items : List α} (h : ∀ item ∈ items, IsAscii (f item)) :
    IsAscii (items.flatMap f) := by
  intro x hx
  obtain ⟨item, hitem, hx⟩ := List.mem_flatMap.mp hx
  exact h item hitem x hx

theorem isAscii_joined {sep : Bytes} {pieces : List Bytes} (hsep : IsAscii sep)
    (h : ∀ piece ∈ pieces, IsAscii piece) : IsAscii (joined sep pieces) := by
  induction pieces using joined.induct with
  | case1 => simp [joined, IsAscii]
  | case2 piece => exact h piece List.mem_cons_self
  | case3 piece others hne ih =>
    rw [List.forall_mem_cons] at h
    rw [joined, isAscii_append, isAscii_append]
    · exact ⟨⟨h.1, hsep⟩, ih h.2⟩
    · exact hne

end Bytes

open Bytes (IsAscii isAscii_append isAscii_flatMap)

namespace Utf8

variable {x : UInt8} {c : Char} {a b : Bytes}

theorem encodeChar_of_mem_ascii (h : x ∈ String.utf8EncodeChar c) (hx : x < 0x80) :
    String.utf8EncodeChar c = [x] := by
  obtain ⟨lead, t, hencode, hsequence, -⟩ := exists_isSequence c
  rw [hencode, List.mem_cons] at h
  rw [hencode]
  rcases h with rfl | h
  · have hlength := hsequence.width
    rw [width_eq_one_iff.mpr (UInt8.lt_iff_toNat_lt.mp hx)] at hlength
    have hnil : t = [] := List.length_eq_zero_iff.mp (by omega)
    rw [hnil]
  · have hcontinuation := hsequence.continues h
    rw [not_isContinuation_of_ascii hx] at hcontinuation
    contradiction

theorem encodeChar_of_ascii (hx : x < 0x80) :
    String.utf8EncodeChar (Char.ofNat x.toNat) = [x] := by
  have hall : ∀ n < 128, String.utf8EncodeChar (Char.ofNat n) = [UInt8.ofNat n] := by decide +kernel
  have hencode := hall x.toNat (UInt8.lt_iff_toNat_lt.mp hx)
  rwa [UInt8.ofNat_toNat] at hencode

/-! ## Valid bytes -/

theorem valid_iff : Valid b ↔ ∃ cs : List Char, b = cs.flatMap String.utf8EncodeChar := by
  constructor
  · rintro ⟨s, rfl⟩
    exact ⟨s.toList, rfl⟩
  · rintro ⟨cs, rfl⟩
    exact ⟨String.ofList cs, by rw [Bytes.ofText, String.toList_ofList]⟩

theorem valid_encodeChar (c : Char) : Valid (String.utf8EncodeChar c) :=
  valid_iff.mpr ⟨[c], (List.flatMap_singleton ..).symm⟩

theorem valid_nil : Valid [] := valid_iff.mpr ⟨[], rfl⟩

theorem Valid.append (ha : Valid a) (hb : Valid b) : Valid (a ++ b) := by
  rw [valid_iff] at *
  obtain ⟨cs, rfl⟩ := ha
  obtain ⟨ds, rfl⟩ := hb
  exact ⟨cs ++ ds, List.flatMap_append.symm⟩

theorem valid_of_isAscii (h : IsAscii b) : Valid b := by
  induction b with
  | nil => exact valid_nil
  | cons x b ih =>
    rw [IsAscii, List.forall_mem_cons] at h
    have hx := valid_encodeChar (Char.ofNat x.toNat)
    rw [encodeChar_of_ascii h.1] at hx
    exact hx.append (ih h.2)

/-- Valid bytes may be cut in front of an ASCII byte. -/
theorem Valid.cut (h : Valid (a ++ b)) (hb : ∀ x ∈ b.head?, x < 0x80) : Valid a ∧ Valid b := by
  obtain ⟨cs, hcs⟩ := valid_iff.mp h
  induction cs generalizing a with
  | nil =>
    obtain ⟨rfl, rfl⟩ := List.append_eq_nil_iff.mp hcs
    exact ⟨valid_nil, valid_nil⟩
  | cons c cs ih =>
    rw [List.flatMap_cons] at hcs
    rcases List.append_eq_append_iff.mp hcs with ⟨back, hchar, hb'⟩ | ⟨front, rfl, hrest⟩
    · cases back with
      | nil =>
        rw [List.append_nil] at hchar
        rw [← hchar, hb']
        exact ⟨valid_encodeChar c, valid_iff.mpr ⟨cs, rfl⟩⟩
      | cons x back =>
        -- The cut would be in a character, but the byte behind it is one by itself.
        have hx : x < 0x80 := hb x (by rw [hb']; rfl)
        have hsingle := encodeChar_of_mem_ascii (x := x) (c := c) (by rw [hchar]; simp) hx
        have hnil : a = [] := by
          have hlength := congrArg List.length (hchar.symm.trans hsingle)
          simp only [List.length_append, List.length_cons, List.length_nil] at hlength
          exact List.length_eq_zero_iff.mp (by omega)
        subst hnil
        exact ⟨valid_nil, h⟩
    · have hvalid : Valid (front ++ b) := valid_iff.mpr ⟨cs, hrest.symm⟩
      obtain ⟨hfront, hb⟩ := ih hvalid hrest.symm
      exact ⟨(valid_encodeChar c).append hfront, hb⟩

theorem Valid.drop_ascii (h : Valid (a ++ b)) (ha : IsAscii a) : Valid b := by
  induction a with
  | nil => exact h
  | cons x a ih =>
    rw [IsAscii, List.forall_mem_cons] at ha
    obtain ⟨cs, hcs⟩ := valid_iff.mp h
    cases cs with
    | nil => simp at hcs
    | cons c cs =>
      obtain ⟨lead, t, hencode, -⟩ := exists_isSequence c
      rw [List.flatMap_cons, hencode, List.cons_append, List.cons_append, List.cons.injEq] at hcs
      obtain ⟨rfl, hrest⟩ := hcs
      have hsingle := encodeChar_of_mem_ascii (by rw [hencode]; exact List.mem_cons_self) ha.1
      rw [hencode, List.cons.injEq] at hsingle
      rw [hsingle.2, List.nil_append] at hrest
      exact ih (valid_iff.mpr ⟨cs, hrest⟩) ha.2

theorem Valid.flatMap {g : UInt8 → Bytes} (hlow : ∀ x < 0x80, IsAscii (g x))
    (hhigh : ∀ x, 0x80 ≤ x → g x = [x]) (h : Valid b) : Valid (b.flatMap g) := by
  have hchar (c : Char) : Valid ((String.utf8EncodeChar c).flatMap g) := by
    by_cases hascii : ∃ x ∈ String.utf8EncodeChar c, x < 0x80
    · obtain ⟨x, hmem, hx⟩ := hascii
      rw [encodeChar_of_mem_ascii hmem hx, List.flatMap_singleton]
      exact valid_of_isAscii (hlow x hx)
    · have hsame : (String.utf8EncodeChar c).flatMap g = String.utf8EncodeChar c := by
        rw [List.flatMap_congr (g := fun x => [x]), List.flatMap_singleton']
        intro x hx
        exact hhigh x (UInt8.not_lt.mp fun hlt => hascii ⟨x, hx, hlt⟩)
      rw [hsame]
      exact valid_encodeChar c
  obtain ⟨cs, rfl⟩ := valid_iff.mp h
  induction cs with
  | nil => exact valid_nil
  | cons c cs ih =>
    rw [List.flatMap_cons, List.flatMap_append]
    exact (hchar c).append (ih (valid_iff.mpr ⟨cs, rfl⟩))

end Utf8

open Utf8 (Valid valid_of_isAscii)

/-! ## Segments -/

section

variable {accepted : Dialects} {d : Delimiter} {payload tag s b : Bytes}

theorem Delimiter.table_ascii : ∀ p ∈ table, IsAscii p.2 := by decide

theorem Delimiter.isAscii_spelling (h : s ∈ d.spellings accepted) : IsAscii s :=
  table_ascii _ (mem_table h)

theorem Utf8.Valid.cut_spelling {a : Bytes} (h : Valid (a ++ (s ++ b)))
    (hs : s ∈ d.spellings accepted) : Valid a ∧ Valid b := by
  have hascii := Delimiter.isAscii_spelling hs
  have hhead : ∀ x ∈ (s ++ b).head?, x < 0x80 := by
    obtain ⟨x, t, rfl⟩ := List.exists_cons_of_ne_nil (Delimiter.ne_nil_of_mem_spellings hs)
    rintro _ ⟨⟩
    exact hascii x List.mem_cons_self
  obtain ⟨ha, hsb⟩ := h.cut hhead
  exact ⟨ha, hsb.drop_ascii hascii⟩

theorem IsTag.valid {before after : Bytes} (h : IsTag accepted tag)
    (hvalid : Valid (before ++ tag ++ after)) : Valid before ∧ Valid tag ∧ Valid after := by
  obtain ⟨o, ho, interior, c, hc, rfl, -⟩ := h
  have hopen : Valid (before ++ (o ++ (interior ++ (c ++ after)))) := by simpa using hvalid
  obtain ⟨hbefore, hrest⟩ := hopen.cut_spelling ho
  obtain ⟨hinterior, hafter⟩ := hrest.cut_spelling hc
  have ho := valid_of_isAscii (Delimiter.isAscii_spelling ho)
  have hc := valid_of_isAscii (Delimiter.isAscii_spelling hc)
  exact ⟨hbefore, (ho.append hinterior).append hc, hafter⟩

theorem valid_literals (h : Valid b) : ∀ seg ∈ Segment.literals b, Valid seg.bytes := by
  unfold Segment.literals
  split
  · simp
  · simpa [Segment.bytes] using h

theorem valid_segments (h : Valid payload) :
    ∀ seg ∈ segments accepted payload, Valid seg.bytes := by
  induction payload using firstTag?_induction accepted with
  | whole b hb =>
    rw [segments_of_firstTag?_none hb]
    exact valid_literals h
  | step f hbefore htag ih =>
    obtain ⟨hliteral, hspelling, hafter⟩ := htag.valid h
    rw [segments_of_firstTag?_some (firstTag?_eq_some_iff.mpr ⟨rfl, hbefore, htag⟩),
      List.forall_mem_append, List.forall_mem_cons]
    exact ⟨valid_literals hliteral, hspelling, ih hafter⟩

end

end TagFill
