import Mathlib.Data.List.TakeWhile
import TagFill.Text.Utf8

/-! # Reading UTF-8

The UTF-8 form of a text is read as that text. In any other bytes, what is below `80` is read as
itself, and nothing that is read from the rest is ASCII.
-/

namespace TagFill.Utf8

variable {lead second x y : UInt8} {t b rest : Bytes}

/-! ## Bytes as numbers -/

theorem width_eq (lead : UInt8) :
    width lead =
      if lead.toNat < 0x80 then 1 else if lead.toNat < 0xC2 then 0 else if lead.toNat < 0xE0 then 2
      else if lead.toNat < 0xF0 then 3 else if lead.toNat < 0xF5 then 4 else 0 := by
  simp only [width, UInt8.lt_iff_toNat_lt]
  rfl

theorem width_le (lead : UInt8) : width lead ≤ 4 := by
  rw [width_eq]
  repeat' split
  all_goals omega

theorem width_eq_one_iff : width lead = 1 ↔ lead.toNat < 0x80 := by
  rw [width_eq]
  repeat' split
  all_goals omega

theorem width_eq_two_iff : width lead = 2 ↔ 0xC2 ≤ lead.toNat ∧ lead.toNat < 0xE0 := by
  rw [width_eq]
  repeat' split
  all_goals omega

theorem width_eq_three_iff : width lead = 3 ↔ 0xE0 ≤ lead.toNat ∧ lead.toNat < 0xF0 := by
  rw [width_eq]
  repeat' split
  all_goals omega

theorem width_eq_four_iff : width lead = 4 ↔ 0xF0 ≤ lead.toNat ∧ lead.toNat < 0xF5 := by
  rw [width_eq]
  repeat' split
  all_goals omega

theorem isContinuation_iff : isContinuation x = true ↔ 0x80 ≤ x.toNat ∧ x.toNat ≤ 0xBF := by
  simp only [isContinuation, Bool.and_eq_true, decide_eq_true_eq, UInt8.le_iff_toNat_le]
  rfl

theorem not_isContinuation_of_ascii (h : x < 0x80) : isContinuation x = false := by
  have hlt : x.toNat < 128 := UInt8.lt_iff_toNat_lt.mp h
  rw [← Bool.not_eq_true, isContinuation_iff]
  omega

theorem le_of_isContinuation (h : isContinuation x = true) : 0x80 ≤ x :=
  UInt8.le_iff_toNat_le.mpr (isContinuation_iff.mp h).1

theorem secondAllowed_iff :
    secondAllowed lead second = true ↔
      isContinuation second = true ∧
        (lead.toNat = 0xE0 → 0xA0 ≤ second.toNat) ∧ (lead.toNat = 0xED → second.toNat ≤ 0x9F) ∧
        (lead.toNat = 0xF0 → 0x90 ≤ second.toNat) ∧ (lead.toNat = 0xF4 → second.toNat ≤ 0x8F) := by
  have hE0 : lead = 0xE0 ↔ lead.toNat = 0xE0 := UInt8.toNat_inj.symm
  have hED : lead = 0xED ↔ lead.toNat = 0xED := UInt8.toNat_inj.symm
  have hF0 : lead = 0xF0 ↔ lead.toNat = 0xF0 := UInt8.toNat_inj.symm
  have hF4 : lead = 0xF4 ↔ lead.toNat = 0xF4 := UInt8.toNat_inj.symm
  simp only [secondAllowed, hE0, hED, hF0, hF4]
  repeat' split
  all_goals
    simp [isContinuation, UInt8.le_iff_toNat_le]
    omega

theorem scalar_one : scalar lead [] = lead.toNat % 128 := rfl

theorem scalar_two : scalar lead [second] = lead.toNat % 32 * 64 + second.toNat % 64 := rfl

theorem scalar_three :
    scalar lead [second, x] = (lead.toNat % 16 * 64 + second.toNat % 64) * 64 + x.toNat % 64 := rfl

theorem scalar_four :
    scalar lead [second, x, y] =
      ((lead.toNat % 8 * 64 + second.toNat % 64) * 64 + x.toNat % 64) * 64 + y.toNat % 64 := rfl

/-! ## Whole characters -/

/-- `lead` and the bytes of `t` behind it make up one character. -/
structure IsSequence (lead : UInt8) (t : Bytes) : Prop where
  width : width lead = t.length + 1
  second : ∀ x ∈ t.head?, secondAllowed lead x = true
  others : ∀ x ∈ t.tail, isContinuation x = true

theorem IsSequence.continues (h : IsSequence lead t) (hx : x ∈ t) :
    isContinuation x = true := by
  obtain ⟨-, hsecond, hothers⟩ := h
  cases t with
  | nil => simp at hx
  | cons second others =>
    rcases List.mem_cons.mp hx with rfl | hx
    · exact (secondAllowed_iff.mp (hsecond x rfl)).1
    · exact hothers x hx

theorem IsSequence.tail_append (h : IsSequence lead t) : tail lead (t ++ rest) = t := by
  have htake : (t ++ rest).take (Utf8.width lead - 1) = t := by
    rw [h.width, Nat.add_sub_cancel, List.take_left]
  unfold tail
  rw [htake]
  cases t with
  | nil => rfl
  | cons second others =>
    have hothers : ∀ x ∈ others, isContinuation x = true := h.others
    simp only [h.second second rfl, if_true, List.takeWhile_eq_self_iff.mpr hothers]

theorem IsSequence.next_append (h : IsSequence lead t) (rest : Bytes) :
    next lead (t ++ rest) = (some (Char.ofNat (scalar lead t)), rest) := by
  rw [next, h.tail_append, if_pos h.width, List.drop_left]

theorem next_of_ascii (h : x < 0x80) (rest : Bytes) :
    next x rest = (some (Char.ofNat x.toNat), rest) := by
  have hlt : x.toNat < 128 := UInt8.lt_iff_toNat_lt.mp h
  have hsequence : IsSequence x [] := ⟨width_eq_one_iff.mpr hlt, by simp, by simp⟩
  have hnext := hsequence.next_append rest
  rwa [scalar_one, Nat.mod_eq_of_lt hlt] at hnext

theorem decodeLossy_of_ascii (h : ∀ x ∈ b, x < 0x80) :
    decodeLossy b = b.map fun x => Char.ofNat x.toNat := by
  induction b with
  | nil => rw [decodeLossy]; rfl
  | cons x b ih =>
    rw [List.forall_mem_cons] at h
    rw [decodeLossy, next_of_ascii h.1, ih h.2]
    rfl

theorem exists_isSequence (c : Char) :
    ∃ lead t, String.utf8EncodeChar c = lead :: t ∧ IsSequence lead t ∧
      scalar lead t = c.toNat := by
  have hvalid : c.toNat < 0xD800 ∨ (0xDFFF < c.toNat ∧ c.toNat < 0x110000) := c.valid
  have hbyte (n : Nat) (h : n < 256) : (UInt8.ofNat n).toNat = n := UInt8.toNat_ofNat_of_lt' h
  have hval : c.val.toNat = c.toNat := rfl
  unfold String.utf8EncodeChar
  simp only [hval]
  split
  · have hlead := hbyte c.toNat (by omega)
    refine ⟨_, [], rfl, ⟨width_eq_one_iff.mpr ?_, by simp, by simp⟩, scalar_one.trans ?_⟩
    · omega
    · omega
  · split
    · have hlead := hbyte (c.toNat / 64 % 32 + 192) (by omega)
      have hsecond := hbyte (c.toNat % 64 + 128) (by omega)
      refine ⟨_, [_], rfl, ⟨width_eq_two_iff.mpr ?_, ?_, by simp⟩, scalar_two.trans ?_⟩
      · omega
      · rintro _ ⟨⟩
        rw [secondAllowed_iff, isContinuation_iff]
        omega
      · omega
    · split
      · have hlead := hbyte (c.toNat / 4096 % 16 + 224) (by omega)
        have hsecond := hbyte (c.toNat / 64 % 64 + 128) (by omega)
        have hthird := hbyte (c.toNat % 64 + 128) (by omega)
        refine ⟨_, [_, _], rfl, ⟨width_eq_three_iff.mpr ?_, ?_, ?_⟩, scalar_three.trans ?_⟩
        · omega
        · rintro _ ⟨⟩
          rw [secondAllowed_iff, isContinuation_iff]
          omega
        · simp only [List.tail_cons, List.forall_mem_singleton, isContinuation_iff]
          omega
        · omega
      · have hlead := hbyte (c.toNat / 262144 % 8 + 240) (by omega)
        have hsecond := hbyte (c.toNat / 4096 % 64 + 128) (by omega)
        have hthird := hbyte (c.toNat / 64 % 64 + 128) (by omega)
        have hfourth := hbyte (c.toNat % 64 + 128) (by omega)
        refine ⟨_, [_, _, _], rfl, ⟨width_eq_four_iff.mpr ?_, ?_, ?_⟩, scalar_four.trans ?_⟩
        · omega
        · rintro _ ⟨⟩
          rw [secondAllowed_iff, isContinuation_iff]
          omega
        · simp only [List.tail_cons, List.mem_cons, List.not_mem_nil, or_false, forall_eq_or_imp,
            forall_eq, isContinuation_iff]
          omega
        · omega

theorem decodeLossy_encodeChar (c : Char) (rest : Bytes) :
    decodeLossy (String.utf8EncodeChar c ++ rest) = c :: decodeLossy rest := by
  obtain ⟨lead, t, hencode, hsequence, hscalar⟩ := exists_isSequence c
  rw [hencode, List.cons_append, decodeLossy, hsequence.next_append, hscalar, Char.ofNat_toNat]
  rfl

theorem decodeLossy_ofText (s : String) : decodeLossy (Bytes.ofText s) = s.toList := by
  unfold Bytes.ofText
  induction s.toList with
  | nil => rw [List.flatMap_nil, decodeLossy]
  | cons c cs ih => rw [List.flatMap_cons, decodeLossy_encodeChar, ih]

theorem ofText_eq_nil_iff {s : String} : Bytes.ofText s = [] ↔ s = "" := by
  constructor
  · intro h
    have hchars := decodeLossy_ofText s
    rw [h, decodeLossy] at hchars
    exact String.toList_eq_nil_iff.mp hchars.symm
  · rintro rfl
    rfl

/-! ## Parts of characters -/

theorem secondAllowed_of_mem_tail (h : second ∈ (tail lead rest).head?) :
    secondAllowed lead second = true := by
  unfold tail at h
  split at h
  · contradiction
  · split at h
    · cases h
      assumption
    · contradiction

theorem le_scalar_tail (hlead : 0x80 ≤ lead) (hwidth : width lead = (tail lead rest).length + 1) :
    0x80 ≤ scalar lead (tail lead rest) := by
  have hle := width_le lead
  have hlead : 0x80 ≤ lead.toNat := UInt8.le_iff_toNat_le.mp hlead
  have hsecond : ∀ second ∈ (tail lead rest).head?, secondAllowed lead second = true :=
    fun _ => secondAllowed_of_mem_tail
  generalize tail lead rest = t at *
  match t, hwidth with
  | [], hwidth =>
    have := width_eq_one_iff.mp hwidth
    omega
  | [second], hwidth =>
    have := width_eq_two_iff.mp hwidth
    rw [scalar_two]
    omega
  | [second, x], hwidth =>
    have := width_eq_three_iff.mp hwidth
    have hallowed := secondAllowed_iff.mp (hsecond second rfl)
    rw [isContinuation_iff] at hallowed
    rw [scalar_three]
    omega
  | [second, x, y], hwidth =>
    have := width_eq_four_iff.mp hwidth
    have hallowed := secondAllowed_iff.mp (hsecond second rfl)
    rw [isContinuation_iff] at hallowed
    rw [scalar_four]
    omega
  | _ :: _ :: _ :: _ :: _, hwidth =>
    simp only [List.length_cons] at hwidth
    omega

end TagFill.Utf8
