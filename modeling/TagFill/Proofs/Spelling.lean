import Mathlib.Data.List.Infix
import TagFill.Segment

/-! # The spellings of delimiters

Every spelling has one lead byte, in front, and no spelling is the start of another. So delimiters
never overlap, and at most one of them starts at a place.
-/

namespace TagFill

/-- `{`, `}`, `%` and `&`: the bytes that an opening or a closing delimiter may start with. -/
def isLead (b : UInt8) : Bool :=
  b == '{'.toUInt8 || b == '}'.toUInt8 || b == '%'.toUInt8 || b == '&'.toUInt8

/-- Nothing, or bytes with a lead byte in front. -/
def LeadFirst (b : Bytes) : Prop := ∀ x ∈ b.head?, isLead x = true

namespace Delimiter

variable {accepted accepted' : Dialects} {d d' : Delimiter} {s s' b rest : Bytes} {i : Nat}

/-- The spellings of all dialects, accepted or not. -/
def table : List (Delimiter × Bytes) :=
  all.flatMap fun d => (d, d.raw) :: Dialect.all.map fun dialect => (d, encoded dialect d)

theorem mem_spellings_iff :
    s ∈ d.spellings accepted ↔
      s = d.raw ∨ ∃ dialect, accepted.accepts dialect = true ∧ s = encoded dialect d := by
  simp only [spellings, List.mem_cons, List.mem_map, Dialects.mem_toList, eq_comm]

theorem raw_mem_spellings : d.raw ∈ d.spellings accepted := by
  rw [mem_spellings_iff]
  exact Or.inl rfl

theorem mem_table (h : s ∈ d.spellings accepted) : (d, s) ∈ table := by
  rcases mem_spellings_iff.mp h with rfl | ⟨dialect, -, rfl⟩
  · cases d <;> decide
  · cases d <;> cases dialect <;> decide

/-! ## The shape of a spelling -/

theorem table_tail : ∀ p ∈ table, p.2.tail.any isLead = false := by decide

theorem table_head : ∀ p ∈ table, p.1 ≠ .separator → p.2.head?.all isLead = true := by decide

theorem table_start : ∀ p ∈ table, ∀ q ∈ table, p.2 <+: q.2 → p = q := by decide

theorem isLead_tail (h : s ∈ d.spellings accepted) : ∀ x ∈ s.tail, isLead x = false := by
  have htail := table_tail _ (mem_table h)
  simpa using htail

theorem leadFirst_of_mem (hd : d ≠ .separator) (h : s ∈ d.spellings accepted) : LeadFirst s := by
  have hhead := table_head _ (mem_table h) hd
  rw [Option.all_eq_true] at hhead
  exact hhead

theorem leadFirst_append (hd : d ≠ .separator) (h : s ∈ d.spellings accepted) :
    LeadFirst (s ++ rest) := by
  have hs := leadFirst_of_mem hd h
  have hne := ne_nil_of_mem_spellings h
  obtain ⟨x, t, rfl⟩ := List.exists_cons_of_ne_nil hne
  exact hs

/-- Two spellings that start at one place are the same, and of the same delimiter. -/
theorem eq_of_start (h : s ∈ d.spellings accepted) (h' : s' ∈ d'.spellings accepted')
    (hb : s <+: b) (hb' : s' <+: b) : d = d' ∧ s = s' := by
  rcases List.prefix_or_prefix_of_prefix hb hb' with hp | hp
  · have := table_start _ (mem_table h) _ (mem_table h') hp
    simpa using this
  · have := table_start _ (mem_table h') _ (mem_table h) hp
    simpa [eq_comm] using this

theorem prefix_of_prefix_append {a : Bytes} (h : s ∈ d.spellings accepted) (ha : a ≠ [])
    (hb : LeadFirst b) (hp : s <+: a ++ b) : s <+: a := by
  rcases List.prefix_or_prefix_of_prefix hp (List.prefix_append a b) with hsa | ⟨t, rfl⟩
  · exact hsa
  · have htb : t <+: b := (List.prefix_append_right_inj a).mp hp
    cases t with
    | nil => simp
    | cons x t =>
      -- The spelling would have the lead byte of `b` in its tail.
      obtain ⟨r, rfl⟩ := htb
      have hlead : isLead x = true := hb x rfl
      have htail : x ∈ (a ++ x :: t).tail := by
        rw [List.tail_append_of_ne_nil ha]
        simp
      rw [isLead_tail h x htail] at hlead
      contradiction

/-! ## Places -/

/-- An accepted spelling of the delimiter starts at place `i`. -/
def BeginsAt (accepted : Dialects) (d : Delimiter) (b : Bytes) (i : Nat) : Prop :=
  ∃ s ∈ d.spellings accepted, s <+: b.drop i

instance : Decidable (BeginsAt accepted d b i) :=
  inferInstanceAs (Decidable (∃ s ∈ d.spellings accepted, s <+: b.drop i))

theorem BeginsAt.lt_length (h : d.BeginsAt accepted b i) : i < b.length := by
  obtain ⟨s, hs, hp⟩ := h
  by_contra hi
  rw [List.drop_eq_nil_of_le (by omega), List.prefix_nil] at hp
  exact ne_nil_of_mem_spellings hs hp

theorem beginsAt_append_right {a : Bytes} :
    d.BeginsAt accepted (a ++ b) (a.length + i) ↔ d.BeginsAt accepted b i := by
  unfold BeginsAt
  rw [List.drop_length_add_append]

theorem BeginsAt.append {a : Bytes} (h : d.BeginsAt accepted a i) :
    d.BeginsAt accepted (a ++ b) i := by
  have hi := h.lt_length
  obtain ⟨s, hs, hp⟩ := h
  refine ⟨s, hs, ?_⟩
  rw [List.drop_append_of_le_length (by omega)]
  exact hp.trans (List.prefix_append _ _)

theorem beginsAt_append_left {a : Bytes} (hi : i < a.length) (hb : LeadFirst b) :
    d.BeginsAt accepted (a ++ b) i ↔ d.BeginsAt accepted a i := by
  constructor
  · rintro ⟨s, hs, hp⟩
    rw [List.drop_append_of_le_length (by omega)] at hp
    have hne : a.drop i ≠ [] := by simp; omega
    exact ⟨s, hs, prefix_of_prefix_append hs hne hb hp⟩
  · exact BeginsAt.append

theorem not_beginsAt_of_head {a : Bytes}
    (h : ∀ s ∈ d.spellings accepted, ∀ x ∈ s.head?, x ∉ a) (hi : i < a.length) :
    ¬ d.BeginsAt accepted (a ++ b) i := by
  rintro ⟨s, hs, hp⟩
  obtain ⟨x, t, rfl⟩ := List.exists_cons_of_ne_nil (ne_nil_of_mem_spellings hs)
  rw [List.drop_append_of_le_length (by omega), List.drop_eq_getElem_cons hi, List.cons_append,
    List.cons_prefix_cons] at hp
  apply h _ hs x rfl
  rw [hp.1]
  exact List.getElem_mem hi

end Delimiter

end TagFill
