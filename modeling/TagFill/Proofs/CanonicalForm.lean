import TagFill.Canonical
import TagFill.Proofs.Splitting

/-! # What the canonical form keeps

The canonical form is made piece by piece: it can be cut in front of every lead byte. It has the
delimiters that the bytes have, at the same places between the same bytes, and no others. So
splitting a payload and taking the canonical form can be done in either order.
-/

namespace TagFill

namespace Canonical

variable {accepted : Dialects} {dialect : Dialect} {d d' : Delimiter} {a b s w rest : Bytes}
  {f : Found}

/-! ## Encoded delimiters -/

theorem encoded_mem_spellings (h : accepted.accepts dialect = true) :
    Delimiter.encoded dialect d ∈ d.spellings accepted :=
  Delimiter.mem_spellings_iff.mpr (Or.inr ⟨dialect, h, rfl⟩)

theorem encodedAt?_eq_none_iff :
    encodedAt? accepted b = none ↔
      ∀ d dialect, accepted.accepts dialect = true → ¬ Delimiter.encoded dialect d <+: b := by
  refine findSome?_start_eq_none_iff.trans ?_
  constructor
  · intro h d dialect hacc
    exact h (d, Delimiter.encoded dialect d) (mem_spellings.mpr ⟨dialect, hacc, rfl⟩)
  · rintro h ⟨d, s⟩ hs
    obtain ⟨dialect, hacc, rfl⟩ := mem_spellings.mp hs
    exact h d dialect hacc

theorem encodedAt?_append (h : encodedAt? accepted b = some (d, rest)) :
    ∃ dialect, accepted.accepts dialect = true ∧ b = Delimiter.encoded dialect d ++ rest := by
  obtain ⟨⟨d', s⟩, hmem, hfound⟩ := List.exists_of_findSome?_eq_some h
  obtain ⟨after, hafter, heq⟩ := Option.map_eq_some_iff.mp hfound
  cases heq
  obtain ⟨dialect, hacc, rfl⟩ := mem_spellings.mp hmem
  exact ⟨dialect, hacc, Bytes.isPrefixOf?_eq_some_iff.mp hafter⟩

theorem encodedAt?_encoded (h : accepted.accepts dialect = true) :
    encodedAt? accepted (Delimiter.encoded dialect d ++ rest) = some (d, rest) := by
  refine findSome?_start_append ?_ (mem_spellings.mpr ⟨dialect, h, rfl⟩)
  rintro ⟨d, s⟩ hs ⟨d', s'⟩ hs' hpre
  obtain ⟨dialect, hacc, rfl⟩ := mem_spellings.mp hs
  obtain ⟨dialect', hacc', rfl⟩ := mem_spellings.mp hs'
  have heq := Delimiter.eq_of_start (encoded_mem_spellings hacc) (encoded_mem_spellings hacc') hpre
    (List.prefix_refl _)
  exact Prod.ext heq.1 heq.2

/-! ## Revising piece by piece -/

@[simp] theorem revise_nil : revise accepted [] = [] := by
  rw [revise]
  split
  · rename_i hat
    have := encodedAt?_length hat
    simp at this
  · rfl

theorem revise_encoded (h : accepted.accepts dialect = true) :
    revise accepted (Delimiter.encoded dialect d ++ rest) = d.raw ++ revise accepted rest := by
  rw [revise]
  split
  · rename_i d' rest' hat
    rw [encodedAt?_encoded h, Option.some.injEq, Prod.mk.injEq] at hat
    rw [hat.1, hat.2]
  · rename_i hat
    rw [encodedAt?_encoded h] at hat
    contradiction

theorem revise_cons {x : UInt8} (h : encodedAt? accepted (x :: b) = none) :
    revise accepted (x :: b) = x :: revise accepted b := by
  rw [revise]
  split
  · rename_i hat
    rw [h] at hat
    contradiction
  · rfl

theorem revise_induction (accepted : Dialects) {motive : Bytes → Prop} (nil : motive [])
    (encoded : ∀ d dialect rest, accepted.accepts dialect = true → motive rest →
      motive (Delimiter.encoded dialect d ++ rest))
    (byte : ∀ x rest, encodedAt? accepted (x :: rest) = none → motive rest → motive (x :: rest))
    (b : Bytes) : motive b := by
  induction b using revise.induct accepted with
  | case1 b d rest h ih =>
    obtain ⟨dialect, hacc, rfl⟩ := encodedAt?_append h
    exact encoded d dialect rest hacc ih
  | case2 => exact nil
  | case3 x rest h ih => exact byte x rest h ih

/-- Somewhere in the bytes stands an encoded delimiter of an accepted dialect. -/
def Occurs (accepted : Dialects) (b : Bytes) : Prop :=
  ∃ dialect d, accepted.accepts dialect = true ∧ Delimiter.encoded dialect d <:+: b

theorem revise_of_not_occurs (h : ¬ Occurs accepted b) : revise accepted b = b := by
  induction b with
  | nil => exact revise_nil
  | cons x b ih =>
    have hat : encodedAt? accepted (x :: b) = none := by
      rw [encodedAt?_eq_none_iff]
      intro d dialect hacc hpre
      exact h ⟨dialect, d, hacc, hpre.isInfix⟩
    rw [revise_cons hat, ih]
    rintro ⟨dialect, d, hacc, hin⟩
    exact h ⟨dialect, d, hacc, hin.trans (List.suffix_cons x b).isInfix⟩

theorem revise_append (hb : LeadFirst b) :
    revise accepted (a ++ b) = revise accepted a ++ revise accepted b := by
  induction a using revise_induction accepted with
  | nil => simp
  | encoded d dialect rest hacc ih =>
    rw [List.append_assoc, revise_encoded hacc, revise_encoded hacc, ih, List.append_assoc]
  | byte x rest h ih =>
    have hat : encodedAt? accepted (x :: (rest ++ b)) = none := by
      rw [encodedAt?_eq_none_iff] at h ⊢
      intro d dialect hacc hpre
      exact h d dialect hacc (Delimiter.prefix_of_prefix_append (encoded_mem_spellings hacc)
        (List.cons_ne_nil x rest) hb hpre)
    rw [List.cons_append, revise_cons hat, revise_cons h, ih, List.cons_append]

/-! ## What is not revised -/

/-- `%` and `&`, one of which every encoded delimiter starts with. -/
def isEscape (b : UInt8) : Bool := b == '%'.toUInt8 || b == '&'.toUInt8

theorem head_encoded (dialect : Dialect) (d : Delimiter) :
    ∃ x t, Delimiter.encoded dialect d = x :: t ∧ isEscape x = true := by
  cases dialect <;> cases d <;> exact ⟨_, _, rfl, by decide⟩

theorem isEscape_raw : ∀ x ∈ d.raw, isEscape x = false := by
  have h : d.raw.any isEscape = false := by cases d <;> decide
  simpa using h

theorem encodedAt?_cons_of_not_isEscape {x : UInt8} (h : isEscape x = false) :
    encodedAt? accepted (x :: b) = none := by
  rw [encodedAt?_eq_none_iff]
  rintro d dialect - ⟨rest, hrest⟩
  obtain ⟨y, t, hy, hescape⟩ := head_encoded dialect d
  rw [hy] at hrest
  obtain ⟨rfl, -⟩ := List.cons.inj hrest
  rw [h] at hescape
  contradiction

theorem revise_append_of_not_isEscape (h : ∀ x ∈ w, isEscape x = false) :
    revise accepted (w ++ b) = w ++ revise accepted b := by
  induction w with
  | nil => rfl
  | cons x w ih =>
    have hx := h x List.mem_cons_self
    have hw := ih fun y hy => h y (List.mem_cons_of_mem x hy)
    rw [List.cons_append, revise_cons (encodedAt?_cons_of_not_isEscape hx), hw, List.cons_append]

theorem revise_spelling (h : s ∈ d.spellings accepted) :
    revise accepted (s ++ b) = d.raw ++ revise accepted b := by
  rcases Delimiter.mem_spellings_iff.mp h with rfl | ⟨dialect, hacc, rfl⟩
  · exact revise_append_of_not_isEscape isEscape_raw
  · exact revise_encoded hacc

theorem not_occurs_of_not_mayRevise (h : mayRevise accepted b = false) : ¬ Occurs accepted b := by
  rintro ⟨dialect, d, hacc, hin⟩
  simp only [mayRevise, Bool.and_eq_false_iff, bne_eq_false_iff_eq] at h
  rcases h with rfl | h
  · cases dialect <;> simp [Dialects.accepts, Dialects.rawOnly] at hacc
  · obtain ⟨x, t, hx, hescape⟩ := head_encoded dialect d
    have hmem : x ∈ b := hin.subset (by rw [hx]; exact List.mem_cons_self)
    have hnone := List.any_eq_false.mp h x hmem
    exact hnone hescape

theorem revise_of_not_mayRevise (h : mayRevise accepted b = false) : revise accepted b = b :=
  revise_of_not_occurs (not_occurs_of_not_mayRevise h)

end Canonical

theorem canonical_eq_revise (accepted : Dialects) (b : Bytes) :
    canonical accepted b = Canonical.revise accepted b := by
  unfold canonical canonicalise
  split
  · rfl
  · rename_i h
    rw [Bool.not_eq_true] at h
    exact (Canonical.revise_of_not_mayRevise h).symm

/-! ## The delimiters of the canonical form -/

namespace Canonical

variable {accepted : Dialects} {d d' : Delimiter} {b s w rest tag : Bytes} {f : Found}

theorem raw_head (d d' : Delimiter) :
    ∀ x ∈ d.raw.head?, x ∈ d'.raw → d = d' ∧ x ∉ d'.raw.tail := by
  cases d <;> cases d' <;> (rintro x ⟨⟩; decide)

theorem exists_raw_cons (d : Delimiter) : ∃ x t, d.raw = x :: t :=
  List.exists_cons_of_ne_nil d.raw_ne_nil

theorem spellings_rawOnly : d.spellings .rawOnly = [d.raw] := by
  cases d <;> rfl

theorem beginsAt_rawOnly_zero : d.BeginsAt .rawOnly b 0 ↔ d.raw <+: b := by
  simp [Delimiter.BeginsAt, spellings_rawOnly]

theorem prefix_of_prefix_revise (hw : ∀ x ∈ w, ∀ d : Delimiter, d.raw.head? ≠ some x)
    (h : w <+: revise accepted b) : w <+: b := by
  induction w generalizing b with
  | nil => exact List.nil_prefix
  | cons x w ih =>
    have hx := hw x List.mem_cons_self
    induction b using revise_induction accepted with
    | nil => simp at h
    | encoded d dialect rest hacc _ =>
      obtain ⟨y, t, hy⟩ := exists_raw_cons d
      rw [revise_encoded hacc, hy, List.cons_append, List.cons_prefix_cons] at h
      exact absurd (by rw [hy, h.1]; rfl) (hx d)
    | byte y rest hat _ =>
      rw [revise_cons hat, List.cons_prefix_cons] at h
      rw [List.cons_prefix_cons]
      exact ⟨h.1, ih (fun z hz => hw z (List.mem_cons_of_mem x hz)) h.2⟩

/-- What starts with a raw spelling after the revision started with an accepted one before it. -/
theorem prefix_revise_iff : d.raw <+: revise accepted b ↔ d.BeginsAt accepted b 0 := by
  constructor
  · intro h
    obtain ⟨y, t, hy⟩ := exists_raw_cons d
    induction b using revise_induction accepted with
    | nil =>
      rw [revise_nil, List.prefix_nil] at h
      exact absurd h d.raw_ne_nil
    | encoded d' dialect rest hacc _ =>
      obtain ⟨z, t', hz⟩ := exists_raw_cons d'
      rw [revise_encoded hacc, hy, hz, List.cons_append, List.cons_prefix_cons] at h
      have hmem : y ∈ d'.raw := by simp [hz, h.1]
      obtain ⟨rfl, -⟩ := raw_head d d' y (by simp [hy]) hmem
      exact ⟨_, encoded_mem_spellings hacc, List.prefix_append _ _⟩
    | byte x rest hat _ =>
      rw [revise_cons hat, hy, List.cons_prefix_cons] at h
      have ht : t <+: rest := by
        apply prefix_of_prefix_revise _ h.2
        intro z hz d' hhead
        obtain ⟨rfl, htail⟩ := raw_head d' d z hhead (by rw [hy]; exact List.mem_cons_of_mem y hz)
        rw [hy] at htail
        exact htail hz
      refine ⟨d.raw, Delimiter.raw_mem_spellings, ?_⟩
      rw [hy, List.drop_zero, List.cons_prefix_cons]
      exact ⟨h.1, ht⟩
  · rintro ⟨s, hs, after, hafter⟩
    rw [List.drop_zero] at hafter
    rw [← hafter, revise_spelling hs]
    exact List.prefix_append _ _

/-- Revising creates no delimiter. -/
theorem find?_revise_eq_none (h : d.find? accepted b = none) :
    d.find? .rawOnly (revise accepted b) = none := by
  induction b using revise_induction accepted with
  | nil =>
    rw [revise_nil]
    rfl
  | encoded d' dialect rest hacc ih =>
    -- Another delimiter is written raw, and the raw spelling of `d` does not start in it.
    rw [Delimiter.find?_eq_none_iff] at h
    have hne : d ≠ d' := by
      rintro rfl
      exact h 0 ⟨_, encoded_mem_spellings hacc, List.prefix_append _ _⟩
    have hrest : d.find? accepted rest = none := by
      rw [Delimiter.find?_eq_none_iff]
      intro i hi
      exact h _ (Delimiter.beginsAt_append_right.mpr hi)
    have hhead : ∀ s ∈ d.spellings .rawOnly, ∀ x ∈ s.head?, x ∉ d'.raw := by
      intro s hs x hx hmem
      rw [spellings_rawOnly, List.mem_singleton] at hs
      rw [hs] at hx
      exact hne (raw_head d d' x hx hmem).1
    rw [revise_encoded hacc, Delimiter.find?_append_of_head hhead, ih hrest]
    rfl
  | byte x rest hat ih =>
    rw [Delimiter.find?_eq_none_iff] at h
    have hrest : d.find? accepted rest = none := by
      rw [Delimiter.find?_eq_none_iff]
      intro i hi
      exact h (i + 1) hi
    -- A raw spelling that started at `x` would have stood there before.
    have hpass : ¬ d.BeginsAt .rawOnly (x :: revise accepted rest) 0 := by
      rw [beginsAt_rawOnly_zero, ← revise_cons hat, prefix_revise_iff]
      exact h 0
    rw [revise_cons hat, Delimiter.find?_cons_of_not_beginsAt hpass, ih hrest]
    rfl

theorem find?_revise_eq_some (hd : d ≠ .separator) (h : d.find? accepted b = some f) :
    d.find? .rawOnly (revise accepted b) =
      some ⟨revise accepted f.before, d.raw, revise accepted f.after⟩ := by
  rw [Delimiter.find?_eq_some_iff hd] at h ⊢
  obtain ⟨hs, happ, hbefore⟩ := h
  refine ⟨Delimiter.raw_mem_spellings, ?_, find?_revise_eq_none hbefore⟩
  rw [happ, List.append_assoc, revise_append (Delimiter.leadFirst_append hd hs), revise_spelling hs,
    List.append_assoc]

theorem revise_tag {o c interior : Bytes} (ho : o ∈ Delimiter.tagOpen.spellings accepted)
    (hc : c ∈ Delimiter.tagClose.spellings accepted) :
    revise accepted (o ++ interior ++ c) =
      Delimiter.raw .tagOpen ++ revise accepted interior ++ Delimiter.raw .tagClose := by
  have hclose : revise accepted c = Delimiter.raw .tagClose := by
    simpa using revise_spelling (b := []) hc
  rw [List.append_assoc, revise_spelling ho,
    revise_append (Delimiter.leadFirst_of_mem (by decide) hc), hclose, List.append_assoc]

theorem isTag_revise (h : IsTag accepted tag) : IsTag .rawOnly (revise accepted tag) := by
  obtain ⟨o, ho, interior, c, hc, rfl, hfree⟩ := h
  exact ⟨_, Delimiter.raw_mem_spellings, revise accepted interior, _, Delimiter.raw_mem_spellings,
    revise_tag ho hc, find?_revise_eq_none hfree⟩

theorem firstTag?_revise_eq_none (h : firstTag? accepted b = none) :
    firstTag? .rawOnly (revise accepted b) = none := by
  rw [firstTag?_eq_none_iff] at h ⊢
  intro g hg
  cases hopen : Delimiter.tagOpen.find? accepted b with
  | none =>
    rw [find?_revise_eq_none hopen] at hg
    contradiction
  | some f =>
    rw [find?_revise_eq_some (by decide) hopen, Option.some.injEq] at hg
    rw [← hg]
    exact find?_revise_eq_none (h f hopen)

theorem firstTag?_revise_eq_some (h : firstTag? accepted b = some f) :
    firstTag? .rawOnly (revise accepted b) =
      some ⟨revise accepted f.before, revise accepted f.spelling, revise accepted f.after⟩ := by
  rw [firstTag?_eq_some_iff] at h ⊢
  obtain ⟨happ, hbefore, htag⟩ := h
  have hafter : revise accepted (f.spelling ++ f.after) =
      revise accepted f.spelling ++ revise accepted f.after := by
    obtain ⟨o, ho, interior, c, hc, htag, -⟩ := htag
    rw [htag, revise_tag ho hc, List.append_assoc, List.append_assoc, revise_spelling ho,
      revise_append (Delimiter.leadFirst_append (by decide) hc), revise_spelling hc]
    simp
  refine ⟨?_, find?_revise_eq_none hbefore, isTag_revise htag⟩
  rw [happ, List.append_assoc, revise_append htag.leadFirst, hafter, List.append_assoc]

theorem revise_eq_nil_iff : revise accepted b = [] ↔ b = [] := by
  induction b using revise_induction accepted with
  | nil => simp
  | encoded d dialect rest hacc _ =>
    rw [revise_encoded hacc]
    simp [d.raw_ne_nil, Delimiter.encoded_ne_nil]
  | byte x rest hat _ => simp [revise_cons hat]

end Canonical

/-- The same kind of segment with other bytes. -/
def Segment.map (g : Bytes → Bytes) : Segment → Segment
  | .literal b => .literal (g b)
  | .tag b => .tag (g b)

/-- The canonical forms of the segments are the segments of the canonical form, in which nothing but
raw spellings need be looked for. -/
theorem segments_canonical (accepted : Dialects) (payload : Bytes) :
    (segments accepted payload).map (Segment.map (canonical accepted)) =
      segments .rawOnly (canonical accepted payload) := by
  have hliterals (b : Bytes) : (Segment.literals b).map (Segment.map (Canonical.revise accepted)) =
      Segment.literals (Canonical.revise accepted b) := by
    by_cases hb : b = []
    · simp [hb]
    · rw [Segment.literals_of_ne_nil hb,
        Segment.literals_of_ne_nil (mt Canonical.revise_eq_nil_iff.mp hb)]
      rfl
  have hcanonical : canonical accepted = Canonical.revise accepted :=
    funext (canonical_eq_revise accepted)
  rw [hcanonical]
  induction payload using firstTag?_induction accepted with
  | whole b h =>
    rw [segments_of_firstTag?_none h, hliterals,
      segments_of_firstTag?_none (Canonical.firstTag?_revise_eq_none h)]
  | step f hbefore htag ih =>
    have h := firstTag?_eq_some_iff.mpr ⟨rfl, hbefore, htag⟩
    rw [segments_of_firstTag?_some h, List.map_append, hliterals, List.map_cons, ih,
      segments_of_firstTag?_some (Canonical.firstTag?_revise_eq_some h)]
    rfl

end TagFill
