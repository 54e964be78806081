import Mathlib.Data.List.Chain
import TagFill.Proofs.Search

/-! # The one way to split a payload

`Splits` says how a payload is split, by the places at which delimiters start. The scanner comes to
an end on every payload, what it hands out is split this way, and no other row of segments is.
-/

namespace TagFill

namespace Segment

def isLiteral : Segment → Bool
  | .literal _ => true
  | .tag _ => false

def joined (segs : List Segment) : Bytes := segs.flatMap bytes

@[simp] theorem joined_nil : joined [] = [] := rfl

@[simp] theorem joined_cons (seg : Segment) (segs : List Segment) :
    joined (seg :: segs) = seg.bytes ++ joined segs := rfl

/-- A literal is handed out only where it holds something. -/
def literals (b : Bytes) : List Segment := if b = [] then [] else [.literal b]

@[simp] theorem literals_nil : literals [] = [] := rfl

theorem literals_of_ne_nil {b : Bytes} (h : b ≠ []) : literals b = [.literal b] := if_neg h

end Segment

/-! ## The run of a scanner -/

namespace Scanner

/-- Asked again and again, the scanner hands out these segments and then says that it is done. -/
inductive Yields : Scanner → List Segment → Prop
  | done {s : Scanner} (h : s.next? = none) : Yields s []
  | step {s t : Scanner} {seg : Segment} {segs : List Segment} (h : s.next? = some (seg, t))
      (rest : Yields t segs) : Yields s (seg :: segs)

theorem segments_of_next?_none {s : Scanner} (h : s.next? = none) : s.segments = [] := by
  rw [segments]
  split
  · rfl
  · rename_i seg t hnext
    rw [h] at hnext
    contradiction

theorem segments_of_next?_some {s t : Scanner} {seg : Segment} (h : s.next? = some (seg, t)) :
    s.segments = seg :: t.segments := by
  rw [segments]
  split
  · rename_i hnext
    rw [h] at hnext
    contradiction
  · rename_i seg' t' hnext
    rw [h, Option.some.injEq, Prod.mk.injEq] at hnext
    rw [hnext.1, hnext.2]

theorem yields_segments (s : Scanner) : s.Yields s.segments := by
  induction s using segments.induct with
  | case1 s h =>
    rw [segments_of_next?_none h]
    exact .done h
  | case2 s seg t h ih =>
    rw [segments_of_next?_some h]
    exact .step h ih

theorem yields_iff {s : Scanner} {segs : List Segment} : s.Yields segs ↔ segs = s.segments := by
  constructor
  · intro h
    induction h with
    | done h => exact (segments_of_next?_none h).symm
    | step h rest ih => rw [segments_of_next?_some h, ih]
  · rintro rfl
    exact yields_segments s

theorem next?_payload (s : Scanner) (payload : Bytes) :
    ({ s with payload := payload } : Scanner).next? =
      s.next?.map fun (seg, t) => (seg, { t with payload := payload }) := by
  obtain ⟨accepted, _, rest, pending⟩ := s
  cases pending with
  | some tag => rfl
  | none =>
    by_cases hrest : rest = []
    · simp [next?, hrest]
    · simp only [next?, hrest, if_false]
      rcases firstTag? accepted rest with _ | ⟨_ | ⟨x, before⟩, tag, after⟩ <;> rfl

theorem segments_payload (s : Scanner) (payload : Bytes) :
    ({ s with payload := payload } : Scanner).segments = s.segments := by
  have hnext (s : Scanner) := next?_payload s payload
  induction s using segments.induct with
  | case1 s h =>
    rw [segments_of_next?_none h, segments_of_next?_none (by rw [hnext, h]; rfl)]
  | case2 s seg t h ih =>
    rw [segments_of_next?_some h, segments_of_next?_some (by rw [hnext, h]; rfl), ih]

end Scanner

section

variable {accepted : Dialects} {b : Bytes}

theorem segments_of_firstTag?_none (h : firstTag? accepted b = none) :
    segments accepted b = Segment.literals b := by
  unfold segments
  by_cases hb : b = []
  · subst hb
    exact Scanner.segments_of_next?_none rfl
  · have hnext : (Scanner.ofPayload accepted b).next? =
        some (.literal b, { accepted := accepted, payload := b, rest := [] }) := by
      simp [Scanner.next?, Scanner.ofPayload, hb, h]
    rw [Scanner.segments_of_next?_some hnext, Scanner.segments_of_next?_none rfl,
      Segment.literals_of_ne_nil hb]

theorem segments_of_firstTag?_some {f : Found} (h : firstTag? accepted b = some f) :
    segments accepted b =
      Segment.literals f.before ++ .tag f.spelling :: segments accepted f.after := by
  obtain ⟨before, tag, after⟩ := f
  have hb : b ≠ [] := by
    rintro rfl
    simp [firstTag?] at h
  -- The scanner behind the tag keeps the whole payload, unlike one that starts there.
  let rest : Scanner := { accepted := accepted, payload := b, rest := after }
  have hrest : rest.segments = segments accepted after :=
    Scanner.segments_payload (.ofPayload accepted after) b
  rw [← hrest]
  unfold segments
  cases before with
  | nil =>
    have hnext : (Scanner.ofPayload accepted b).next? = some (.tag tag, rest) := by
      simp [Scanner.next?, Scanner.ofPayload, hb, h, rest]
    rw [Scanner.segments_of_next?_some hnext]
    rfl
  | cons x before =>
    have hnext : (Scanner.ofPayload accepted b).next? =
        some (.literal (x :: before), { rest with pending := some tag }) := by
      simp [Scanner.next?, Scanner.ofPayload, hb, h, rest]
    have hpending : ({ rest with pending := some tag } : Scanner).next? = some (.tag tag, rest) :=
      rfl
    rw [Scanner.segments_of_next?_some hnext, Scanner.segments_of_next?_some hpending]
    rfl

/-- A payload either has no tag, or it is a literal, a tag and a payload. -/
theorem firstTag?_induction (accepted : Dialects) {motive : Bytes → Prop}
    (whole : ∀ b, firstTag? accepted b = none → motive b)
    (step : ∀ f : Found, Delimiter.tagOpen.find? accepted f.before = none →
      IsTag accepted f.spelling → motive f.after → motive (f.before ++ f.spelling ++ f.after))
    (b : Bytes) : motive b := by
  induction hn : b.length using Nat.strong_induction_on generalizing b with
  | _ n ih =>
    cases h : firstTag? accepted b with
    | none => exact whole b h
    | some f =>
      obtain ⟨happ, hbefore, htag⟩ := firstTag?_eq_some_iff.mp h
      have hpos := List.length_pos_iff.mpr htag.ne_nil
      have hlen := congrArg List.length happ
      simp only [List.length_append] at hlen
      rw [happ]
      exact step f hbefore htag (ih f.after.length (by omega) f.after rfl)

end

/-! ## The rule -/

section

variable {accepted : Dialects} {b : Bytes}

theorem firstTag?_eq_none_iff_beginsAt :
    firstTag? accepted b = none ↔
      ∀ i < b.length, ∀ o ∈ Delimiter.tagOpen.spellings accepted, o <+: b.drop i →
        (∀ j < i, ¬ Delimiter.tagOpen.BeginsAt accepted b j) →
        ∀ k ≥ i + o.length, ¬ Delimiter.tagClose.BeginsAt accepted b k := by
  rw [firstTag?_eq_none_iff]
  constructor
  · rintro h i hi o ho ⟨after, hafter⟩ hfirst k hk hclose
    obtain ⟨before, rfl, rfl⟩ : ∃ before, b = before ++ (o ++ after) ∧ before.length = i :=
      ⟨b.take i, by rw [hafter, List.take_append_drop], by simp; omega⟩
    obtain ⟨m, rfl⟩ : ∃ m, k = (before ++ o).length + m :=
      ⟨k - (before ++ o).length, by simp at hk ⊢; omega⟩
    have hopen : Delimiter.tagOpen.find? accepted (before ++ (o ++ after)) =
        some ⟨before, o, after⟩ := by
      rw [Delimiter.find?_eq_some_iff (by decide),
        Delimiter.find?_eq_none_iff_append (Delimiter.leadFirst_append (by decide) ho)]
      exact ⟨ho, by simp, hfirst⟩
    rw [← List.append_assoc, Delimiter.beginsAt_append_right] at hclose
    exact Delimiter.find?_eq_none_iff.mp (h _ hopen) m hclose
  · rintro h ⟨before, o, after⟩ hopen
    rw [Delimiter.find?_eq_some_iff (by decide)] at hopen
    obtain ⟨ho, rfl, hbefore⟩ := hopen
    have hpos : 0 < o.length := List.length_pos_iff.mpr (Delimiter.ne_nil_of_mem_spellings ho)
    rw [List.append_assoc] at h
    rw [Delimiter.find?_eq_none_iff_append (Delimiter.leadFirst_append (by decide) ho)] at hbefore
    rw [Delimiter.find?_eq_none_iff]
    intro m hclose
    have := h before.length (by simp; omega) o ho (by simp) hbefore ((before ++ o).length + m)
      (by simp)
    rw [← List.append_assoc, Delimiter.beginsAt_append_right] at this
    exact this hclose

end

/-- How a payload is split. Places are counted from the front of the payload. -/
structure Splits (accepted : Dialects) (payload : Bytes) (segs : List Segment) : Prop where
  joined : Segment.joined segs = payload
  nonempty : ∀ seg ∈ segs, seg.bytes ≠ []
  apart : segs.IsChain fun a b => ¬ (a.isLiteral = true ∧ b.isLiteral = true)
  /-- A tag ends with the nearest closing delimiter behind its opening one. -/
  tags : ∀ front t back, segs = front ++ .tag t :: back →
    ∃ o ∈ Delimiter.tagOpen.spellings accepted, ∃ interior,
      ∃ c ∈ Delimiter.tagClose.spellings accepted,
        t = o ++ interior ++ c ∧ ∀ i < interior.length, ¬ Delimiter.tagClose.BeginsAt accepted
          payload ((Segment.joined front).length + (o.length + i))
  /-- No tag could have started earlier. -/
  literals : ∀ front b t back, segs = front ++ .literal b :: .tag t :: back → ∀ i < b.length,
    ¬ Delimiter.tagOpen.BeginsAt accepted payload ((Segment.joined front).length + i)
  /-- What opens in the last literal, with its first opening delimiter, never closes. -/
  last : ∀ front b, segs = front ++ [.literal b] →
    ∀ i < b.length, ∀ o ∈ Delimiter.tagOpen.spellings accepted,
      o <+: payload.drop ((Segment.joined front).length + i) →
      (∀ j < i, ¬ Delimiter.tagOpen.BeginsAt accepted payload
        ((Segment.joined front).length + j)) →
      ∀ k ≥ i + o.length, ¬ Delimiter.tagClose.BeginsAt accepted payload
        ((Segment.joined front).length + k)

section

variable {accepted : Dialects} {payload b t : Bytes} {seg : Segment} {segs front : List Segment}
  {d : Delimiter} {i : Nat}

theorem beginsAt_joined_nil :
    d.BeginsAt accepted b ((Segment.joined []).length + i) ↔ d.BeginsAt accepted b i := by
  rw [Segment.joined_nil, List.length_nil, Nat.zero_add]

theorem beginsAt_joined_cons :
    d.BeginsAt accepted (seg.bytes ++ b) ((Segment.joined (seg :: front)).length + i) ↔
      d.BeginsAt accepted b ((Segment.joined front).length + i) := by
  rw [Segment.joined_cons, List.length_append, Nat.add_assoc]
  exact Delimiter.beginsAt_append_right

theorem drop_joined_cons :
    (seg.bytes ++ b).drop ((Segment.joined (seg :: front)).length + i) =
      b.drop ((Segment.joined front).length + i) := by
  rw [Segment.joined_cons, List.length_append, Nat.add_assoc]
  exact List.drop_length_add_append _

namespace Splits

theorem tail (h : Splits accepted payload (seg :: segs)) :
    payload = seg.bytes ++ Segment.joined segs ∧ Splits accepted (Segment.joined segs) segs := by
  have hpay : payload = seg.bytes ++ Segment.joined segs := h.joined.symm
  refine ⟨hpay, rfl, ?_, ?_, ?_, ?_, ?_⟩
  · intro next hnext
    exact h.nonempty next (List.mem_cons_of_mem seg hnext)
  · exact (List.isChain_cons.mp h.apart).2
  · intro front t back hsegs
    obtain ⟨o, ho, interior, c, hc, ht, hfree⟩ := h.tags (seg :: front) t back (by rw [hsegs]; rfl)
    refine ⟨o, ho, interior, c, hc, ht, ?_⟩
    intro i hi
    have := hfree i hi
    rwa [hpay, beginsAt_joined_cons] at this
  · intro front b t back hsegs i hi
    have := h.literals (seg :: front) b t back (by rw [hsegs]; rfl) i hi
    rwa [hpay, beginsAt_joined_cons] at this
  · intro front b hsegs i hi o ho hat hfirst k hk
    have := h.last (seg :: front) b (by rw [hsegs]; rfl) i hi o ho
    simp only [hpay, beginsAt_joined_cons, drop_joined_cons] at this
    exact this hat hfirst k hk

theorem isTag (h : Splits accepted payload (.tag t :: segs)) : IsTag accepted t := by
  obtain ⟨o, ho, interior, c, hc, rfl, hfree⟩ := h.tags [] _ segs rfl
  refine ⟨o, ho, interior, c, hc, rfl, ?_⟩
  -- What closes the tag has a lead byte in front, so nothing in the interior reaches behind it.
  have hlead : LeadFirst (c ++ Segment.joined segs) :=
    Delimiter.leadFirst_append (by decide) hc
  have hpay : payload = o ++ (interior ++ (c ++ Segment.joined segs)) := by
    rw [h.tail.1]
    simp [Segment.bytes]
  rw [Delimiter.find?_eq_none_iff_append hlead]
  intro i hi
  have := hfree i hi
  rwa [beginsAt_joined_nil, hpay, Delimiter.beginsAt_append_right] at this

theorem find?_literal (h : Splits accepted payload (.literal b :: .tag t :: segs)) :
    Delimiter.tagOpen.find? accepted b = none := by
  obtain ⟨hpay, htail⟩ := h.tail
  have hlead : LeadFirst (Segment.joined (.tag t :: segs)) := htail.isTag.leadFirst
  rw [Delimiter.find?_eq_none_iff_append hlead]
  intro i hi
  have := h.literals [] b t segs rfl i hi
  rwa [beginsAt_joined_nil, hpay] at this

theorem firstTag?_literal (h : Splits accepted payload [.literal b]) :
    firstTag? accepted b = none := by
  have hpay : payload = b := by simpa [Segment.bytes] using h.tail.1
  have hlast := h.last [] b rfl
  simp only [Segment.joined_nil, List.length_nil, Nat.zero_add, hpay] at hlast
  exact firstTag?_eq_none_iff_beginsAt.mpr hlast

theorem nil : Splits accepted [] [] where
  joined := rfl
  nonempty := by simp
  apart := .nil
  tags := by simp
  literals := by simp
  last := by simp

theorem cons (seg : Segment) (h : Splits accepted payload segs) (hne : seg.bytes ≠ [])
    (hapart : ∀ next ∈ segs.head?, ¬ (seg.isLiteral = true ∧ next.isLiteral = true))
    (htag : ∀ t, seg = .tag t → IsTag accepted t)
    (hliteral : ∀ b t back, seg = .literal b → segs = .tag t :: back →
      Delimiter.tagOpen.find? accepted b = none)
    (hlast : ∀ b, seg = .literal b → segs = [] → firstTag? accepted b = none) :
    Splits accepted (seg.bytes ++ payload) (seg :: segs) := by
  have hjoined := h.joined
  refine ⟨by rw [Segment.joined_cons, hjoined], ?_, List.isChain_cons.mpr ⟨hapart, h.apart⟩,
    ?_, ?_, ?_⟩
  · intro s hs
    rcases List.mem_cons.mp hs with rfl | hs
    · exact hne
    · exact h.nonempty s hs
  · intro front t back hsegs
    cases front with
    | nil =>
      obtain ⟨rfl, rfl⟩ := List.cons.inj hsegs
      obtain ⟨o, ho, interior, c, hc, rfl, hfree⟩ := htag t rfl
      rw [Delimiter.find?_eq_none_iff_append (b := c ++ payload)
        (Delimiter.leadFirst_append (by decide) hc)] at hfree
      refine ⟨o, ho, interior, c, hc, rfl, ?_⟩
      intro i hi
      have := hfree i hi
      rw [beginsAt_joined_nil]
      simpa [Segment.bytes, Delimiter.beginsAt_append_right] using this
    | cons s front =>
      obtain ⟨rfl, rfl⟩ := List.cons.inj hsegs
      simp only [beginsAt_joined_cons]
      exact h.tags front t back rfl
  · intro front b t back hsegs i hi
    cases front with
    | nil =>
      obtain ⟨rfl, rfl⟩ := List.cons.inj hsegs
      -- A tag follows, so that nothing opens in the literal by itself is enough.
      have hfree := hliteral b t back rfl rfl
      have hlead : LeadFirst payload := by
        rw [h.tail.1]
        exact h.isTag.leadFirst
      rw [Delimiter.find?_eq_none_iff_append hlead] at hfree
      rw [beginsAt_joined_nil]
      exact hfree i hi
    | cons s front =>
      obtain ⟨rfl, rfl⟩ := List.cons.inj hsegs
      rw [beginsAt_joined_cons]
      exact h.literals front b t back rfl i hi
  · intro front b hsegs
    cases front with
    | nil =>
      obtain ⟨rfl, rfl⟩ := List.cons.inj hsegs
      have hpay : payload = [] := hjoined.symm
      have hfree := firstTag?_eq_none_iff_beginsAt.mp (hlast b rfl rfl)
      simpa [hpay, Segment.bytes] using hfree
    | cons s front =>
      obtain ⟨rfl, rfl⟩ := List.cons.inj hsegs
      simp only [beginsAt_joined_cons, drop_joined_cons]
      exact h.last front b rfl

theorem tag_cons (h : Splits accepted payload segs) (ht : IsTag accepted t) :
    Splits accepted (t ++ payload) (.tag t :: segs) := by
  refine cons (.tag t) h ht.ne_nil ?_ ?_ ?_ ?_
  · simp [Segment.isLiteral]
  · rintro t' ⟨⟩
    exact ht
  · simp
  · simp

theorem literals_append (h : Splits accepted payload (.tag t :: segs))
    (hb : Delimiter.tagOpen.find? accepted b = none) :
    Splits accepted (b ++ payload) (Segment.literals b ++ .tag t :: segs) := by
  by_cases hne : b = []
  · subst hne
    exact h
  · rw [Segment.literals_of_ne_nil hne]
    refine cons (.literal b) h hne ?_ ?_ ?_ ?_
    · simp [Segment.isLiteral]
    · simp
    · rintro b' t' back ⟨⟩ -
      exact hb
    · simp

theorem of_firstTag?_none (h : firstTag? accepted b = none) :
    Splits accepted b (Segment.literals b) := by
  by_cases hne : b = []
  · subst hne
    exact nil
  · have := cons (.literal b) (nil : Splits accepted [] []) hne (by simp) (by simp) (by simp)
      (by rintro b' ⟨⟩ -; exact h)
    rw [Segment.literals_of_ne_nil hne]
    simpa [Segment.bytes] using this

end Splits

theorem splits_segments : Splits accepted payload (segments accepted payload) := by
  induction payload using firstTag?_induction accepted with
  | whole b h =>
    rw [segments_of_firstTag?_none h]
    exact .of_firstTag?_none h
  | step f hbefore htag ih =>
    rw [segments_of_firstTag?_some (firstTag?_eq_some_iff.mpr ⟨rfl, hbefore, htag⟩),
      List.append_assoc]
    exact (ih.tag_cons htag).literals_append hbefore

theorem Splits.eq_segments : ∀ {segs : List Segment} {payload : Bytes},
    Splits accepted payload segs → segs = segments accepted payload
  | [], payload, h => by
    have hpay : payload = [] := h.joined.symm
    subst hpay
    exact (segments_of_firstTag?_none (b := []) rfl).symm
  | .tag t :: segs, payload, h => by
    obtain ⟨hpay, htail⟩ := h.tail
    have hfirst : firstTag? accepted payload = some ⟨[], t, Segment.joined segs⟩ :=
      firstTag?_eq_some_iff.mpr ⟨hpay, rfl, h.isTag⟩
    rw [segments_of_firstTag?_some hfirst, ← htail.eq_segments]
    rfl
  | [.literal b], payload, h => by
    have hpay : payload = b := by simpa [Segment.bytes] using h.tail.1
    have hne : b ≠ [] := h.nonempty (.literal b) (by simp)
    rw [hpay, segments_of_firstTag?_none h.firstTag?_literal, Segment.literals_of_ne_nil hne]
  | .literal b :: .tag t :: segs, payload, h => by
    obtain ⟨hpay, htail⟩ := h.tail
    have hne : b ≠ [] := h.nonempty (.literal b) (by simp)
    have hfirst : firstTag? accepted payload = some ⟨b, t, Segment.joined segs⟩ :=
      firstTag?_eq_some_iff.mpr ⟨by simp [hpay, Segment.bytes], h.find?_literal, htail.isTag⟩
    rw [segments_of_firstTag?_some hfirst, ← htail.tail.2.eq_segments,
      Segment.literals_of_ne_nil hne]
    rfl
  | .literal b :: .literal b' :: segs, payload, h => by
    have := (List.isChain_cons.mp h.apart).1 (.literal b') rfl
    exact absurd ⟨rfl, rfl⟩ this

/-- The scanner ends on every payload and hands out one row of segments, and of all rows this one
alone splits the payload. -/
theorem scanner_splits (accepted : Dialects) (payload : Bytes) :
    (∀ segs, (Scanner.ofPayload accepted payload).Yields segs ↔ segs = segments accepted payload) ∧
      ∀ segs, Splits accepted payload segs ↔ segs = segments accepted payload := by
  refine ⟨fun segs => Scanner.yields_iff, ?_⟩
  intro segs
  constructor
  · exact Splits.eq_segments
  · rintro rfl
    exact splits_segments

end

end TagFill
