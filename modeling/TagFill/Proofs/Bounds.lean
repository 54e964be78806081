import TagFill.Proofs.Randomize
import TagFill.Proofs.Sampling

/-! # Draws stay in bounds

The single draws take at most one call. A source that refuses it is as it was before, and any other
source, whatever words are in its stream, gives a result within the bounds asked for.
-/

namespace TagFill

variable {α β : Type} {asks : Prop} {P : α → Prop} {Q : β → Prop} {d : Draw α} {r : Request}
  {low high n : Nat} {charset : Bytes}

theorem Source.answer_of_refusal? {s : Source} {e : DrawError} (h : s.refusal? = some e) :
    s.answer r = (.error e, s) := by
  rw [answer, h]

theorem Source.answer_of_no_refusal {s : Source} (h : s.refusal? = none) :
    s.answer r = (.ok (r.read s.stream).1, s.served (r.read s.stream).2) := by
  rw [answer, h]

namespace Draw

/-- The plan takes one call if it `asks` and none if it does not. Unless that call is refused it
comes to a result with `P`. -/
structure Gives (asks : Prop) (P : α → Prop) (d : Draw α) : Prop where
  refused : asks → ∀ s e, s.refusal? = some e → d.run s = (.error e, s)
  served : ∀ s, (asks → s.refusal? = none) → ∃ a s', d.run s = (.ok a, s') ∧ P a

theorem gives_done {a : α} (hasks : ¬ asks) (h : P a) : Gives asks P (done a) where
  refused hasked := absurd hasked hasks
  served s _ := ⟨a, s, rfl, h⟩

theorem gives_ask {Q : r.Answer → Prop} (hasks : asks) (h : ∀ s, Q (r.read s).1) :
    Gives asks Q (ask r done) where
  refused _ _ _ hrefused := run_ask_error (Source.answer_of_refusal? hrefused)
  served s hserved := ⟨_, _, run_ask_ok (Source.answer_of_no_refusal (hserved hasks)), h s.stream⟩

theorem Gives.map {f : α → β} (h : Gives asks P d) (hf : ∀ a, P a → Q (f a)) :
    Gives asks Q (f <$> d) where
  refused hasks s e hrefused := by
    rw [run_map, h.refused hasks s e hrefused]
  served s hserved := by
    obtain ⟨a, s', hrun, ha⟩ := h.served s hserved
    refine ⟨f a, s', ?_, hf a ha⟩
    rw [run_map, hrun]

theorem Gives.congr {asks' : Prop} {P' : α → Prop} (h : Gives asks P d) (hasks : asks' ↔ asks)
    (hP : ∀ a, P a → P' a) : Gives asks' P' d := by
  have hmap := h.map (f := id) hP
  rwa [id_map, ← hasks] at hmap

/-! ## Numbers -/

theorem gives_between (hfit : high < UInt64.size ∨ low = 0) :
    Gives (low < high) (fun x => if low ≤ high then low ≤ x ∧ x ≤ high else x = low)
      (between low high) := by
  by_cases hle : high ≤ low
  · rw [between, if_pos hle]
    apply gives_done (by omega)
    split <;> omega
  · have hbound : low ≤ high := by omega
    rw [between, if_neg hle]
    simp only [if_pos hbound]
    exact gives_ask (r := .between low high) (by omega) (Stream.between_mem hbound hfit)

theorem gives_index (n : Nat) :
    Gives (1 < n) (fun i => if n = 0 then i = 0 else i < n) (index n) := by
  rw [index_eq]
  refine (gives_between (.inr rfl)).congr (by omega) ?_
  intro i hi
  rw [if_pos (Nat.zero_le _)] at hi
  split <;> omega

theorem gives_choose (items : List α) :
    Gives (1 < items.length)
      (fun choice => if items = [] then choice = none else ∃ item ∈ items, choice = some item)
      (choose items) := by
  by_cases h : items = []
  · simp only [if_pos h]
    rw [choose, if_pos (by simpa using h)]
    exact gives_done (by simp [h]) rfl
  · have hchoose : choose items = (fun i => items[i]?) <$> index items.length := by
      rw [choose_eq h, index_eq]
    simp only [if_neg h]
    rw [hchoose]
    apply (gives_index items.length).map
    intro i hi
    rw [if_neg (by simpa using h)] at hi
    exact ⟨items[i], List.getElem_mem hi, List.getElem?_eq_getElem hi⟩

/-! ## Texts -/

theorem gives_text (n : Nat) (charset : Bytes) :
    Gives (n ≠ 0 ∧ charset ≠ [])
      (fun t => if charset = [] then t = [] else IsText n charset t) (text n charset) := by
  by_cases hcharset : charset = []
  · simp only [if_pos hcharset]
    rw [text, if_pos (.inr hcharset)]
    exact gives_done (by simp [hcharset]) rfl
  · simp only [if_neg hcharset]
    by_cases hn : n = 0
    · rw [text, if_pos (.inl hn)]
      exact gives_done (by simp [hn]) ⟨hn.symm, by simp⟩
    · rw [text, if_neg (by simp [hn, hcharset])]
      exact gives_ask (r := .text n charset) ⟨hn, hcharset⟩ (Stream.isText_text hcharset n)

theorem gives_appendText (buffer : Bytes) (n : Nat) (charset : Bytes) :
    Gives (n ≠ 0 ∧ charset ≠ [])
      (fun after => ∃ t, after = buffer ++ t ∧ if charset = [] then t = [] else IsText n charset t)
      (appendText buffer n charset) :=
  (gives_text n charset).map fun t ht => ⟨t, rfl, ht⟩

/-! ## All of them -/

/-- For all numbers of 64 bits and on every source, numbers, choices and texts are what was asked
for. A text goes behind what its buffer holds, and a buffer is only written to by a call that is
served. -/
theorem draws_in_bounds :
    (∀ low high : UInt64, Gives (low < high)
      (fun x => if low ≤ high then low.toNat ≤ x ∧ x ≤ high.toNat else x = low.toNat)
      (between low.toNat high.toNat)) ∧
    (∀ a b : UInt64, Gives (a ≠ b)
      (fun x => min a.toNat b.toNat ≤ x ∧ x ≤ max a.toNat b.toNat)
      (ordered a.toNat b.toNat)) ∧
    (∀ n : UInt64, Gives (1 < n) (fun i => if n = 0 then i = 0 else i < n.toNat)
      (index n.toNat)) ∧
    (∀ (α : Type) (items : List α), Gives (1 < items.length)
      (fun choice => if items = [] then choice = none else ∃ item ∈ items, choice = some item)
      (choose items)) ∧
    ∀ (n : Nat) (charset buffer : Bytes),
      Gives (n ≠ 0 ∧ charset ≠ [])
        (fun after => ∃ t, after = buffer ++ t ∧
          if charset = [] then t = [] else IsText n charset t)
        (appendText buffer n charset) ∧
      ∀ s : Source, s.writeText n charset buffer =
        match (appendText buffer n charset).run s with
        | (.ok after, s') => (.ok (), after, s')
        | (.error e, s') => (.error e, buffer, s') := by
  refine ⟨?_, ?_, ?_, ?_, ?_⟩
  · intro low high
    simp only [UInt64.lt_iff_toNat_lt, UInt64.le_iff_toNat_le]
    exact gives_between (.inl high.toNat_lt)
  · intro a b
    have hfit : max a.toNat b.toNat < UInt64.size := Nat.max_lt.mpr ⟨a.toNat_lt, b.toNat_lt⟩
    have hasks : a ≠ b ↔ min a.toNat b.toNat < max a.toNat b.toNat := by
      rw [ne_eq, ← UInt64.toNat_inj]
      omega
    refine (gives_between (.inl hfit)).congr hasks ?_
    intro x hx
    rwa [if_pos (by omega)] at hx
  · intro n
    have hzero : n = 0 ↔ n.toNat = 0 := by rw [← UInt64.toNat_inj]; rfl
    simp only [UInt64.lt_iff_toNat_lt, hzero]
    exact gives_index n.toNat
  · intro α items
    exact gives_choose items
  · intro n charset buffer
    refine ⟨gives_appendText buffer n charset, ?_⟩
    intro s
    exact s.writeText_eq n charset buffer

end Draw

end TagFill
