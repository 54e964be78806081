import TagFill.Random.Source

/-! # Carrying out plans

A plan that goes on with another one is carried out one after the other, on the source as the first
leaves it. A refusal in the first is the refusal of both.
-/

namespace TagFill.Draw

variable {α β : Type}

@[simp] theorem map_done (f : α → β) (a : α) : f <$> done a = done (f a) := rfl

@[simp] theorem run_done (a : α) (s : Source) : (done a).run s = (.ok a, s) := rfl

theorem run_ask (r : Request) (next : r.Answer → Draw α) (s : Source) :
    (ask r next).run s =
      match s.answer r with
      | (.ok a, s) => (next a).run s
      | (.error e, s) => (.error e, s) := by
  rcases h : s.answer r with ⟨e | a, s'⟩ <;> simp [run, h]

theorem run_bind (d : Draw α) (f : α → Draw β) (s : Source) :
    (d >>= f).run s =
      match d.run s with
      | (.ok a, s) => (f a).run s
      | (.error e, s) => (.error e, s) := by
  induction d generalizing s with
  | done a => rfl
  | ask r next ih =>
    rw [ask_bind, run_ask, run_ask]
    rcases s.answer r with ⟨e | a, s⟩
    · rfl
    · exact ih a s

theorem run_bind_ok {d : Draw α} {f : α → Draw β} {s s' : Source} {b : β}
    (h : (d >>= f).run s = (.ok b, s')) :
    ∃ a s₁, d.run s = (.ok a, s₁) ∧ (f a).run s₁ = (.ok b, s') := by
  rw [run_bind] at h
  split at h
  · rename_i a s₁ hfirst
    exact ⟨a, s₁, hfirst, h⟩
  · cases h

theorem run_bind_error {d : Draw α} {f : α → Draw β} {s s' : Source} {e : DrawError}
    (h : (d >>= f).run s = (.error e, s')) :
    d.run s = (.error e, s') ∨ ∃ a s₁, d.run s = (.ok a, s₁) ∧ (f a).run s₁ = (.error e, s') := by
  rw [run_bind] at h
  split at h
  · rename_i a s₁ hfirst
    exact .inr ⟨a, s₁, hfirst, h⟩
  · rename_i e₁ s₁ hfirst
    cases h
    exact .inl hfirst

theorem run_map (f : α → β) (d : Draw α) (s : Source) :
    (f <$> d).run s =
      match d.run s with
      | (.ok a, s) => (.ok (f a), s)
      | (.error e, s) => (.error e, s) := by
  rw [← bind_pure_comp, run_bind]
  rfl

theorem run_mapM_cons {f : α → Draw β} {item : α} {items : List α} {results : List β}
    {s s' : Source} (h : ((item :: items).mapM f).run s = (.ok results, s')) :
    ∃ first s₁ others, (f item).run s = (.ok first, s₁) ∧
      (items.mapM f).run s₁ = (.ok others, s') ∧ results = first :: others := by
  rw [List.mapM_cons] at h
  obtain ⟨first, s₁, hfirst, h⟩ := run_bind_ok h
  obtain ⟨others, s₂, hothers, h⟩ := run_bind_ok h
  cases h
  exact ⟨first, s₁, others, hfirst, hothers, rfl⟩

theorem length_of_run_mapM {f : α → Draw β} {items : List α} {results : List β} {s s' : Source}
    (h : (items.mapM f).run s = (.ok results, s')) : results.length = items.length := by
  induction items generalizing results s with
  | nil =>
    cases h
    rfl
  | cons item items ih =>
    obtain ⟨first, s₁, others, -, hothers, rfl⟩ := run_mapM_cons h
    rw [List.length_cons, List.length_cons, ih hothers]

end TagFill.Draw
