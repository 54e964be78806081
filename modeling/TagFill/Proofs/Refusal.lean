import TagFill.Proofs.Randomize
import TagFill.Proofs.Reading
import TagFill.Proofs.Steps

/-! # Sources that refuse

A pass on a source with an allowance is the pass that would have come through, up to the first call
that is refused. Nothing but the source is different after it.
-/

namespace TagFill

namespace Draw

variable {α : Type}

theorem run_spent (d : Draw α) (s : Stream) (n : Nat) (reason : String) :
    d.run ⟨s, n, some ⟨0, reason⟩⟩ =
      (if d.calls s = 0 then .ok (d.read s).1 else .error (.entropy reason),
        ⟨s, n, some ⟨0, reason⟩⟩) := by
  split
  · rename_i hnone
    have htrail : d.trail s = [] := List.eq_nil_of_length_eq_zero hnone
    have hread : (d.read s).2 = s := by
      rw [read_snd, htrail]
      rfl
    rw [run_of_calls_le (by omega), hread, hnone]
    rfl
  · rename_i hsome
    rw [run_of_lt_calls (by omega)]
    rfl

theorem run_spent_isOk (d : Draw α) (s : Stream) (n : Nat) (reason : String) :
    (d.run ⟨s, n, some ⟨0, reason⟩⟩).1.isOk = true ↔ d.calls s = 0 := by
  rw [run_spent]
  by_cases hnone : d.calls s = 0
  · simp [hnone, Except.isOk, Except.toBool]
  · simp [hnone, Except.isOk, Except.toBool]

theorem refusal?_of_run {d : Draw α} {s s' : Source} {e : DrawError}
    (h : d.run s = (.error e, s')) : s'.refusal? = some e := by
  induction d generalizing s with
  | done a => cases h
  | ask r next ih =>
    rw [run_ask, Source.answer] at h
    cases hrefusal : s.refusal? with
    | some e' =>
      rw [hrefusal] at h
      cases h
      exact hrefusal
    | none =>
      rw [hrefusal] at h
      exact ih _ h

end Draw

theorem Session.step_randomize_frame (σ : Session) (number : Option Nat) (payload : Bytes) :
    ∃ sources,
      (σ.step (.engine number (.randomize payload))).2 = { σ with sources := sources } := by
  have hleads := leads_step σ (.engine number (.randomize payload))
  generalize (σ.step (.engine number (.randomize payload))).2 = σ' at hleads ⊢
  cases hleads with
  | missing | pass => exact ⟨_, rfl⟩
  | query _ hquery => contradiction

namespace Config

/-- A pass with `k` calls left comes through as it would without a limit, or fails at call `k + 1`
with the source's own error. The source is then spent, and stays so: a later pass comes through just
if it would take no call, and nothing of it is drawn. -/
theorem randomize_limited (c : Config) (payload : Bytes) (s : Stream) (n k : Nat)
    (reason : String) :
    let plan := c.pass payload
    let needed := plan.calls s
    let after := (plan.trail s).getLastD s
    let spent : Source := ⟨((plan.trail s).take k).getLastD s, n + k, some ⟨0, reason⟩⟩
    (∀ source, c.randomize payload source = plan.run source) ∧
    (∃ out, c.randomize payload ⟨s, n, none⟩ = (.ok out, ⟨after, n + needed, none⟩) ∧
      c.randomize payload ⟨s, n, some ⟨k, reason⟩⟩ =
        if needed ≤ k then (.ok out, ⟨after, n + needed, some ⟨k - needed, reason⟩⟩)
        else (.error (.entropy reason), spent)) ∧
    (∀ (c' : Config) (payload' : Bytes),
      ((c'.randomize payload' spent).1.isOk = true ↔
        (c'.randomize payload' ⟨spent.stream, n + k, none⟩).2.calls = n + k) ∧
      (c'.randomize payload' spent).2 = spent) ∧
    (∀ source source' e, c.randomize payload source = (.error e, source') →
      source'.refusal? = some e ∧
      ∃ left reason, source.allowance = some ⟨left, reason⟩ ∧ e = .entropy reason ∧
        left < plan.calls source.stream) ∧
    ∀ (σ : Session) (number : Option Nat),
      ∃ sources,
        (σ.step (.engine number (.randomize payload))).2 = { σ with sources := sources } := by
  intro plan needed after spent
  refine ⟨randomize_eq c payload, ⟨(plan.read s).1, ?_, ?_⟩, ?_, ?_, ?_⟩
  · rw [randomize_eq, Draw.run_unlimited, Draw.read_snd]
  · rw [randomize_eq]
    split
    · rename_i hle
      rw [Draw.run_of_calls_le hle, Draw.read_snd]
    · rename_i hlt
      exact Draw.run_of_lt_calls (Nat.lt_of_not_le hlt)
  · intro c' payload'
    rw [randomize_eq, randomize_eq, Draw.run_unlimited, Nat.add_eq_left]
    refine ⟨Draw.run_spent_isOk .., ?_⟩
    rw [Draw.run_spent]
  · intro source source' e h
    rw [randomize_eq] at h
    exact ⟨Draw.refusal?_of_run h, Draw.lt_calls_of_run h⟩
  · intro σ number
    exact σ.step_randomize_frame number payload

end Config

end TagFill
