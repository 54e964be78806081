import Mathlib.Data.List.Forall2
import TagFill.Proofs.Draw

/-! # Plans on a stream

A source that refuses nothing hands out its stream, so the stream alone settles what a plan comes to
and how many calls it takes. A source with an allowance goes the same way, call by call, until the
allowance is used up.
-/

namespace TagFill.Draw

variable {α β : Type}

/-- What the plan comes to where no call is refused. -/
def read : Draw α → StateM Stream α
  | .done a => pure a
  | .ask r next => r.read >>= fun answer => (next answer).read

/-- The stream as each call leaves it. -/
def trail : Draw α → Stream → List Stream
  | .done _, _ => []
  | .ask r next, s => (r.read s).2 :: (next (r.read s).1).trail (r.read s).2

def calls (d : Draw α) (s : Stream) : Nat := (d.trail s).length

/-! ## One plan after another -/

@[simp] theorem read_done (a : α) (s : Stream) : (done a).read s = (a, s) := rfl

@[simp] theorem calls_done (a : α) (s : Stream) : (done a).calls s = 0 := rfl

theorem read_ask (r : Request) (next : r.Answer → Draw α) (s : Stream) :
    (ask r next).read s = (next (r.read s).1).read (r.read s).2 := rfl

theorem calls_ask (r : Request) (next : r.Answer → Draw α) (s : Stream) :
    (ask r next).calls s = (next (r.read s).1).calls (r.read s).2 + 1 := rfl

theorem read_bind (d : Draw α) (f : α → Draw β) (s : Stream) :
    (d >>= f).read s = (f (d.read s).1).read (d.read s).2 := by
  induction d generalizing s with
  | done a => rfl
  | ask r next ih => exact ih (r.read s).1 (r.read s).2

theorem calls_bind (d : Draw α) (f : α → Draw β) (s : Stream) :
    (d >>= f).calls s = d.calls s + (f (d.read s).1).calls (d.read s).2 := by
  induction d generalizing s with
  | done a => simp
  | ask r next ih =>
    rw [ask_bind, calls_ask, calls_ask, read_ask, ih]
    omega

theorem read_map (f : α → β) (d : Draw α) (s : Stream) :
    (f <$> d).read s = (f (d.read s).1, (d.read s).2) := by
  rw [← bind_pure_comp, read_bind]
  rfl

theorem calls_map (f : α → β) (d : Draw α) (s : Stream) : (f <$> d).calls s = d.calls s := by
  rw [← bind_pure_comp, calls_bind]
  rfl

theorem read_snd (d : Draw α) (s : Stream) : (d.read s).2 = (d.trail s).getLastD s := by
  induction d generalizing s with
  | done a => rfl
  | ask r next ih =>
    rw [read_ask, ih, trail, List.getLastD_cons]

theorem forall₂_read_mapM {f : α → Draw β} {R : α → β → Prop} {items : List α}
    (h : ∀ item ∈ items, ∀ s, R item ((f item).read s).1) (s : Stream) :
    List.Forall₂ R items ((items.mapM f).read s).1 := by
  induction items generalizing s with
  | nil => exact .nil
  | cons item items ih =>
    rw [List.forall_mem_cons] at h
    rw [List.mapM_cons, read_bind, read_bind]
    exact .cons (h.1 s) (ih h.2 _)

/-! ## Sources -/

theorem run_ask_ok {r : Request} {next : r.Answer → Draw α} {s s' : Source} {a : r.Answer}
    (h : s.answer r = (.ok a, s')) : (ask r next).run s = (next a).run s' := by
  rw [run_ask, h]

theorem run_ask_error {r : Request} {next : r.Answer → Draw α} {s s' : Source} {e : DrawError}
    (h : s.answer r = (.error e, s')) : (ask r next).run s = (.error e, s') := by
  rw [run_ask, h]

theorem run_unlimited (d : Draw α) (s : Stream) (n : Nat) :
    d.run ⟨s, n, none⟩ = (.ok (d.read s).1, ⟨(d.read s).2, n + d.calls s, none⟩) := by
  induction d generalizing s n with
  | done a => rfl
  | ask r next ih =>
    have hserved : Source.answer ⟨s, n, none⟩ r = (.ok (r.read s).1, ⟨(r.read s).2, n + 1, none⟩) :=
      rfl
    rw [run_ask_ok hserved, ih, read_ask, calls_ask, Nat.add_assoc, Nat.add_comm 1]

theorem run_of_calls_le {d : Draw α} {s : Stream} {n k : Nat} {reason : String}
    (h : d.calls s ≤ k) :
    d.run ⟨s, n, some ⟨k, reason⟩⟩ =
      (.ok (d.read s).1, ⟨(d.read s).2, n + d.calls s, some ⟨k - d.calls s, reason⟩⟩) := by
  induction d generalizing s n k with
  | done a => rfl
  | ask r next ih =>
    rw [calls_ask] at h
    obtain ⟨k, rfl⟩ : ∃ j, k = j + 1 := ⟨k - 1, by omega⟩
    have hserved : Source.answer ⟨s, n, some ⟨k + 1, reason⟩⟩ r =
        (.ok (r.read s).1, ⟨(r.read s).2, n + 1, some ⟨k, reason⟩⟩) := rfl
    have hnext := Nat.le_of_add_le_add_right h
    rw [run_ask_ok hserved, ih _ hnext, read_ask, calls_ask, Nat.add_assoc, Nat.add_comm 1,
      Nat.add_sub_add_right]

/-- With too small an allowance the plan gets as far as the allowance goes. -/
theorem run_of_lt_calls {d : Draw α} {s : Stream} {n k : Nat} {reason : String}
    (h : k < d.calls s) :
    d.run ⟨s, n, some ⟨k, reason⟩⟩ =
      (.error (.entropy reason), ⟨((d.trail s).take k).getLastD s, n + k, some ⟨0, reason⟩⟩) := by
  induction d generalizing s n k with
  | done a => simp at h
  | ask r next ih =>
    cases k with
    | zero => exact run_ask_error rfl
    | succ k =>
      -- The first call is served, and the rest fails with one call less on both sides.
      rw [calls_ask] at h
      have hserved : Source.answer ⟨s, n, some ⟨k + 1, reason⟩⟩ r =
          (.ok (r.read s).1, ⟨(r.read s).2, n + 1, some ⟨k, reason⟩⟩) := rfl
      have hnext := Nat.lt_of_add_lt_add_right h
      rw [run_ask_ok hserved, ih _ hnext, trail, List.take_succ_cons, List.getLastD_cons,
        Nat.add_assoc, Nat.add_comm 1]

theorem read_eq_of_run {d : Draw α} {s s' : Source} {a : α} (h : d.run s = (.ok a, s')) :
    d.read s.stream = (a, s'.stream) := by
  obtain ⟨stream, n, allowance⟩ := s
  rcases allowance with _ | ⟨k, reason⟩
  · rw [run_unlimited] at h
    cases h
    rfl
  · by_cases hk : d.calls stream ≤ k
    · rw [run_of_calls_le hk] at h
      cases h
      rfl
    · rw [run_of_lt_calls (by omega)] at h
      cases h

theorem read_of_run {d : Draw α} {s s' : Source} {a : α} (h : d.run s = (.ok a, s')) :
    (d.read s.stream).1 = a := congrArg Prod.fst (read_eq_of_run h)

theorem lt_calls_of_run {d : Draw α} {s s' : Source} {e : DrawError}
    (h : d.run s = (.error e, s')) :
    ∃ k reason, s.allowance = some ⟨k, reason⟩ ∧ e = .entropy reason ∧ k < d.calls s.stream := by
  obtain ⟨stream, n, allowance⟩ := s
  rcases allowance with _ | ⟨k, reason⟩
  · rw [run_unlimited] at h
    cases h
  · refine ⟨k, reason, rfl, ?_⟩
    by_cases hk : d.calls stream ≤ k
    · rw [run_of_calls_le hk] at h
      cases h
    · rw [run_of_lt_calls (by omega)] at h
      cases h
      exact ⟨rfl, Nat.lt_of_not_le hk⟩

end TagFill.Draw
