import Mathlib.Algebra.BigOperators.Ring.List
import TagFill.Proofs.Sampling

/-! # How far a stream is moved

A reading takes bytes of its stream, as many at a time as are drawn at once, and each time the
stream moves on by whole steps. It is otherwise the same stream.
-/

namespace TagFill

namespace Stream

variable {α β : Type}

/-- Only whole steps were taken. -/
def Aligned (s : Stream) : Prop := s.stride ∣ s.position

/-- The stream after as many bytes were taken at a time. -/
def forward (s : Stream) (takings : List Nat) : Stream :=
  { s with position := s.position + (takings.map (roundUp s.stride)).sum }

theorem forward_append (s : Stream) (first later : List Nat) :
    s.forward (first ++ later) = (s.forward first).forward later := by
  simp [forward, Nat.add_assoc]

theorem Aligned.forward {s : Stream} (h : s.Aligned) (takings : List Nat) :
    (s.forward takings).Aligned := by
  unfold Aligned Stream.forward
  apply Nat.dvd_add h
  apply List.dvd_sum
  rw [List.forall_mem_map]
  intro n _
  exact Nat.dvd_mul_left s.stride _

theorem roundUp_add {stride position : Nat} (h : stride ∣ position) (n : Nat) :
    roundUp stride (position + n) = position + roundUp stride n := by
  obtain ⟨steps, rfl⟩ := h
  unfold roundUp
  obtain rfl | hpos := Nat.eq_zero_or_pos stride
  · simp
  · rw [Nat.add_assoc, Nat.add_sub_assoc (by omega), Nat.mul_add_div hpos, Nat.add_mul,
      Nat.mul_comm steps]

/-! ## Readings -/

/-- The reading takes these numbers of bytes, which may depend on what it finds. -/
def Takes (m : StateM Stream α) (takings : Stream → List Nat) : Prop :=
  ∀ s, s.Aligned → (m s).2 = s.forward (takings s)

theorem takes_bytes (n : Nat) : Takes (bytes n) fun _ => [n] := by
  intro s h
  simp [bytes, forward, roundUp_add h]

theorem takes_number (w : Width) : Takes (number w) fun _ => [w.bytes] := takes_bytes w.bytes

/-- A second number is only taken where the first one may need a carry. -/
def uniformTakings (w : Width) (low high : Nat) (s : Stream) : List Nat :=
  let size := count w low high
  if size = 0 ∨ (number w s).1 * size % w.modulus ≤ w.modulus - size then [w.bytes]
  else [w.bytes, w.bytes]

theorem takes_uniform (w : Width) (low high : Nat) :
    Takes (uniform w low high) (uniformTakings w low high) := by
  intro s h
  have hfirst := takes_number w s h
  rw [uniform_eq, uniformTakings]
  by_cases hsize : count w low high = 0
  · rw [if_pos hsize, if_pos (.inl hsize)]
    exact hfirst
  · by_cases hcarry : (number w s).1 * count w low high % w.modulus ≤ w.modulus - count w low high
    · rw [if_neg hsize, if_pos hcarry, if_pos (.inr hcarry)]
      exact hfirst
    · have hsecond := takes_number w (s.forward [w.bytes]) (h.forward _)
      rw [if_neg hsize, if_neg hcarry, if_neg (by simp [hsize, hcarry]), hfirst, hsecond,
        ← forward_append, List.singleton_append]

def repeatedTakings (takings : Stream → List Nat) : Nat → Stream → List Nat
  | 0, _ => []
  | n + 1, s => takings s ++ repeatedTakings takings n (s.forward (takings s))

theorem takes_repeated {read : StateM Stream α} {takings : Stream → List Nat}
    (h : Takes read takings) (n : Nat) : Takes (repeated read n) (repeatedTakings takings n) := by
  induction n with
  | zero =>
    intro s _
    rfl
  | succ n ih =>
    intro s hs
    have hread : (repeated read (n + 1) s).2 = (repeated read n (read s).2).2 := rfl
    have hfirst := h s hs
    rw [hread, repeatedTakings, forward_append, hfirst]
    exact ih _ (hs.forward _)

end Stream

open TagFill.Stream (uniformTakings repeatedTakings)

/-- What is taken for a request. The bytes of a text are drawn one by one. -/
def Request.takings : Request → Stream → List Nat
  | .bytes n, _ => [n]
  | .number w, _ => [w.bytes]
  | .between low high, s => uniformTakings (.ofBound high) low high s
  | .text n charset, s =>
    repeatedTakings (uniformTakings (.ofBound charset.length) 0 (charset.length - 1)) n s

theorem Request.takes_read (r : Request) : Stream.Takes r.read r.takings := by
  cases r with
  | bytes n => exact Stream.takes_bytes n
  | number w => exact Stream.takes_number w
  | between low high => exact Stream.takes_uniform _ low high
  | text n charset =>
    apply Stream.takes_repeated
    intro s h
    exact Stream.takes_uniform _ 0 _ s h

/-! ## Plans -/

namespace Draw

variable {α : Type}

/-- What is taken by the calls of the plan that are served. -/
def takings : Draw α → Source → List Nat
  | .done _, _ => []
  | .ask r next, s =>
    match s.answer r with
    | (.ok a, s') => r.takings s.stream ++ (next a).takings s'
    | (.error _, _) => []

theorem run_forward (d : Draw α) {s : Source} (h : s.stream.Aligned) :
    (d.run s).2.stream = s.stream.forward (d.takings s) := by
  induction d generalizing s with
  | done a => rfl
  | ask r next ih =>
    rw [run_ask, takings, Source.answer]
    cases s.refusal? with
    | some e => rfl
    | none =>
      have hread := r.takes_read s.stream h
      have hserved : (s.served (r.read s.stream).2).stream =
          s.stream.forward (r.takings s.stream) := hread
      dsimp only
      rw [ih _ (by rw [hserved]; exact h.forward _), hserved, Stream.forward_append]

end Draw

end TagFill
