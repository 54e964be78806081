import TagFill.Random.ChaCha
import TagFill.Random.Draw

/-! # Random sources

A source is a stream with an account: how many calls it has served, and how many more it will serve
before it refuses. A refused call takes nothing from the stream and is not counted.
-/

namespace TagFill

inductive DrawError
  | entropy (reason : String)
  deriving DecidableEq, Repr

def DrawError.message : DrawError → String
  | .entropy reason => "Entropy source unavailable: " ++ reason

/-- The calls that a source still serves, and what it says once there are none left. -/
structure Allowance where
  left : Nat
  reason : String

structure Source where
  stream : Stream
  calls : Nat := 0
  allowance : Option Allowance := none

/-- What was drawn, and the source after it. -/
abbrev Drawn (α : Type) := Except DrawError α × Source

/-- Whether all of it could be drawn, the buffer it was to be added to, and the source after it. -/
abbrev Appended := Except DrawError Unit × Bytes × Source

namespace Source

def drawn (s : Source) : Nat := s.stream.position

/-- Why the next call is refused, if it is. -/
def refusal? (s : Source) : Option DrawError :=
  match s.allowance with
  | some ⟨0, reason⟩ => some (.entropy reason)
  | _ => none

/-- The account after a call that was served. -/
def served (s : Source) (stream : Stream) : Source where
  stream := stream
  calls := s.calls + 1
  allowance := s.allowance.map fun a => { a with left := a.left - 1 }

def answer (s : Source) (r : Request) : Drawn r.Answer :=
  match s.refusal? with
  | some e => (.error e, s)
  | none => (.ok (r.read s.stream).1, s.served (r.read s.stream).2)

/-! ## Calls -/

/-- A number in `low ..= high`. Bounds that leave no choice take no call and give `low`. -/
def between (s : Source) (low high : Nat) : Drawn Nat :=
  if high ≤ low then (.ok low, s) else s.answer (.between low high)

/-- A number between the bounds in either order. -/
def ordered (s : Source) (a b : Nat) : Drawn Nat :=
  if b < a then s.between b a else s.between a b

/-- A number below `n`, and 0 if there is none. -/
def index (s : Source) (n : Nat) : Drawn Nat :=
  if n ≤ 1 then (.ok 0, s) else s.between 0 (n - 1)

/-- One of the items, each as likely as the others. -/
def choose {α : Type} (s : Source) (items : List α) : Drawn (Option α) :=
  if items.isEmpty then (.ok none, s)
  else match s.index items.length with
    | (.ok i, s) => (.ok items[i]?, s)
    | (.error e, s) => (.error e, s)

/-- Writes `n` bytes of `charset` behind what a buffer holds, all in one call. There is no call
where nothing can come, and a refused one does not get to write. -/
def writeText (s : Source) (n : Nat) (charset buffer : Bytes) : Appended :=
  if n = 0 ∨ charset = [] then (.ok (), buffer, s)
  else match s.answer (.text n charset) with
    | (.ok drawn, s) => (.ok (), buffer ++ drawn, s)
    | (.error e, s) => (.error e, buffer, s)

/-- Writes `n` bytes in the form that `render` gives them. -/
def writeBytes (s : Source) (n : Nat) (render : Bytes → Bytes) (buffer : Bytes) : Appended :=
  match s.answer (.bytes n) with
  | (.ok drawn, s) => (.ok (), buffer ++ render drawn, s)
  | (.error e, s) => (.error e, buffer, s)

/-- A call that takes `n` words and then gives up, and whether it got that far. It counts like any
other call, and what it took is gone. -/
def interrupt (s : Source) (n : Nat) : Bool × Source :=
  if s.refusal?.isSome then (false, s)
  else (true, s.served (Stream.repeated (Stream.number .word) n s.stream).2)

/-! ## Kinds of source -/

/-- The bytes of a script over and over. -/
def scripted (script : Bytes) (allowance : Option Allowance) : Source where
  stream := {
    byte := let table := script.toArray; fun i => table.getD (i % table.size) 0
    stride := 1 }
  allowance := allowance

/-- The same seed gives the same draws. -/
def seeded (seed : UInt64) : Source where
  stream := ChaCha.stream seed

end Source

namespace Draw

/-- Carries a plan out. The first refusal ends it. -/
def run {α : Type} : Draw α → Source → Drawn α
  | .done a, s => (.ok a, s)
  | .ask r next, s =>
    match s.answer r with
    | (.ok a, s) => (next a).run s
    | (.error e, s) => (.error e, s)

end Draw

end TagFill
