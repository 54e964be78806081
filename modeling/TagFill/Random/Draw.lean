import TagFill.Random.Stream

/-! # Draws

A `Draw` is a plan of requests to a random source: it asks, and goes on with the answer. What a
source answers, and whether it refuses, is no part of the plan. So two plans that are equal draw the
same bytes from every source, and the requests of a plan can be counted without one.
-/

namespace TagFill

/-- What is asked of a source in one call. -/
inductive Request
  | bytes (n : Nat)
  | number (width : Stream.Width)
  | between (low high : Nat)
  | text (n : Nat) (charset : Bytes)

namespace Request

abbrev Answer : Request → Type
  | .bytes _ | .text _ _ => Bytes
  | .number _ | .between _ _ => Nat

def read : (r : Request) → StateM Stream r.Answer
  | .bytes n => Stream.bytes n
  | .number w => Stream.number w
  | .between low high => Stream.between low high
  | .text n charset => Stream.text n charset

end Request

inductive Draw (α : Type)
  | done (value : α)
  | ask (request : Request) (next : request.Answer → Draw α)

namespace Draw

protected def bind {α β : Type} : Draw α → (α → Draw β) → Draw β
  | .done a, f => f a
  | .ask r next, f => .ask r fun answer => (next answer).bind f

instance : Monad Draw where
  pure := .done
  bind := Draw.bind

@[simp] theorem pure_eq {α : Type} (a : α) : (pure a : Draw α) = .done a := rfl

@[simp] theorem done_bind {α β : Type} (a : α) (f : α → Draw β) : .done a >>= f = f a := rfl

@[simp] theorem ask_bind {α β : Type} (r : Request) (next : r.Answer → Draw α) (f : α → Draw β) :
    .ask r next >>= f = .ask r fun answer => next answer >>= f := rfl

theorem bind_done {α : Type} (d : Draw α) : d >>= .done = d := by
  induction d with
  | done a => rfl
  | ask r next ih => simp [ih]

theorem bind_assoc {α β γ : Type} (d : Draw α) (f : α → Draw β) (g : β → Draw γ) :
    d >>= f >>= g = d >>= fun a => f a >>= g := by
  induction d with
  | done a => rfl
  | ask r next ih => simp [ih]

instance : LawfulMonad Draw :=
  LawfulMonad.mk' Draw (fun d => bind_done d) (fun _ _ => rfl) bind_assoc

/-! ## Single requests -/

def bytes (n : Nat) : Draw Bytes := .ask (.bytes n) .done

def number (w : Stream.Width) : Draw Nat := .ask (.number w) .done

/-- A number in `low ..= high`. Bounds that leave no choice ask nothing and give `low`. -/
def between (low high : Nat) : Draw Nat :=
  if high ≤ low then .done low else .ask (.between low high) .done

/-- A number between the bounds in either order. -/
def ordered (a b : Nat) : Draw Nat := between (min a b) (max a b)

/-- A number below `n`, and 0 if there is none. -/
def index (n : Nat) : Draw Nat := if n ≤ 1 then .done 0 else between 0 (n - 1)

/-- One of the items, each as likely as the others. -/
def choose {α : Type} (items : List α) : Draw (Option α) := do
  if items.isEmpty then return none
  return items[← index items.length]?

/-- `n` bytes of `charset`, all in one request. Nothing is asked where nothing can come. -/
def text (n : Nat) (charset : Bytes) : Draw Bytes :=
  if n = 0 ∨ charset = [] then .done [] else .ask (.text n charset) .done

end Draw

end TagFill
