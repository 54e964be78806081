import TagFill.Proofs.CanonicalForm

/-! # The canonical form, delimiter by delimiter

An encoded delimiter is replaced wherever it stands, whatever is around it, and bytes without one
stay as they are. These two laws leave no choice: only one function keeps them.
-/

namespace TagFill

namespace Canonical

variable {accepted : Dialects} {dialect : Dialect} {d : Delimiter} {a b : Bytes}
  {f g : Bytes → Bytes}

/-- Encoded delimiters are replaced one by one, each by itself. What is written for one is not read
again, with the bytes around it or without. -/
structure Rewrites (accepted : Dialects) (f : Bytes → Bytes) : Prop where
  delimiter : ∀ dialect d, accepted.accepts dialect = true → ∀ a b,
    f (a ++ Delimiter.encoded dialect d ++ b) = f a ++ d.raw ++ f b
  other : ∀ b, ¬ Occurs accepted b → f b = b

theorem leadFirst_encoded : LeadFirst (Delimiter.encoded dialect d ++ b) := by
  obtain ⟨x, t, hx, hescape⟩ := head_encoded dialect d
  rw [hx]
  rintro y ⟨⟩
  simp only [isEscape, Bool.or_eq_true] at hescape
  simp only [isLead, Bool.or_eq_true]
  rcases hescape with h | h
  · exact .inl (.inr h)
  · exact .inr h

theorem rewrites_revise : Rewrites accepted (revise accepted) where
  delimiter dialect d hacc a b := by
    -- The delimiter has a lead byte in front, so the bytes before it cannot reach into it.
    rw [List.append_assoc, revise_append leadFirst_encoded, revise_encoded hacc, List.append_assoc]
  other _ h := revise_of_not_occurs h

/-- The separator that is written here would close a tag with the bytes around it. -/
example : revise .both (Bytes.ofText "&rbrace%3B%%3B7D") = Bytes.ofText "&rbrace;%;7D" := by
  decide +kernel

theorem Rewrites.unique (hf : Rewrites accepted f) (hg : Rewrites accepted g) : f = g := by
  funext b
  induction hn : b.length using Nat.strong_induction_on generalizing b with
  | _ n ih =>
    by_cases hb : Occurs accepted b
    · obtain ⟨dialect, d, hacc, before, after, rfl⟩ := hb
      have hpos := List.length_pos_iff.mpr (Delimiter.encoded_ne_nil dialect d)
      simp only [List.length_append] at hn
      have hbefore := ih before.length (by omega) before rfl
      have hafter := ih after.length (by omega) after rfl
      rw [hf.delimiter dialect d hacc, hg.delimiter dialect d hacc, hbefore, hafter]
    · rw [hf.other b hb, hg.other b hb]

end Canonical

/-- The canonical form keeps the laws of rewriting, and no other function does. The bytes are left
alone only where no delimiter calls for a change, and looking through them would change nothing
there either. -/
theorem canonical_determined (accepted : Dialects) :
    (∀ f, Canonical.Rewrites accepted f ↔ f = canonical accepted) ∧
      canonical accepted = Canonical.revise accepted ∧
      ∀ b, (canonicalise accepted b).isUntouched = true → ¬ Canonical.Occurs accepted b := by
  have hcanonical : canonical accepted = Canonical.revise accepted :=
    funext (canonical_eq_revise accepted)
  refine ⟨?_, hcanonical, ?_⟩
  · intro f
    rw [hcanonical]
    constructor
    · intro hf
      exact hf.unique Canonical.rewrites_revise
    · rintro rfl
      exact Canonical.rewrites_revise
  · intro b huntouched
    unfold canonicalise at huntouched
    split at huntouched
    · contradiction
    · rename_i hmay
      exact Canonical.not_occurs_of_not_mayRevise (Bool.eq_false_iff.mpr hmay)

end TagFill
