import TagFill.Proofs.Completeness
import TagFill.Proofs.Steps

/-! # What sound configurations are good for

A session only has sound configurations. So a tag that is filled from a charset gets all its bytes,
and an address gets one of the providers.
-/

namespace TagFill

variable {α : Type}

/-! ## Addresses -/

/-- An address with another domain for an empty list. -/
def Value.emailOr (fallback : String) (providers : List String) (length : Option Nat) :
    Draw Bytes := do
  let localPart ← Draw.text (length.getD localLength) Charset.lower
  let provider ← Draw.choose providers
  return localPart ++ Bytes.ofText "@" ++ Bytes.ofText (provider.getD fallback)

theorem Value.email_eq (providers : List String) (length : Option Nat) :
    email providers length = emailOr Provider.fallback providers length := rfl

theorem Draw.choose_ne_none {items : List α} (h : items ≠ []) (s s' : Source) :
    (choose items).run s ≠ (.ok none, s') := by
  intro hrun
  obtain ⟨item, -, hitem⟩ := read_choose h s.stream
  rw [read_of_run hrun] at hitem
  contradiction

theorem Value.run_emailOr {providers : List String} (h : providers ≠ []) (fallback : String)
    (length : Option Nat) (s : Source) :
    (emailOr fallback providers length).run s = (email providers length).run s := by
  rw [email_eq]
  unfold emailOr
  rw [Draw.run_bind, Draw.run_bind]
  split
  · rename_i localPart s₁ hlocal
    rw [Draw.run_bind, Draw.run_bind]
    split
    · rename_i provider s₂ hprovider
      -- The plans go apart only where no provider comes.
      cases provider with
      | none => exact absurd hprovider (Draw.choose_ne_none h s₁ s₂)
      | some provider => rfl
    · rfl
  · rfl

/-! ## Lengths -/

theorem Draw.run_text {charset : Bytes} (h : charset ≠ []) (n : Nat) (s : Source) :
    (∃ b s', (text n charset).run s = (.ok b, s') ∧ IsText n charset b) ∨
      ∃ e, s.refusal? = some e ∧ (text n charset).run s = (.error e, s) := by
  unfold text
  split
  · rename_i hnone
    have hn : n = 0 := by simpa [h] using hnone
    exact .inl ⟨[], s, rfl, by simp [IsText, hn]⟩
  · rw [run_ask, Source.answer]
    cases s.refusal? with
    | some e => exact .inr ⟨e, rfl, rfl⟩
    | none => exact .inl ⟨_, _, rfl, Stream.isText_text h n s.stream⟩

theorem Keyword.charset?_ne_nil {keyword : Keyword} {chars : Bytes}
    (h : keyword.charset? = some chars) : chars ≠ [] := by
  cases keyword with
  | lower | upper | letters | digit | control =>
    cases h
    decide
  | _ => contradiction

namespace Config

/-- Where a tag is filled from a charset, its content has the length that it resolves to, unless the
source refuses to draw it. -/
def FillsExactly (c : Config) : Prop :=
  ∀ {tag chars : Bytes} {s s₁ : Source} {length : Option Nat} {entry : Option Bytes},
    (c.tagBody tag).resolve.run s = (.ok (some (length, entry)), s₁) →
    (c.filler entry).charset? = some chars →
    (∃ b s₂, (c.fillTag tag).run s = (.ok (c.output.encode b), s₂) ∧
        IsText (length.getD c.defaultLength) chars b) ∨
      ∃ e, s₁.refusal? = some e ∧ (c.fillTag tag).run s = (.error e, s₁)

variable {c : Config}

theorem Sound.filler_ne_nil (h : c.Sound) {entry : Option Bytes} {chars : Bytes}
    (hchars : (c.filler entry).charset? = some chars) : chars ≠ [] := by
  cases hfiller : c.filler entry with
  | standard =>
    rw [hfiller] at hchars
    cases hchars
    decide
  | builtin keyword =>
    rw [hfiller] at hchars
    exact Keyword.charset?_ne_nil hchars
  | custom =>
    rw [hfiller] at hchars
    contradiction
  | charset chars =>
    rw [hfiller] at hchars
    cases hchars
    exact h.ne_nil_of_filler hfiller

theorem Sound.fillsExactly (h : c.Sound) : c.FillsExactly := by
  intro tag chars s s₁ length entry hresolve hchars
  have hne := h.filler_ne_nil hchars
  rw [fillTag_eq, Draw.run_bind, hresolve]
  dsimp only
  rw [Filler.draw_of_charset? hchars, Draw.run_map]
  obtain ⟨b, s₂, hrun, htext⟩ | ⟨e, hrefusal, hrun⟩ :=
    Draw.run_text hne (length.getD c.defaultLength) s₁
  · exact .inl ⟨b, s₂, by rw [hrun], htext⟩
  · exact .inr ⟨e, hrefusal, by rw [hrun]⟩

end Config

/-! ## Sessions -/

/-- Whatever changes, builds and resets there were, a configuration of a session is sound. So no
address falls back, and what is filled from a charset has its length. -/
theorem Session.config_sound {entropy : UInt64} {steps : List Step} {e : Engine}
    (h : ((start entropy).after steps).Has e) :
    e.config.Sound ∧
      (∀ fallback length s, (Value.emailOr fallback e.config.providers length).run s =
        (Value.email e.config.providers length).run s) ∧
      e.config.FillsExactly := by
  obtain ⟨changes, hchanges⟩ := exists_changes entropy steps h
  have hsound : e.config.Sound := by
    rw [hchanges]
    exact Config.sound_ofChanges changes
  exact ⟨hsound, Value.run_emailOr hsound.providers, hsound.fillsExactly⟩

/-- Nothing that the builder is told here is of use, and the engine is reset after it. -/
theorem Session.config_sound_ignored :
    let settings : Settings := { minLength := some 0, maxLength := some 0, disabled := ["hex"] }
    let steps : List Step := [.change (.defaultLength 0), .change (.providers []),
      .change (.charset "key" []), .change (.settings settings), .build, .engine none .reset]
    let σ := (start 0).after steps
    let tag := Bytes.ofText "\x7bRAND;2\x7d"
    σ.builder.config.Sound ∧ ∃ e, σ.engines[0]? = some e ∧ e.config.Sound ∧
      ∃ b s, (e.config.fillTag tag).run (.scripted [7] none) = (.ok b, s) ∧
        IsText 2 Charset.all b := by
  intro settings steps σ tag
  refine ⟨(config_sound (.inl rfl)).1, ⟨{}, 1⟩, rfl, ?_⟩
  have hhas : σ.Has ⟨{}, 1⟩ := has_of_getElem? (i := 0) rfl
  obtain ⟨hsound, -, hfills⟩ := config_sound hhas
  refine ⟨hsound, ?_⟩
  have hresolve : (({} : Config).tagBody tag).resolve.run (.scripted [7] none) =
      (.ok (some (some 2, none)), .scripted [7] none) := by
    have hbody : ({} : Config).tagBody tag = .fields (.fixed 2) .absent := by decide
    rw [hbody]
    rfl
  obtain ⟨b, s, hrun, htext⟩ | ⟨e, hrefusal, -⟩ := hfills hresolve rfl
  · exact ⟨b, s, hrun, htext⟩
  · contradiction

end TagFill
