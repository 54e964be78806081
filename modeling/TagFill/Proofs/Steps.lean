import TagFill.Proofs.Randomize
import TagFill.Session

/-! # What the steps of a session do

A step configures the builder in hand or takes another one, adds an engine or replaces one, or moves
a source on by a pass. What holds at the start and is kept by each of these holds after every row of
steps.
-/

namespace TagFill

/-- What a step has to fill, if it is a pass. -/
def EngineStep.payload? : EngineStep → Option Bytes
  | .randomize payload => some payload
  | .randomizeText payload => some (Bytes.ofText payload)
  | _ => none

/-- Steps that only look at an engine. -/
def EngineStep.isQuery : EngineStep → Bool
  | .config | .isEnabled _ | .charset _ | .generated _ _ => true
  | _ => false

/-- What a step changes in the builder's configuration. -/
def Step.change? : Step → Option Change
  | .change c => some c
  | .settings document => (Settings.load document).toOption.map .settings
  | _ => none

/-- The source as a pass leaves it. -/
def SharedSource.passed (shared : SharedSource) (c : Config) (payload : Bytes) : SharedSource :=
  { shared with source := (c.randomize payload shared.source).2 }

namespace Session

variable {σ σ' : Session} {step : Step} {e : Engine}

def after (σ : Session) (steps : List Step) : Session :=
  steps.foldl (fun σ step => (σ.step step).2) σ

/-- The engine that a step is for. -/
def target (σ : Session) (number : Option Nat) : Nat := number.getD (σ.engines.size - 1)

/-- The session after a pass of `e`. -/
def passed (σ : Session) (e : Engine) (payload : Bytes) : Session :=
  { σ with sources := σ.sources.modify e.source (·.passed e.config payload) }

/-- What a step makes of a session. -/
inductive Leads (σ : Session) : Step → Session → Prop
  | change (change : Change) : Leads σ (.change change) (σ.changeBuilder change)
  | settings {document : SettingsDocument} {s : Settings} (h : Settings.load document = .ok s) :
      Leads σ (.settings document) (σ.changeBuilder (.settings s))
  | refused {document : SettingsDocument} {error : SettingsError}
      (h : Settings.load document = .error error) : Leads σ (.settings document) σ
  | source (kind : SourceKind) :
      Leads σ (.source kind)
        { (σ.addSource kind).2 with builder := { σ.builder with source := σ.sources.size } }
  | freshBuilder : Leads σ .freshBuilder { σ.factoryEngine.2 with builder := σ.factoryEngine.1 }
  | keepBuilder : Leads σ .keepBuilder { σ with shelf := σ.shelf.push σ.builder }
  | swapBuilder (number : Nat) :
      Leads σ (.swapBuilder number)
        { σ with
          builder := σ.shelf.getD number σ.builder
          shelf := σ.shelf.setIfInBounds number σ.builder }
  | build : Leads σ .build { σ with engines := σ.engines.push σ.builder }
  | newEngine :
      Leads σ .newEngine
        { σ.factoryEngine.2 with engines := σ.engines.push σ.factoryEngine.1 }
  | missing {number : Option Nat} {step : EngineStep} (h : σ.engines[σ.target number]? = none) :
      Leads σ (.engine number step) σ
  | clone {number : Option Nat} {e : Engine} (h : σ.engines[σ.target number]? = some e) :
      Leads σ (.engine number .clone) { σ with engines := σ.engines.push e }
  | reset {number : Option Nat} {e : Engine} (h : σ.engines[σ.target number]? = some e) :
      Leads σ (.engine number .reset)
        { σ.factoryEngine.2 with
          engines := σ.engines.setIfInBounds (σ.target number) σ.factoryEngine.1 }
  | pass {number : Option Nat} {e : Engine} {step : EngineStep} {payload : Bytes}
      (h : σ.engines[σ.target number]? = some e) (hpayload : step.payload? = some payload) :
      Leads σ (.engine number step) (σ.passed e payload)
  | query {number : Option Nat} {e : Engine} {step : EngineStep}
      (h : σ.engines[σ.target number]? = some e) (hquery : step.isQuery = true) :
      Leads σ (.engine number step) σ

theorem run_none {α : Type} (h : σ.sources[e.source]? = none) (pass : Source → Drawn α) :
    σ.run e.source pass = none := by
  simp [run, h]

theorem run_some {α : Type} {pass : Source → Drawn α} {payload : Bytes} {shared : SharedSource}
    (h : σ.sources[e.source]? = some shared)
    (hpass : ∀ s, (pass s).2 = (e.config.randomize payload s).2) :
    σ.run e.source pass = some ((pass shared.source).1,
      (shared.passed e.config payload).totals?, σ.passed e payload) := by
  have hlt := (Array.getElem?_eq_some_iff.mp h).1
  -- Putting the moved source back is moving it in its place.
  have hsources : σ.sources.setIfInBounds e.source (shared.passed e.config payload) =
      (σ.passed e payload).sources := by
    apply Array.ext_getElem?
    intro i
    simp only [passed, Array.getElem?_setIfInBounds, Array.getElem?_modify]
    split
    · rename_i hi
      subst hi
      rw [h, Option.map_some]
    · rfl
  simp only [run, h, hpass, Option.bind_eq_bind, Option.bind_some, Option.pure_def]
  change some (_, _, { σ with sources := σ.sources.setIfInBounds _ (shared.passed _ _) }) = _
  rw [hsources]
  rfl

theorem passed_of_none (h : σ.sources[e.source]? = none) (payload : Bytes) :
    σ.passed e payload = σ := by
  have hsources : (σ.passed e payload).sources = σ.sources := by
    apply Array.ext_getElem?
    intro i
    simp only [passed, Array.getElem?_modify]
    split
    · rename_i hi
      subst hi
      simp [h]
    · rfl
  change { σ with sources := (σ.passed e payload).sources } = σ
  rw [hsources]

theorem randomizeText_snd (c : Config) (text : String) (s : Source) :
    (c.randomizeText text s).2 = (c.randomize (Bytes.ofText text) s).2 := by
  rw [Config.randomizeText_eq, Config.passText, Draw.run_map, Config.randomize_eq]
  rcases (c.pass (Bytes.ofText text)).run s with ⟨e | r, s'⟩ <;> rfl

theorem engineStep_pass {number : Nat} {step : EngineStep} {payload : Bytes}
    (h : step.payload? = some payload) : (σ.engineStep number e step).2 = σ.passed e payload := by
  cases hsource : σ.sources[e.source]? with
  | none =>
    rw [passed_of_none hsource]
    cases step <;> simp_all [engineStep, run_none, EngineStep.payload?]
  | some shared =>
    cases step with
    | randomize =>
      cases h
      rw [engineStep, run_some hsource fun _ => rfl]
    | randomizeText text =>
      cases h
      rw [engineStep, run_some hsource (randomizeText_snd e.config text)]
    | _ => contradiction

theorem leads_engineStep (number : Option Nat) (h : σ.engines[σ.target number]? = some e)
    (step : EngineStep) :
    Leads σ (.engine number step) (σ.engineStep (σ.target number) e step).2 := by
  cases step with
  | clone => exact .clone h
  | reset => exact .reset h
  | config => exact .query h rfl
  | isEnabled name => exact .query h rfl
  | charset name => exact .query h rfl
  | generated name n => exact .query h rfl
  | randomize payload =>
    rw [engineStep_pass rfl]
    exact .pass h rfl
  | randomizeText text =>
    rw [engineStep_pass rfl]
    exact .pass h rfl

theorem leads_step (σ : Session) (step : Step) : Leads σ step (σ.step step).2 := by
  cases step with
  | change change => exact .change change
  | settings document =>
    unfold Session.step
    dsimp only
    split
    · rename_i s h
      exact .settings h
    · rename_i error h
      exact .refused h
  | source kind => exact .source kind
  | freshBuilder => exact .freshBuilder
  | keepBuilder => exact .keepBuilder
  | swapBuilder number => exact .swapBuilder number
  | build => exact .build
  | newEngine => exact .newEngine
  | engine number step =>
    unfold Session.step
    dsimp only
    split
    · rename_i e h
      exact leads_engineStep number h step
    · rename_i h
      exact .missing h

/-! ## Rows of steps -/

theorem after_append (σ : Session) (steps later : List Step) :
    σ.after (steps ++ later) = (σ.after steps).after later := List.foldl_append

theorem after_induction {P : Session → Prop} (hstep : ∀ σ step σ', P σ → Leads σ step σ' → P σ')
    (h : P σ) (steps : List Step) : P (σ.after steps) := by
  induction steps generalizing σ with
  | nil => exact h
  | cons step steps ih => exact ih (hstep σ step _ h (leads_step σ step))

/-! ## Builders and engines -/

def Has (σ : Session) (e : Engine) : Prop := e = σ.builder ∨ e ∈ σ.shelf ∨ e ∈ σ.engines

theorem has_builder (σ : Session) : σ.Has σ.builder := .inl rfl

theorem has_of_mem_shelf (h : e ∈ σ.shelf) : σ.Has e := .inr (.inl h)

theorem has_of_mem (h : e ∈ σ.engines) : σ.Has e := .inr (.inr h)

theorem has_of_getElem? {i : Nat} (h : σ.engines[i]? = some e) : σ.Has e :=
  has_of_mem (Array.mem_of_getElem? h)

theorem has_kept (σ : Session) (number : Nat) : σ.Has (σ.shelf.getD number σ.builder) := by
  rw [Array.getD_eq_getD_getElem?]
  cases hkept : σ.shelf[number]? with
  | none => exact σ.has_builder
  | some b => exact has_of_mem_shelf (Array.mem_of_getElem? hkept)

theorem Has.or_mem (h : σ'.Has e) (hbuilder : σ'.builder = σ.builder)
    (hshelf : σ'.shelf = σ.shelf) : σ.Has e ∨ e ∈ σ'.engines := by
  obtain rfl | h | h := h
  · exact .inl (.inl hbuilder)
  · rw [hshelf] at h
    exact .inl (has_of_mem_shelf h)
  · exact .inr h

/-- Where builders and engines come from in one step: they stay, or the builder in hand is changed
or moved to the source that is added, or they are new ones with that source. -/
theorem Leads.has (h : Leads σ step σ') (he : σ'.Has e) :
    σ.Has e ∨
      (∃ change, step.change? = some change ∧
        e = { σ.builder with config := σ.builder.config.apply change }) ∨
      (σ'.sources.size = σ.sources.size + 1 ∧ e.source = σ.sources.size ∧
        (e.config = σ.builder.config ∨ e.config = {})) := by
  have hadded (kind : SourceKind) : (σ.addSource kind).2.sources.size = σ.sources.size + 1 := by
    simp [addSource]
  cases h with
  | change change =>
    obtain rfl | he := he
    · exact .inr (.inl ⟨change, rfl, rfl⟩)
    · exact .inl (.inr he)
  | @settings document s hload =>
    have hchange : (Step.settings document).change? = some (.settings s) := by
      rw [Step.change?, hload]
      rfl
    obtain rfl | he := he
    · exact .inr (.inl ⟨_, hchange, rfl⟩)
    · exact .inl (.inr he)
  | refused | missing | query => exact .inl he
  | source kind =>
    obtain rfl | he := he
    · exact .inr (.inr ⟨hadded kind, rfl, .inl rfl⟩)
    · exact .inl (.inr he)
  | freshBuilder =>
    obtain rfl | he := he
    · exact .inr (.inr ⟨hadded .unpredictable, rfl, .inr rfl⟩)
    · exact .inl (.inr he)
  | keepBuilder =>
    obtain rfl | he | he := he
    · exact .inl σ.has_builder
    · obtain he | rfl := Array.mem_push.mp he
      · exact .inl (has_of_mem_shelf he)
      · exact .inl σ.has_builder
    · exact .inl (has_of_mem he)
  | swapBuilder number =>
    obtain rfl | he | he := he
    · exact .inl (σ.has_kept number)
    · obtain he | rfl := Array.mem_or_eq_of_mem_setIfInBounds he
      · exact .inl (has_of_mem_shelf he)
      · exact .inl σ.has_builder
    · exact .inl (has_of_mem he)
  | build =>
    obtain he | he : σ.Has e ∨ _ := he.or_mem rfl rfl
    · exact .inl he
    · obtain he | rfl := Array.mem_push.mp he
      · exact .inl (has_of_mem he)
      · exact .inl σ.has_builder
  | newEngine =>
    obtain he | he : σ.Has e ∨ _ := he.or_mem rfl rfl
    · exact .inl he
    · obtain he | rfl := Array.mem_push.mp he
      · exact .inl (has_of_mem he)
      · exact .inr (.inr ⟨hadded .unpredictable, rfl, .inr rfl⟩)
  | clone h =>
    obtain he | he : σ.Has e ∨ _ := he.or_mem rfl rfl
    · exact .inl he
    · obtain he | rfl := Array.mem_push.mp he
      · exact .inl (has_of_mem he)
      · exact .inl (has_of_getElem? h)
  | reset =>
    obtain he | he : σ.Has e ∨ _ := he.or_mem rfl rfl
    · exact .inl he
    · obtain he | rfl := Array.mem_or_eq_of_mem_setIfInBounds he
      · exact .inl (has_of_mem he)
      · exact .inr (.inr ⟨hadded .unpredictable, rfl, .inr rfl⟩)
  | pass => exact .inl he

theorem Leads.size_le (h : Leads σ step σ') : σ.sources.size ≤ σ'.sources.size := by
  cases h <;> simp [changeBuilder, factoryEngine, addSource, passed]

/-- The source is one of the session's. -/
def Wired (σ : Session) : Prop := ∀ e, σ.Has e → e.source < σ.sources.size

theorem Leads.wired (h : Leads σ step σ') (hσ : σ.Wired) : σ'.Wired := by
  intro e he
  have hsize := h.size_le
  obtain he | ⟨change, -, rfl⟩ | ⟨hadded, hsource, -⟩ := h.has he
  · have hlt := hσ e he
    omega
  · have hlt := hσ σ.builder σ.has_builder
    dsimp only
    omega
  · omega

theorem start_has (entropy : UInt64) : (start entropy).Has e ↔ e = ⟨{}, 0⟩ := by
  simp [start, factoryEngine, addSource, Has]

theorem wired_after (entropy : UInt64) (steps : List Step) :
    ((start entropy).after steps).Wired := by
  apply after_induction (fun _ _ _ hσ h => h.wired hσ)
  intro e he
  rw [start_has] at he
  subst he
  simp [start, factoryEngine, addSource]

theorem exists_changes (entropy : UInt64) (steps : List Step)
    (he : ((start entropy).after steps).Has e) :
    ∃ changes, e.config = Config.ofChanges changes := by
  revert e
  apply after_induction (P := fun σ => ∀ {e}, σ.Has e → ∃ changes, e.config = .ofChanges changes)
  · intro σ step σ' hσ h e he
    obtain he | ⟨change, -, rfl⟩ | ⟨-, -, heq | heq⟩ := h.has he
    · exact hσ he
    -- Only the builder is ever changed, by one change more than it had.
    · obtain ⟨changes, heq⟩ := hσ σ.has_builder
      refine ⟨changes ++ [change], ?_⟩
      simp [heq, Config.ofChanges, Config.applyAll]
    · rw [heq]
      exact hσ σ.has_builder
    · exact ⟨[], heq⟩
  · intro e he
    rw [start_has] at he
    exact ⟨[], by rw [he]; rfl⟩

end Session

end TagFill
