import TagFill.Proofs.Randomize
import TagFill.Proofs.Steps
import TagFill.Proofs.Taking

/-! # One stream for all that share it

A stage follows one source of a session by the steps alone: who draws from it, by which
configuration, and how far it has come. A session never does anything else with that source.
-/

namespace TagFill

theorem SharedSource.passed_stream {shared : SharedSource}
    (h : shared.source.stream.Aligned) (c : Config) (payload : Bytes) :
    (shared.passed c payload).source.stream =
      shared.source.stream.forward ((c.pass payload).takings shared.source) := by
  rw [SharedSource.passed, Config.randomize_eq]
  exact Draw.run_forward _ h

/-! ## Stages -/

/-- A builder or an engine, and whether it draws from the source. -/
structure Seat where
  config : Config := {}
  shares : Bool := false

structure Stage where
  /-- The source where the last pass on it stopped. -/
  left : SharedSource
  builder : Seat
  shelf : List Seat
  engines : List Seat

namespace Stage

def target (s : Stage) (number : Option Nat) : Nat := number.getD (s.engines.length - 1)

def passed (s : Stage) (seat : Seat) (payload : Bytes) : Stage :=
  if seat.shares then { s with left := s.left.passed seat.config payload } else s

def engineStep (s : Stage) (number : Nat) (seat : Seat) : EngineStep → Stage
  | .clone => { s with engines := s.engines ++ [seat] }
  | .reset => { s with engines := s.engines.set number {} }
  | .randomize payload => s.passed seat payload
  | .randomizeText payload => s.passed seat (Bytes.ofText payload)
  | _ => s

def changeBuilder (s : Stage) (change : Change) : Stage :=
  { s with builder := { s.builder with config := s.builder.config.apply change } }

/-- Only the first builder on the source, and what was copied, built or cloned from one that shares
it, shares it. -/
def step (s : Stage) : Step → Stage
  | .change change => s.changeBuilder change
  | .settings document =>
    match Settings.load document with
    | .ok settings => s.changeBuilder (.settings settings)
    | .error _ => s
  | .source _ => { s with builder := { s.builder with shares := false } }
  | .freshBuilder => { s with builder := {} }
  | .keepBuilder => { s with shelf := s.shelf ++ [s.builder] }
  | .swapBuilder number =>
    { s with builder := s.shelf.getD number s.builder, shelf := s.shelf.set number s.builder }
  | .build => { s with engines := s.engines ++ [s.builder] }
  | .newEngine => { s with engines := s.engines ++ [{}] }
  | .engine number step =>
    match s.engines[s.target number]? with
    | some seat => s.engineStep (s.target number) seat step
    | none => s

def after (s : Stage) (steps : List Step) : Stage := steps.foldl step s

variable {s : Stage} {number : Nat} {seat : Seat} {step : EngineStep}

theorem engineStep_pass {payload : Bytes} (h : step.payload? = some payload) :
    s.engineStep number seat step = s.passed seat payload := by
  cases step with
  | randomize | randomizeText =>
    cases h
    rfl
  | _ => contradiction

theorem engineStep_query (h : step.isQuery = true) : s.engineStep number seat step = s := by
  cases step with
  | config | isEnabled | charset | generated => rfl
  | _ => contradiction

/-! ### Positions -/

/-- What the pass takes of the source. -/
def passTakings (s : Stage) (seat : Seat) (payload : Bytes) : List Nat :=
  if seat.shares then (seat.config.pass payload).takings s.left.source else []

def stepTakings (s : Stage) : Step → List Nat
  | .engine number step =>
    match s.engines[s.target number]?, step.payload? with
    | some seat, some payload => s.passTakings seat payload
    | _, _ => []
  | _ => []

def takings : Stage → List Step → List Nat
  | _, [] => []
  | s, step :: steps => s.stepTakings step ++ (s.step step).takings steps

theorem left_passed (h : s.left.source.stream.Aligned) (seat : Seat) (payload : Bytes) :
    (s.passed seat payload).left.source.stream =
      s.left.source.stream.forward (s.passTakings seat payload) := by
  unfold passed passTakings
  split
  · exact SharedSource.passed_stream h seat.config payload
  · rfl

theorem left_step (h : s.left.source.stream.Aligned) (step : Step) :
    (s.step step).left.source.stream = s.left.source.stream.forward (s.stepTakings step) := by
  cases step with
  | settings document =>
    unfold Stage.step
    dsimp only
    split <;> rfl
  | engine number step =>
    unfold Stage.step stepTakings
    dsimp only
    cases s.engines[s.target number]? with
    | none => rfl
    | some seat =>
      cases step with
      | randomize | randomizeText => exact left_passed h seat _
      | _ => rfl
  | _ => rfl

theorem left_after (h : s.left.source.stream.Aligned) (steps : List Step) :
    (s.after steps).left.source.stream = s.left.source.stream.forward (s.takings steps) := by
  induction steps generalizing s with
  | nil => rfl
  | cons step steps ih =>
    have hstep := left_step h step
    have haligned : (s.step step).left.source.stream.Aligned := by
      rw [hstep]
      exact h.forward _
    rw [takings, Stream.forward_append, ← hstep]
    exact ih haligned

end Stage

def Engine.seat (e : Engine) (k : Nat) : Seat := ⟨e.config, e.source == k⟩

namespace Session

variable {σ σ' : Session} {step : Step} {stage : Stage} {e : Engine} {k : Nat}

/-- The stage of the source with that number. -/
structure Shows (σ : Session) (k : Nat) (stage : Stage) : Prop where
  source : σ.sources[k]? = some stage.left
  builder : stage.builder = σ.builder.seat k
  shelf : stage.shelf = σ.shelf.toList.map (·.seat k)
  engines : stage.engines = σ.engines.toList.map (·.seat k)

theorem Shows.target (h : σ.Shows k stage) (number : Option Nat) :
    stage.target number = σ.target number := by
  simp [Stage.target, Session.target, h.engines]

theorem Shows.engine? (h : σ.Shows k stage) (i : Nat) :
    stage.engines[i]? = σ.engines[i]?.map (·.seat k) := by
  simp [h.engines]

theorem Shows.kept (h : σ.Shows k stage) (i : Nat) :
    stage.shelf.getD i stage.builder = (σ.shelf.getD i σ.builder).seat k := by
  rw [h.shelf, h.builder, List.getD_eq_getElem?_getD, List.getElem?_map, Array.getElem?_toList,
    Array.getD_eq_getD_getElem?]
  cases σ.shelf[i]? <;> rfl

theorem Shows.lt (h : σ.Shows k stage) : k < σ.sources.size :=
  (Array.getElem?_eq_some_iff.mp h.source).1

theorem Shows.seat_added (h : σ.Shows k stage) (c : Config) :
    Engine.seat ⟨c, σ.sources.size⟩ k = ⟨c, false⟩ := by
  have hlt := h.lt
  have hne : σ.sources.size ≠ k := by omega
  simp [Engine.seat, hne]

theorem Shows.source_added (h : σ.Shows k stage) (shared : SharedSource) :
    (σ.sources.push shared)[k]? = some stage.left := by
  rw [Array.getElem?_push_lt h.lt, ← h.source]
  exact (Array.getElem?_eq_getElem h.lt).symm

theorem Shows.passed (h : σ.Shows k stage) (e : Engine) (payload : Bytes) :
    (σ.passed e payload).Shows k (stage.passed (e.seat k) payload) := by
  have hsource : (σ.passed e payload).sources[k]? =
      some (if e.source = k then stage.left.passed e.config payload else stage.left) := by
    simp only [Session.passed, Array.getElem?_modify, h.source]
    split <;> rfl
  unfold Stage.passed
  split
  · rename_i hshares
    have heq : e.source = k := by simpa [Engine.seat] using hshares
    rw [if_pos heq] at hsource
    exact ⟨hsource, h.builder, h.shelf, h.engines⟩
  · rename_i hshares
    have hne : e.source ≠ k := by simpa [Engine.seat] using hshares
    rw [if_neg hne] at hsource
    exact ⟨hsource, h.builder, h.shelf, h.engines⟩

theorem Shows.step_engine (h : σ.Shows k stage) {number : Option Nat}
    (he : σ.engines[σ.target number]? = some e) (step : EngineStep) :
    stage.step (.engine number step) =
      stage.engineStep (σ.target number) (e.seat k) step := by
  simp only [Stage.step, h.target, h.engine?, he, Option.map_some]

theorem Shows.engine {i : Nat} (h : σ.Shows k stage) (he : σ.engines[i]? = some e) :
    stage.engines[i]? = some (e.seat k) := by
  rw [h.engine?, he, Option.map_some]

theorem Shows.step_shared {i : Nat} (h : σ.Shows k stage) (he : σ.engines[i]? = some e)
    (hshares : (e.seat k).shares = true) {step : EngineStep} {payload : Bytes}
    (hpayload : step.payload? = some payload) :
    stage.step (.engine (some i) step) =
      { stage with left := stage.left.passed e.config payload } := by
  have htarget : σ.engines[σ.target (some i)]? = some e := he
  rw [h.step_engine htarget, Stage.engineStep_pass hpayload, Stage.passed]
  exact if_pos hshares

theorem Leads.shows (h : Leads σ step σ') (hstage : σ.Shows k stage) :
    σ'.Shows k (stage.step step) := by
  obtain ⟨hsource, hbuilder, hshelf, hengines⟩ := id hstage
  cases h with
  | change change =>
    refine ⟨hsource, ?_, hshelf, hengines⟩
    simp [Stage.step, Stage.changeBuilder, changeBuilder, hbuilder, Engine.seat]
  | settings hload =>
    simp only [Stage.step, hload]
    refine ⟨hsource, ?_, hshelf, hengines⟩
    simp [Stage.changeBuilder, changeBuilder, hbuilder, Engine.seat]
  | refused hload =>
    simp only [Stage.step, hload]
    exact hstage
  -- An added source has a number that nothing had, so whoever gets it does not share this one.
  | source kind =>
    refine ⟨hstage.source_added _, ?_, hshelf, hengines⟩
    simp only [Stage.step, hbuilder]
    exact (hstage.seat_added _).symm
  | freshBuilder =>
    refine ⟨hstage.source_added _, ?_, hshelf, hengines⟩
    exact (hstage.seat_added {}).symm
  | keepBuilder =>
    refine ⟨hsource, hbuilder, ?_, hengines⟩
    simp [Stage.step, hshelf, hbuilder]
  | swapBuilder number =>
    refine ⟨hsource, hstage.kept number, ?_, hengines⟩
    simp [Stage.step, hshelf, hbuilder, List.map_set]
  | build =>
    refine ⟨hsource, hbuilder, hshelf, ?_⟩
    simp [Stage.step, hengines, hbuilder]
  | newEngine =>
    refine ⟨hstage.source_added _, hbuilder, hshelf, ?_⟩
    simp [Stage.step, hengines, factoryEngine, addSource, hstage.seat_added]
  | missing h =>
    simp only [Stage.step, hstage.target, hstage.engine?, h, Option.map_none]
    exact hstage
  | clone h =>
    rw [hstage.step_engine h]
    refine ⟨hsource, hbuilder, hshelf, ?_⟩
    simp [Stage.engineStep, hengines]
  | reset h =>
    rw [hstage.step_engine h]
    refine ⟨hstage.source_added _, hbuilder, hshelf, ?_⟩
    simp [Stage.engineStep, hengines, factoryEngine, addSource, hstage.seat_added]
  | pass h hpayload =>
    rw [hstage.step_engine h, Stage.engineStep_pass hpayload]
    exact hstage.passed _ _
  | query h hquery =>
    rw [hstage.step_engine h, Stage.engineStep_query hquery]
    exact hstage

theorem shows_after (hstage : σ.Shows k stage) (steps : List Step) :
    (σ.after steps).Shows k (stage.after steps) := by
  induction steps generalizing σ stage with
  | nil => exact hstage
  | cons step steps ih => exact ih ((leads_step σ step).shows hstage)

/-! ## A source of one's own -/

/-- A session with one engine, on a source as it stands. -/
def alone (c : Config) (shared : SharedSource) : Session where
  sources := #[shared]
  builder := ⟨c, 0⟩
  engines := #[⟨c, 0⟩]
  entropy := 0

section

variable {i : Nat} {shared : SharedSource} {step : EngineStep} {payload : Bytes}

theorem answer_pass (h : σ.engines[i]? = some e) (hsource : σ.sources[e.source]? = some shared)
    (hpayload : step.payload? = some payload) :
    (σ.step (.engine (some i) step)).1 = ((alone e.config shared).step (.engine none step)).1 := by
  have hstep : σ.step (.engine (some i) step) = σ.engineStep i e step := by
    simp [Session.step, h]
  have halone : (alone e.config shared).step (.engine none step) =
      (alone e.config shared).engineStep 0 ⟨e.config, 0⟩ step := rfl
  have hown : (alone e.config shared).sources[(⟨e.config, 0⟩ : Engine).source]? = some shared := rfl
  rw [hstep, halone]
  cases step with
  | randomize payload =>
    rw [engineStep, engineStep, run_some hsource fun _ => rfl, run_some hown fun _ => rfl]
  | randomizeText text =>
    rw [engineStep, engineStep, run_some hsource (randomizeText_snd e.config text),
      run_some hown (randomizeText_snd e.config text)]
  | _ => contradiction

theorem alone_pass (c : Config) (shared : SharedSource) (hpayload : step.payload? = some payload) :
    ((alone c shared).step (.engine none step)).2.sources[0]? = some (shared.passed c payload) := by
  have halone : ((alone c shared).step (.engine none step)).2 =
      (alone c shared).passed ⟨c, 0⟩ payload := engineStep_pass hpayload
  rw [halone]
  rfl

end

/-! ## Engines that stay -/

def Resets (σ : Session) (i : Nat) (step : Step) : Prop :=
  ∃ number, step = .engine number .reset ∧ σ.target number = i

/-- None of the steps resets the engine. -/
def Spares (i : Nat) : Session → List Step → Prop
  | _, [] => True
  | σ, step :: steps => ¬ σ.Resets i step ∧ Spares i (σ.step step).2 steps

theorem getElem?_push_of_some {i : Nat} (h : σ.engines[i]? = some e) (added : Engine) :
    (σ.engines.push added)[i]? = some e := by
  have hlt := (Array.getElem?_eq_some_iff.mp h).1
  rw [Array.getElem?_push, if_neg (by omega), h]

theorem Leads.frozen {i : Nat} (h : Leads σ step σ') (he : σ.engines[i]? = some e)
    (hspared : ¬ σ.Resets i step) : σ'.engines[i]? = some e := by
  cases h with
  | build | newEngine | clone => exact getElem?_push_of_some he _
  | reset =>
    have hne : σ.target _ ≠ i := fun heq => hspared ⟨_, rfl, heq⟩
    rw [Array.getElem?_setIfInBounds_ne hne, he]
  | _ => exact he

theorem frozen_after {i : Nat} {steps : List Step} (he : σ.engines[i]? = some e)
    (hspared : Spares i σ steps) : (σ.after steps).engines[i]? = some e := by
  induction steps generalizing σ with
  | nil => exact he
  | cons step steps ih => exact ih ((leads_step σ step).frozen he hspared.1) hspared.2

theorem reset_frame (σ : Session) (number : Option Nat) :
    let σ' := (σ.step (.engine number .reset)).2
    (∀ j, j ≠ σ.target number → σ'.engines[j]? = σ.engines[j]?) ∧
      σ'.builder = σ.builder ∧ σ'.shelf = σ.shelf ∧
      ∀ k < σ.sources.size, σ'.sources[k]? = σ.sources[k]? := by
  intro σ'
  have hleads : Leads σ (.engine number .reset) σ' := leads_step σ _
  clear_value σ'
  cases hleads with
  | missing => exact ⟨fun _ _ => rfl, rfl, rfl, fun _ _ => rfl⟩
  | reset =>
    refine ⟨?_, rfl, rfl, ?_⟩
    · intro j hj
      rw [Array.getElem?_setIfInBounds_ne hj.symm]
    · intro k hk
      simp only [factoryEngine, addSource]
      rw [Array.getElem?_push, if_neg (by omega)]
  | pass _ hpayload => contradiction
  | query _ hquery => contradiction

end Session

/-! ## Sessions over one source -/

/-- The source of that kind, where its draws are promised. -/
def SourceKind.determined? : SourceKind → Option SharedSource
  | .unpredictable => none
  | kind => some (.ofKind 0 kind)

theorem SharedSource.ofKind_of_determined? {kind : SourceKind} {shared : SharedSource}
    (h : kind.determined? = some shared) (entropy : UInt64) : ofKind entropy kind = shared := by
  cases kind with
  | unpredictable => contradiction
  | seeded | scripted =>
    cases h
    rfl

theorem SharedSource.aligned_of_determined? {kind : SourceKind} {shared : SharedSource}
    (h : kind.determined? = some shared) : shared.source.stream.Aligned := by
  cases kind with
  | unpredictable => contradiction
  | seeded | scripted =>
    cases h
    exact Nat.dvd_zero _

/-- The builder in hand gets a source that nobody has drawn from. -/
def Stage.opened (shared : SharedSource) (σ : Session) : Stage where
  left := shared
  builder := ⟨σ.builder.config, true⟩
  shelf := σ.shelf.toList.map fun b => ⟨b.config, false⟩
  engines := σ.engines.toList.map fun e => ⟨e.config, false⟩

namespace Session

variable {entropy : UInt64} {kind : SourceKind} {shared : SharedSource}

theorem shows_opened (hkind : kind.determined? = some shared) {σ : Session} (hσ : σ.Wired) :
    (σ.step (.source kind)).2.Shows σ.sources.size (.opened shared σ) := by
  -- Whatever was there before draws from a source with a smaller number.
  have hother {e : Engine} (he : σ.Has e) : e.seat σ.sources.size = ⟨e.config, false⟩ := by
    have hne : e.source ≠ σ.sources.size := (hσ e he).ne
    simp [Engine.seat, hne]
  refine ⟨?_, ?_, ?_, ?_⟩
  · rw [← SharedSource.ofKind_of_determined? hkind σ.entropy]
    exact Array.getElem?_push_size
  · simp [Stage.opened, Session.step, addSource, Engine.seat]
  · apply List.map_congr_left
    intro b hb
    exact (hother (has_of_mem_shelf (Array.mem_toList_iff.mp hb))).symm
  · apply List.map_congr_left
    intro e he
    exact (hother (has_of_mem (Array.mem_toList_iff.mp he))).symm

/-- Of a session over a source whose draws are promised: engines stay as they are unless they are
reset, each pass of one that shares the source goes on where the last one stopped, as an engine of
its own would from there, and moves it on by what it takes, and a reset reaches nothing but its own
engine. -/
theorem engines_share (hkind : kind.determined? = some shared) (before steps : List Step) :
    let opening := (start entropy).after before
    let σ := opening.after (.source kind :: steps)
    let stage := (Stage.opened shared opening).after steps
    (∀ i e later, σ.engines[i]? = some e → Spares i σ later →
      (σ.after later).engines[i]? = some e) ∧
    stage.left.source.stream =
      shared.source.stream.forward ((Stage.opened shared opening).takings steps) ∧
    (∀ i e, σ.engines[i]? = some e → ∃ shares, stage.engines[i]? = some ⟨e.config, shares⟩ ∧
      (shares = true → σ.sources[e.source]? = some stage.left ∧
        ∀ step payload, step.payload? = some payload →
          let own := (alone e.config stage.left).step (.engine none step)
          let next := (stage.step (.engine (some i) step)).left
          (σ.step (.engine (some i) step)).1 = own.1 ∧ own.2.sources[0]? = some next ∧
            next.source.stream = stage.left.source.stream.forward
              ((e.config.pass payload).takings stage.left.source))) ∧
    ∀ number,
      let σ' := (σ.step (.engine number .reset)).2
      (∀ j, j ≠ σ.target number → σ'.engines[j]? = σ.engines[j]?) ∧ σ'.builder = σ.builder ∧
        σ'.shelf = σ.shelf ∧ ∀ e, σ.Has e → σ'.sources[e.source]? = σ.sources[e.source]? := by
  intro opening σ stage
  have hshows : σ.Shows opening.sources.size stage :=
    shows_after (shows_opened hkind (wired_after entropy before)) steps
  have hwired : σ.Wired := by
    have happend : σ = (start entropy).after (before ++ .source kind :: steps) :=
      (after_append _ _ _).symm
    rw [happend]
    exact wired_after entropy _
  have hopened : (Stage.opened shared opening).left.source.stream.Aligned :=
    SharedSource.aligned_of_determined? hkind
  have hstream : stage.left.source.stream =
      shared.source.stream.forward ((Stage.opened shared opening).takings steps) :=
    Stage.left_after hopened steps
  have haligned : stage.left.source.stream.Aligned := by
    rw [hstream]
    exact hopened.forward _
  refine ⟨?_, hstream, ?_, ?_⟩
  · intro i e later he hspared
    exact frozen_after he hspared
  · intro i e he
    refine ⟨_, hshows.engine he, ?_⟩
    intro hshares
    -- The number of the source is the one that was free when it was added.
    have hsource : e.source = opening.sources.size := by simpa using hshares
    have hleft : σ.sources[e.source]? = some stage.left := by
      rw [hsource]
      exact hshows.source
    refine ⟨hleft, ?_⟩
    intro step payload hpayload own next
    have hnext : next = stage.left.passed e.config payload := by
      unfold next
      rw [hshows.step_shared he hshares hpayload]
    rw [hnext]
    exact ⟨answer_pass he hleft hpayload, alone_pass e.config stage.left hpayload,
      SharedSource.passed_stream haligned e.config payload⟩
  · intro number σ'
    obtain ⟨hengines, hbuilder, hshelf, hsources⟩ := reset_frame σ number
    refine ⟨hengines, hbuilder, hshelf, ?_⟩
    intro e he
    exact hsources e.source (hwired e he)

/-- A clone goes on where the engine it was cloned from stopped, which is reset by then. -/
theorem engines_share_clone :
    let kind : SourceKind := .scripted [1, 2, 3, 4, 5] none
    let tag := Bytes.ofText "\x7bRAND\x7d"
    let opening := (start 0).after []
    let steps : List Step := [.build, .engine none .clone, .engine (some 0) (.randomize tag),
      .engine (some 0) .reset]
    let σ := opening.after (.source kind :: steps)
    let stage := (Stage.opened (.ofKind 0 kind) opening).after steps
    σ.sources[1]? = some stage.left ∧
      (σ.step (.engine (some 1) (.randomize tag))).1 =
        ((alone {} stage.left).step (.engine none (.randomize tag))).1 ∧
      (σ.step (.engine (some 0) .reset)).2.engines[1]? = σ.engines[1]? := by
  intro kind tag opening steps σ stage
  have hclone : σ.engines[1]? = some ⟨{}, 1⟩ := rfl
  have hseat : stage.engines[1]? = some ⟨{}, true⟩ := rfl
  have hkind : kind.determined? = some (.ofKind 0 kind) := rfl
  obtain ⟨-, -, hpasses, hresets⟩ := @engines_share 0 _ _ hkind [] steps
  obtain ⟨shares, hshares, hpass⟩ := hpasses 1 _ hclone
  have hon : shares = true := by
    have heq : some (⟨{}, true⟩ : Seat) = some ⟨{}, shares⟩ := hseat.symm.trans hshares
    cases heq
    rfl
  obtain ⟨hleft, hanswer⟩ := hpass hon
  exact ⟨hleft, (hanswer _ tag rfl).1, (hresets (some 0)).1 1 (by decide)⟩

end Session

end TagFill
