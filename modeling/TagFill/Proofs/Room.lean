import TagFill.Proofs.Changes
import TagFill.Proofs.Splitting
import TagFill.Proofs.Steps

/-! # Room for a pass

The room that a pass sets aside grows with the default length, whatever its tags declare. No change
bounds that length, so the room is bounded by what the steps of a session set, and by nothing else.
-/

namespace TagFill

/-! ## Default lengths -/

/-- The default length that a change sets. -/
def Change.defaultLength? : Change → Option Nat
  | .defaultLength n => some n
  | .settings s => s.defaultLength
  | _ => none

def Step.defaultLength? (step : Step) : Option Nat := step.change? >>= Change.defaultLength?

def Step.payload? : Step → Option Bytes
  | .engine _ step => step.payload?
  | _ => none

namespace Config

variable {c : Config} {change : Change} {payload : Bytes} {limit size : Nat}

theorem apply_defaultLength (h : limit ≠ 0) :
    c.apply (.defaultLength limit) = { c with defaultLength := limit } := if_neg h

theorem defaultLength_apply_of_isSingle (h : change.IsSingle) :
    (c.apply change).defaultLength = c.defaultLength ∨
      change.defaultLength? = some (c.apply change).defaultLength := by
  cases change with
  | settings => contradiction
  | defaultLength n =>
    simp only [apply, setDefaultLength]
    split
    · exact .inl rfl
    · exact .inr rfl
  | minLength n =>
    left
    simp only [apply, setMinLength]
    split <;> rfl
  | maxLength n =>
    left
    simp only [apply, setMaxLength]
    split <;> rfl
  | providers list =>
    left
    simp only [apply, setProviders]
    split <;> rfl
  | charset name chars =>
    left
    simp only [apply, addCharset]
    split <;> rfl
  | _ => exact .inl rfl

theorem defaultLength_apply_le (hc : c.defaultLength ≤ limit)
    (h : ∀ n, change.defaultLength? = some n → n ≤ limit) :
    (c.apply change).defaultLength ≤ limit := by
  have hsingles : ∀ single ∈ change.singles, ∀ n, single.defaultLength? = some n → n ≤ limit := by
    intro single hmem n hn
    cases change with
    | settings s =>
      cases single with
      | defaultLength m =>
        cases hn
        apply h
        simpa [Change.singles, Settings.changes, Change.defaultLength?] using hmem
      | settings => simp [Change.singles, Settings.changes] at hmem
      | _ => contradiction
    | _ =>
      rw [List.mem_singleton.mp hmem] at hn
      exact h n hn
  rw [apply_eq, applyAll]
  refine List.foldlRecOn (motive := fun c => c.defaultLength ≤ limit) change.singles apply hc ?_
  intro c hc single hmem
  have hsingle := change.isSingle_singles single hmem
  obtain heq | hset := defaultLength_apply_of_isSingle (c := c) hsingle
  · rwa [heq]
  · exact hsingles single hmem _ hset

/-! ## One pass -/

theorem room_le (hpayload : payload.length ≤ size) (hc : c.defaultLength ≤ limit)
    (hfit : size + limit * 4 ≤ maxRoom) : c.room payload ≤ maxRoom := by
  unfold room
  omega

theorem breaksOff_of_le (h : c.room payload ≤ maxRoom) : c.breaksOff payload = false := by
  simp [breaksOff, h]

/-- A tag that is filled has a length of its own. -/
def DeclaresLengths (c : Config) (payload : Bytes) : Prop :=
  ∀ tag, .tag tag ∈ segments c.accepted payload →
    match c.tagBody tag with
    | .bare | .fields .absent _ => False
    | .malformed | .fields _ _ => True

/-- An opening delimiter, and whatever else fills up the payload. -/
def opened (size : Nat) : Bytes :=
  Delimiter.raw .tagOpen ++ List.replicate (size - (Delimiter.raw .tagOpen).length) 0

theorem length_opened (h : (Delimiter.raw .tagOpen).length ≤ size) :
    (opened size).length = size := by
  rw [opened, List.length_append, List.length_replicate]
  omega

theorem opensTag_opened (accepted : Dialects) (size : Nat) :
    opensTag accepted (opened size) = true := by
  unfold opensTag opened
  rw [Delimiter.find?_spelling_append Delimiter.raw_mem_spellings]
  rfl

theorem breaksOff_opened (h : (Delimiter.raw .tagOpen).length ≤ size)
    (hroom : maxRoom < size + c.defaultLength * 4) : c.breaksOff (opened size) = true := by
  rw [breaksOff, opensTag_opened, room, length_opened h]
  simpa using hroom

theorem declaresLengths_opened (c : Config) (size : Nat) : c.DeclaresLengths (opened size) := by
  have hheads : ∀ s ∈ Delimiter.tagClose.spellings c.accepted, ∀ x ∈ s.head?,
      x ∉ List.replicate (size - (Delimiter.raw .tagOpen).length) 0 := by
    intro s hs x hx hmem
    have htable : ∀ p ∈ Delimiter.table, p.2.head? ≠ some 0 := by decide
    obtain rfl := List.eq_of_mem_replicate hmem
    exact htable _ (Delimiter.mem_table hs) hx
  have hfirst : firstTag? c.accepted (opened size) = none := by
    have hclose := Delimiter.find?_append_of_head (b := []) hheads
    rw [List.append_nil, Delimiter.find?_nil, Option.map_none] at hclose
    rw [opened, firstTag?, Delimiter.find?_spelling_append Delimiter.raw_mem_spellings]
    simp [hclose]
  intro tag hmem
  have hne : opened size ≠ [] := by simp [opened, Delimiter.raw_ne_nil]
  rw [segments_of_firstTag?_none hfirst, Segment.literals_of_ne_nil hne, List.mem_singleton] at hmem
  contradiction

end Config

/-! ## Sessions -/

/-- A step that sets no longer default length, and has no larger payload to fill. -/
structure Step.Within (limit size : Nat) (step : Step) : Prop where
  defaultLength : ∀ n, step.defaultLength? = some n → n ≤ limit
  payload : ∀ payload, step.payload? = some payload → payload.length ≤ size

namespace Session

variable {σ σ' : Session} {step : Step} {steps : List Step} {limit size : Nat}

def Within (σ : Session) (limit : Nat) : Prop := ∀ e, σ.Has e → e.config.defaultLength ≤ limit

theorem Leads.within (h : Leads σ step σ') (hstep : ∀ n, step.defaultLength? = some n → n ≤ limit)
    (hdefault : ({} : Config).defaultLength ≤ limit) (hσ : σ.Within limit) : σ'.Within limit := by
  intro e he
  obtain he | ⟨change, hchange, rfl⟩ | ⟨-, -, heq | heq⟩ := h.has he
  · exact hσ e he
  · apply Config.defaultLength_apply_le (hσ σ.builder (.inl rfl))
    intro n hn
    apply hstep
    rw [Step.defaultLength?, hchange]
    exact hn
  · rw [heq]
    exact hσ σ.builder (.inl rfl)
  · rwa [heq]

theorem within_start (entropy : UInt64) (hdefault : ({} : Config).defaultLength ≤ limit) :
    (start entropy).Within limit := by
  intro e he
  rw [start_has] at he
  rwa [he]

theorem within_after (hsteps : ∀ step ∈ steps, step.Within limit size)
    (hdefault : ({} : Config).defaultLength ≤ limit) (hσ : σ.Within limit) :
    (σ.after steps).Within limit := by
  induction steps generalizing σ with
  | nil => exact hσ
  | cons step steps ih =>
    rw [List.forall_mem_cons] at hsteps
    exact ih hsteps.2 ((leads_step σ step).within hsteps.1.defaultLength hdefault hσ)

theorem answers_of_answers? {given : List Answer} (h : σ.answers? steps = some given) :
    σ.answers steps = given := by
  induction steps generalizing σ given with
  | nil => exact Option.some.inj h
  | cons step steps ih =>
    rw [answers?] at h
    split at h
    · contradiction
    · obtain ⟨rest, hrest, rfl⟩ := Option.map_eq_some_iff.mp h
      rw [answers, ih hrest]

theorem exists_of_breaksOff (h : σ.breaksOff step = true) :
    ∃ e payload, σ.Has e ∧ step.payload? = some payload ∧ e.config.breaksOff payload = true := by
  cases step with
  | engine number step =>
    unfold breaksOff at h
    dsimp only at h
    split at h
    · rename_i e payload he
      exact ⟨e, payload, has_of_getElem? he, rfl, h⟩
    · rename_i e text he
      exact ⟨e, Bytes.ofText text, has_of_getElem? he, rfl, h⟩
    · contradiction
  | _ => contradiction

theorem Within.not_breaksOff (hσ : σ.Within limit) (hstep : step.Within limit size)
    (hfit : size + limit * 4 ≤ Config.maxRoom) : σ.breaksOff step = false := by
  rw [← Bool.not_eq_true]
  intro h
  obtain ⟨e, payload, he, hpayload, hbreaks⟩ := exists_of_breaksOff h
  have hroom := Config.room_le (hstep.payload payload hpayload) (hσ e he) hfit
  rw [Config.breaksOff_of_le hroom] at hbreaks
  contradiction

theorem Within.answers?_eq (hσ : σ.Within limit) (hdefault : ({} : Config).defaultLength ≤ limit)
    (hfit : size + limit * 4 ≤ Config.maxRoom) (hsteps : ∀ step ∈ steps, step.Within limit size) :
    σ.answers? steps = some (σ.answers steps) := by
  induction steps generalizing σ with
  | nil => rfl
  | cons step steps ih =>
    rw [List.forall_mem_cons] at hsteps
    have hnext := (leads_step σ step).within hsteps.1.defaultLength hdefault hσ
    rw [answers?, hσ.not_breaksOff hsteps.1 hfit, ih hnext hsteps.2]
    rfl

/-- What a step has to fill, and the engine that fills it. -/
def pass? (σ : Session) : Step → Option (Engine × Bytes)
  | .engine number step => do return (← σ.engines[σ.target number]?, ← step.payload?)
  | _ => none

/-- Only tags with a length of their own are filled. -/
def Declared : Session → List Step → Prop
  | _, [] => True
  | σ, step :: steps =>
    (∀ e payload, σ.pass? step = some (e, payload) → e.config.DeclaresLengths payload) ∧
      Declared (σ.step step).2 steps

/-! ## The bound -/

/-- The default length is set, and the engine that is built has to fill the payload. -/
def filling (length : Nat) (payload : Bytes) : List Step :=
  [.change (.defaultLength length), .build, .engine none (.randomize payload)]

theorem filling_within (limit : Nat) {payload : Bytes} (hpayload : payload.length ≤ size) :
    ∀ step ∈ filling limit payload, step.Within limit size := by
  simp only [filling, List.forall_mem_cons, List.not_mem_nil, false_imp_iff, implies_true, and_true]
  refine ⟨⟨?_, ?_⟩, ⟨?_, ?_⟩, ⟨?_, ?_⟩⟩
  · rintro n ⟨⟩
    exact Nat.le_refl limit
  · rintro _ ⟨⟩
  · rintro _ ⟨⟩
  · rintro _ ⟨⟩
  · rintro _ ⟨⟩
  · rintro _ ⟨⟩
    exact hpayload

theorem answers?_filling {payload : Bytes} (entropy : UInt64) (hlimit : limit ≠ 0)
    (h : ({ defaultLength := limit } : Config).breaksOff payload = true) :
    (start entropy).answers? (filling limit payload) = none := by
  simp [filling, answers?, breaksOff, Session.step, changeBuilder, addEngine, start, factoryEngine,
    addSource, Config.apply_defaultLength hlimit, h]

theorem declared_filling {payload : Bytes} (h : ∀ c : Config, c.DeclaresLengths payload) :
    Declared σ (filling limit payload) := by
  refine ⟨?_, ?_, ?_, trivial⟩
  · rintro _ _ ⟨⟩
  · rintro _ _ ⟨⟩
  · intro e filled hpass
    obtain ⟨_, -, hpass⟩ := Option.bind_eq_some_iff.mp hpass
    cases hpass
    exact h _

/-- No pass breaks off for want of room, where each tag has a length of its own, just where the
largest payload and the longest default length leave room. -/
theorem room_suffices_iff (entropy : UInt64) (hlimit : ({} : Config).defaultLength ≤ limit)
    (hsize : (Delimiter.raw .tagOpen).length ≤ size) :
    ((∀ steps, (∀ step ∈ steps, step.Within limit size) → Declared (start entropy) steps →
        (start entropy).answers? steps = some ((start entropy).answers steps)) ↔
      size + limit * 4 ≤ Config.maxRoom) ∧
    ((∀ steps, (∀ step ∈ steps, step.Within limit size) →
        ∀ e, ((start entropy).after steps).Has e →
          ∀ payload : Bytes, payload.length ≤ size → e.config.room payload ≤ Config.maxRoom) ↔
      size + limit * 4 ≤ Config.maxRoom) := by
  have hstart := within_start entropy hlimit
  have hne : limit ≠ 0 := by
    rintro rfl
    contradiction
  refine ⟨⟨?_, ?_⟩, ⟨?_, ?_⟩⟩
  · intro hall
    by_contra hroom
    have hopened := Config.length_opened hsize
    have hdeclared : Declared (start entropy) (filling limit (Config.opened size)) :=
      declared_filling fun c => c.declaresLengths_opened size
    have hsome := hall _ (filling_within limit (Nat.le_of_eq hopened)) hdeclared
    rw [answers?_filling entropy hne (Config.breaksOff_opened hsize (Nat.lt_of_not_le hroom))]
      at hsome
    contradiction
  · intro hfit steps hsteps _
    exact hstart.answers?_eq hlimit hfit hsteps
  · intro hall
    have hsteps : ∀ step ∈ [Step.change (.defaultLength limit)], step.Within limit size := by
      intro step hstep
      have hnil : ([] : Bytes).length ≤ size := Nat.zero_le size
      obtain rfl := List.mem_singleton.mp hstep
      exact filling_within limit hnil _ List.mem_cons_self
    have hroom := hall _ hsteps _ (.inl rfl) (List.replicate size 0)
      (Nat.le_of_eq List.length_replicate)
    change (({} : Config).apply (.defaultLength limit)).room _ ≤ _ at hroom
    rwa [Config.apply_defaultLength hne, Config.room, List.length_replicate] at hroom
  · intro hfit steps hsteps e he payload hpayload
    exact Config.room_le hpayload (within_after hsteps hlimit hstart e he) hfit

/-- For payloads of up to 4 GiB, the default length that still leaves room and the one behind it. -/
theorem room_suffices_iff_largest :
    (∀ steps, (∀ step ∈ steps, step.Within 2305843008139952127 4294967296) →
      Declared (start 0) steps → (start 0).answers? steps = some ((start 0).answers steps)) ∧
    ¬ ∀ steps, (∀ step ∈ steps, step.Within 2305843008139952128 4294967296) →
      Declared (start 0) steps → (start 0).answers? steps = some ((start 0).answers steps) := by
  constructor
  · rw [(room_suffices_iff 0 (by decide) (by decide)).1]
    decide
  · rw [(room_suffices_iff 0 (by decide) (by decide)).1]
    decide

/-- The tag declares its length, and settings with the default length are valid. -/
theorem room_exceeded :
    let payload := Bytes.ofText "\x7bRAND;4;SPACE\x7d"
    let document : SettingsDocument :=
      .json (.object [("default_length", .natural 0x2000000000000000)]) true
    (∃ s, Settings.load document = .ok s ∧
      (Config.ofChanges [.settings s]).tagBody payload =
        .fields (.fixed 4) (.single (Bytes.ofText "SPACE")) ∧
      (Config.ofChanges [.settings s]).breaksOff payload = true) ∧
    (start 0).answers? [.change (.defaultLength 0x2000000000000000), .build,
      .engine none (.randomize payload)] = none ∧
    ¬ ∀ (changes : List Change) (payload : Bytes), payload.length ≤ 0x100000000 →
      (Config.ofChanges changes).room payload ≤ Config.maxRoom := by
  intro payload document
  have hload : Settings.load document = .ok { defaultLength := some 0x2000000000000000 } := rfl
  refine ⟨⟨_, hload, by decide +kernel, by decide +kernel⟩, ?_, ?_⟩
  · exact answers?_filling 0 (by decide) (by decide +kernel)
  · intro hall
    exact absurd (hall [.defaultLength 0x2000000000000000] payload (by decide)) (by decide)

end Session

end TagFill
