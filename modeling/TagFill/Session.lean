import TagFill.Config.Change
import TagFill.Randomize
import TagFill.Settings.Load

/-! # Sessions

A session has builders, one of them in hand, and the engines built from them. A source belongs to
the session, and builders and engines only refer to it: what one of them draws moves the stream on
for all that share it.
-/

namespace TagFill

/-- What a source is made from. -/
inductive SourceKind
  /-- No draw of it is promised. -/
  | unpredictable
  | seeded (seed : UInt64)
  | scripted (script : Bytes) (allowance : Option Allowance)

/-- What has been drawn from a source so far. -/
structure Totals where
  drawn : Nat
  calls : Nat
  deriving DecidableEq, Repr

/-- A source and whether its totals are shown. -/
structure SharedSource where
  source : Source
  isAudited : Bool

namespace SharedSource

def totals? (s : SharedSource) : Option Totals :=
  if s.isAudited then some ⟨s.source.drawn, s.source.calls⟩ else none

/-- A source of the given kind. An unpredictable one takes its seed from the caller. -/
def ofKind (entropy : UInt64) : SourceKind → SharedSource
  | .unpredictable => ⟨.seeded entropy, false⟩
  | .seeded seed => ⟨.seeded seed, false⟩
  | .scripted script allowance => ⟨.scripted script allowance, true⟩

end SharedSource

/-- A configuration and the number of the source to draw from. A builder holds the same. -/
structure Engine where
  config : Config
  source : Nat

structure Session where
  sources : Array SharedSource
  /-- The builder in hand. -/
  builder : Engine
  /-- The builders that were put aside. -/
  shelf : Array Engine := #[]
  engines : Array Engine := #[]
  /-- Seeds for sources that no draw is promised of. -/
  entropy : UInt64

/-! ## Steps -/

inductive EngineStep
  | clone
  | reset
  | config
  | isEnabled (name : String)
  | charset (name : String)
  | generated (name : String) (n : Nat)
  | randomize (payload : Bytes)
  | randomizeText (payload : String)

inductive Step
  | change (change : Change)
  | settings (document : SettingsDocument)
  | source (kind : SourceKind)
  | freshBuilder
  /-- A copy of the builder in hand is put aside. -/
  | keepBuilder
  /-- The builder in hand and the one of that number on the shelf, if any, change places. -/
  | swapBuilder (number : Nat)
  | build
  | newEngine
  /-- A step of the engine with that number, or of the last one. -/
  | engine (number : Option Nat) (step : EngineStep)

inductive Answer
  | done
  | noEngine
  | refused (error : SettingsError)
  | engine (number : Nat)
  | config (config : Config)
  | flag (value : Bool)
  | bytes (value : Option Bytes)
  | filled (result : Except DrawError Revised) (totals : Option Totals)
  | text (result : Except DrawError String) (totals : Option Totals)

namespace Session

/-- Adds a source and gives its number. -/
def addSource (s : Session) (kind : SourceKind) : Nat × Session :=
  (s.sources.size,
    { s with sources := s.sources.push (.ofKind s.entropy kind), entropy := s.entropy + 1 })

/-- A factory engine has the default configuration and a source of its own. -/
def factoryEngine (s : Session) : Engine × Session :=
  let (source, s) := s.addSource .unpredictable
  ({ config := {}, source := source }, s)

def start (entropy : UInt64) : Session :=
  let (builder, s) := factoryEngine ⟨#[], { config := {}, source := 0 }, #[], #[], entropy⟩
  { s with builder := builder }

def addEngine (s : Session) (e : Engine) : Answer × Session :=
  (.engine s.engines.size, { s with engines := s.engines.push e })

/-- Lets a pass draw from the source of that number. -/
def run {α : Type} (s : Session) (source : Nat) (pass : Source → Drawn α) :
    Option (Except DrawError α × Option Totals × Session) := do
  let shared ← s.sources[source]?
  let (result, after) := pass shared.source
  let shared := { shared with source := after }
  return (result, shared.totals?, { s with sources := s.sources.setIfInBounds source shared })

def engineStep (s : Session) (number : Nat) (e : Engine) : EngineStep → Answer × Session
  | .clone => s.addEngine e
  | .reset =>
    let (fresh, s) := s.factoryEngine
    (.done, { s with engines := s.engines.setIfInBounds number fresh })
  | .config => (.config e.config, s)
  | .isEnabled name => (.flag (e.config.isEnabled name), s)
  | .charset name => (.bytes (e.config.charset? name), s)
  | .generated name n => (.bytes ((e.config.generator? name).map (· n)), s)
  | .randomize payload =>
    match s.run e.source (e.config.randomize payload) with
    | some (result, totals, s) => (.filled result totals, s)
    | none => (.noEngine, s)
  | .randomizeText payload =>
    match s.run e.source (e.config.randomizeText payload) with
    | some (result, totals, s) => (.text result totals, s)
    | none => (.noEngine, s)

def changeBuilder (s : Session) (change : Change) : Session :=
  { s with builder := { s.builder with config := s.builder.config.apply change } }

/-- An engine gets a copy of the builder, so later changes of the builder do not reach it. -/
def step (s : Session) : Step → Answer × Session
  | .change change => (.done, s.changeBuilder change)
  | .settings document =>
    match Settings.load document with
    | .ok settings => (.done, s.changeBuilder (.settings settings))
    | .error e => (.refused e, s)
  | .source kind =>
    let (source, s) := s.addSource kind
    (.done, { s with builder := { s.builder with source := source } })
  | .freshBuilder =>
    let (builder, s) := s.factoryEngine
    (.done, { s with builder := builder })
  | .keepBuilder => (.done, { s with shelf := s.shelf.push s.builder })
  | .swapBuilder number =>
    (.done, { s with
      builder := s.shelf.getD number s.builder
      shelf := s.shelf.setIfInBounds number s.builder })
  | .build => s.addEngine s.builder
  | .newEngine =>
    let (e, s) := s.factoryEngine
    s.addEngine e
  | .engine number step =>
    let number := number.getD (s.engines.size - 1)
    match s.engines[number]? with
    | some e => s.engineStep number e step
    | none => (.noEngine, s)

/-- The answers to the steps, in their order. -/
def answers (s : Session) : List Step → List Answer
  | [] => []
  | step :: rest => (s.step step).1 :: (s.step step).2.answers rest

/-! ## Passes that break off -/

def breaksOff (s : Session) : Step → Bool
  | .engine number step =>
    match s.engines[number.getD (s.engines.size - 1)]?, step with
    | some e, .randomize payload => e.config.breaksOff payload
    | some e, .randomizeText payload => e.config.breaksOff (Bytes.ofText payload)
    | _, _ => false
  | _ => false

/-- The answers to the steps, or nothing at all where one of them is a pass that breaks off. -/
def answers? (s : Session) : List Step → Option (List Answer)
  | [] => some []
  | step :: rest =>
    if s.breaksOff step then none
    else ((s.step step).2.answers? rest).map ((s.step step).1 :: ·)

end Session

end TagFill
