import Deliberation.Error
import Deliberation.Named

/-!
The settings of the engine: their defaults, what the environment overrides, and which values are
refused.
-/

namespace Deliberation

inductive ClosureStrategy where
  /-- By one recursive query of the store. Looks upward from a single idea only. -/
  | native
  /-- By rounds of neighbour queries until nothing new is found. -/
  | fixedPoint
deriving DecidableEq, Repr

instance : Named ClosureStrategy where
  all := [.native, .fixedPoint]
  name
    | .native => "native"
    | .fixedPoint => "fixed_point"

inductive TieBreak where
  | firstContribution
  | agentId
deriving DecidableEq, Repr

instance : Named TieBreak where
  all := [.firstContribution, .agentId]
  name
    | .firstContribution => "first_contribution"
    | .agentId => "agent_id"

namespace Config

/-- The path that stands for a private database in memory. -/
def memoryPath : String := ":memory:"

structure Storage where
  path : String := "agora.db"
  writeAheadLog : Bool := true
  mmapSize : Nat := 268435456
  /-- Pages of the cache; a negative number counts kibibytes. -/
  cacheSize : Int := -64000
  busyTimeout : Nat := 5000
  readers : Nat := 4
deriving DecidableEq, Repr

namespace Storage

def inMemory : Storage := { path := memoryPath }

def isInMemory (storage : Storage) : Bool := storage.path == memoryPath

end Storage

structure Graph where
  strategy : ClosureStrategy := .native
deriving DecidableEq, Repr

structure WordWeights where
  shortTitle : Float := 2
  longTitle : Float := 1
  definition : Float := 1
  subject : Float := 1
  body : Float := 0.5
deriving Repr, BEq

def WordWeights.toList (weights : WordWeights) : List (String × Float) := [
  ("short_title", weights.shortTitle),
  ("long_title", weights.longTitle),
  ("definition", weights.definition),
  ("post_subject", weights.subject),
  ("post_body", weights.body)]

structure Analytics where
  wordWeights : WordWeights := {}
  wordCount : Nat := 8
  leastWordLength : Nat := 3
  /-- Locales of a discussion that declares none. -/
  locales : List String := ["en"]
  tieBreak : TieBreak := .firstContribution
deriving Repr, BEq

structure Observability where
  logLevel : String := "info"
  jsonLogs : Bool := true
deriving DecidableEq, Repr

def logLevels : List String := ["trace", "debug", "info", "warn", "error"]

end Config

structure Config where
  storage : Config.Storage := {}
  graph : Config.Graph := {}
  analytics : Config.Analytics := {}
  observability : Config.Observability := {}
deriving Repr, BEq

namespace Config

/-- Whether a weight is refused: it must be finite and not negative. -/
def isBadWeight (weight : Float) : Bool := !weight.isFinite || weight < 0

def fault? (config : Config) : Option ConfigFault :=
  if config.storage.readers = 0 then some .emptyReadPool
  else match config.analytics.wordWeights.toList.find? fun entry => isBadWeight entry.2 with
    | some (field, _) => some (.badWeight field)
    | none =>
      if logLevels.contains config.observability.logLevel then none
      else some (.unknownLogLevel config.observability.logLevel)

def validate (config : Config) : Except Error Unit :=
  match config.fault? with
  | some fault => .error (.config fault)
  | none => .ok ()

def validated (config : Config) : Except Error Config := do
  config.validate
  return config

abbrev Environment := String → Option String

/-- A pool size as the environment gives it: digits with an optional plus. -/
def poolSize? (text : String) : Option Nat :=
  let digits := match text.toList with
    | '+' :: cs => cs
    | cs => cs
  (Numeral.nat? 10 digits).filter (· < 18446744073709551616)

/-- The settings with what the environment overrides. A value that cannot be read overrides
nothing. -/
def override (config : Config) (environment : Environment) : Config where
  storage := { config.storage with
    path := (environment "AGORA_DB_PATH").getD config.storage.path
    readers := ((environment "AGORA_READ_POOL_SIZE").bind poolSize?).getD config.storage.readers }
  graph := {
    strategy := ((environment "AGORA_CLOSURE_STRATEGY").bind Named.ofName?).getD
      config.graph.strategy }
  analytics := config.analytics
  observability := { config.observability with
    logLevel := (environment "AGORA_LOG_LEVEL").getD config.observability.logLevel }

end Config

end Deliberation
