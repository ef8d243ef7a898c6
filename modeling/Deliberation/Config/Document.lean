import Deliberation.Config.Basic
import Deliberation.Data.Fields
import Deliberation.Data.Toml.Document
import Deliberation.Data.Toml.Render

/-!
Settings as data documents. Every setting may be left out and then has its default. A file of
settings is written in the format TOML.
-/

namespace Deliberation.Config

open Data (Format ofNamed ofTexts)

def Storage.ofData? (format : Format) (data : Data) : Option Storage := do
  let fields ← data.fields? format
    ["db_path", "wal_mode", "mmap_size", "cache_size", "busy_timeout_ms", "read_pool_size"]
  let defaults : Storage := {}
  return {
    path := ← fields.defaulting "db_path" defaults.path Data.text?
    writeAheadLog := ← fields.defaulting "wal_mode" defaults.writeAheadLog Data.bool?
    mmapSize := ← fields.defaulting "mmap_size" defaults.mmapSize Data.nat64?
    cacheSize := ← fields.defaulting "cache_size" defaults.cacheSize
      (Data.intBetween? Id.least Id.greatest)
    busyTimeout := ← fields.defaulting "busy_timeout_ms" defaults.busyTimeout Data.nat32?
    readers := ← fields.defaulting "read_pool_size" defaults.readers Data.nat64? }

def Storage.toData (storage : Storage) : Data := .record [
  ("db_path", .text storage.path),
  ("wal_mode", .bool storage.writeAheadLog),
  ("mmap_size", .int storage.mmapSize),
  ("cache_size", .int storage.cacheSize),
  ("busy_timeout_ms", .int storage.busyTimeout),
  ("read_pool_size", .int storage.readers)]

def Graph.ofData? (format : Format) (data : Data) : Option Graph := do
  let fields ← data.fields? format ["closure_strategy"]
  let defaults : Graph := {}
  return {
    strategy := ← fields.defaulting "closure_strategy" defaults.strategy (Data.named? format) }

def Graph.toData (graph : Graph) : Data := .record [
  ("closure_strategy", ofNamed graph.strategy)]

def WordWeights.ofData? (format : Format) (data : Data) : Option WordWeights := do
  let fields ← data.fields? format
    ["short_title", "long_title", "definition", "post_subject", "post_body"]
  let defaults : WordWeights := {}
  return {
    shortTitle := ← fields.defaulting "short_title" defaults.shortTitle Data.float?
    longTitle := ← fields.defaulting "long_title" defaults.longTitle Data.float?
    definition := ← fields.defaulting "definition" defaults.definition Data.float?
    subject := ← fields.defaulting "post_subject" defaults.subject Data.float?
    body := ← fields.defaulting "post_body" defaults.body Data.float? }

def WordWeights.toData (weights : WordWeights) : Data :=
  .record (weights.toList.map fun (name, weight) => (name, .float weight))

def Analytics.ofData? (format : Format) (data : Data) : Option Analytics := do
  let fields ← data.fields? format
    ["word_weights", "default_word_count", "min_word_length", "default_locales", "tie_break"]
  let defaults : Analytics := {}
  return {
    wordWeights := ← fields.defaulting "word_weights" defaults.wordWeights
      (WordWeights.ofData? format)
    wordCount := ← fields.defaulting "default_word_count" defaults.wordCount Data.nat64?
    leastWordLength := ← fields.defaulting "min_word_length" defaults.leastWordLength Data.nat64?
    locales := ← fields.defaulting "default_locales" defaults.locales Data.texts?
    tieBreak := ← fields.defaulting "tie_break" defaults.tieBreak (Data.named? format) }

def Analytics.toData (analytics : Analytics) : Data := .record [
  ("word_weights", analytics.wordWeights.toData),
  ("default_word_count", .int analytics.wordCount),
  ("min_word_length", .int analytics.leastWordLength),
  ("default_locales", ofTexts analytics.locales),
  ("tie_break", ofNamed analytics.tieBreak)]

def Observability.ofData? (format : Format) (data : Data) : Option Observability := do
  let fields ← data.fields? format ["log_level", "json_logs"]
  let defaults : Observability := {}
  return {
    logLevel := ← fields.defaulting "log_level" defaults.logLevel Data.text?
    jsonLogs := ← fields.defaulting "json_logs" defaults.jsonLogs Data.bool? }

def Observability.toData (observability : Observability) : Data := .record [
  ("log_level", .text observability.logLevel),
  ("json_logs", .bool observability.jsonLogs)]

def ofData? (format : Format) (data : Data) : Option Config := do
  let fields ← data.fields? format ["storage", "graph", "analytics", "observability"]
  return {
    storage := ← fields.defaulting "storage" {} (Storage.ofData? format)
    graph := ← fields.defaulting "graph" {} (Graph.ofData? format)
    analytics := ← fields.defaulting "analytics" {} (Analytics.ofData? format)
    observability := ← fields.defaulting "observability" {} (Observability.ofData? format) }

def toData (config : Config) : Data := .record [
  ("storage", config.storage.toData),
  ("graph", config.graph.toData),
  ("analytics", config.analytics.toData),
  ("observability", config.observability.toData)]

def ofToml? (text : String) : Option Config :=
  (Toml.read? text).bind (ofData? .toml)

/-- The settings as a TOML document. A number that the format cannot hold leaves them without
one. -/
def toToml? (config : Config) : Option String :=
  Toml.render? config.toData

def inlineName : String := "<string>"

/-- The settings that a TOML document says, which have to be acceptable. -/
def fromToml (text : String) : Except Error Config :=
  match ofToml? text with
  | none => .error (.config (.unreadable inlineName))
  | some config => config.validated

/-- The settings of the file `path` with the content `text?`, if there is such a file, under the
given environment. -/
def load (path : String) (text? : Option String) (environment : Environment) :
    Except Error Config :=
  match text?.bind ofToml? with
  | none => .error (.config (.unreadable path))
  | some config => (config.override environment).validated

/-- Whether writing the settings and reading them again gives the same settings, where they can be
written. -/
def survivesToml? (config : Config) : Option Bool :=
  config.toToml?.map fun text =>
    match fromToml text with
    | .ok again => again == config
    | .error _ => false

end Deliberation.Config
