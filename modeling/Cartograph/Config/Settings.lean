import Cartograph.Digest.Fingerprint
import Cartograph.Json.Write

/-!
# Settings

The settings of a configuration file, as they are written there: every setting may be absent, and
nothing has been checked yet. Two files with the same `Settings.fingerprint` give the same findings,
because the fingerprint covers every setting except the number of workers and the store.
-/

namespace Cartograph

structure AnalyzerSettings where
  root : Option String := none
  included : Option (List String) := none
  excluded : Option (List String) := none
  packages : Option (List String) := none
  respectIgnoreFiles : Option Bool := none
  concurrency : Option Nat := none
  minSeverity : Option String := none
  deriving DecidableEq, Repr

structure CacheSettings where
  enabled : Option Bool := none
  dir : Option String := none
  strict : Option Bool := none
  deriving DecidableEq, Repr

structure CategorySettings where
  enabled : Option Bool := none
  severity : Option String := none
  deriving DecidableEq, Repr

structure CycleSettings where
  granularity : Option String := none
  deriving DecidableEq, Repr

structure DependencySettings where
  countTypeOnly : Option Bool := none
  unusedSeverity : Option String := none
  missingSeverity : Option String := none
  unresolvedSeverity : Option String := none
  ignored : Option (List String) := none
  deriving DecidableEq, Repr

structure ArchitectureSettings where
  enforcePublicApi : Option Bool := none
  allowBarrelExports : Option (List String) := none
  deriving DecidableEq, Repr

structure LayerSettings where
  name : String
  paths : List String
  allow : List String := []
  deriving DecidableEq, Repr

structure Settings where
  analyzer : AnalyzerSettings := {}
  cache : CacheSettings := {}
  /-- The settings of categories, by name. -/
  categories : List (String × CategorySettings) := []
  cycles : CycleSettings := {}
  dependencies : DependencySettings := {}
  architecture : ArchitectureSettings := {}
  layers : List LayerSettings := []
  deriving DecidableEq, Repr

/-! ### The JSON form -/

namespace Settings

def textsToJson (l : Option (List String)) : Json := .ofOption (.ofList .text) l

def textToJson (s : Option String) : Json := .ofOption .text s

def flagToJson (b : Option Bool) : Json := .ofOption .bool b

def toJson (s : Settings) : Json :=
  .object [
    ("analyzer", .object [
      ("root", textToJson s.analyzer.root),
      ("include", textsToJson s.analyzer.included),
      ("exclude", textsToJson s.analyzer.excluded),
      ("packages", textsToJson s.analyzer.packages),
      ("respect_gitignore", flagToJson s.analyzer.respectIgnoreFiles),
      ("concurrency", .ofOption .ofNat s.analyzer.concurrency),
      ("min_severity", textToJson s.analyzer.minSeverity)]),
    ("cache", .object [
      ("enabled", flagToJson s.cache.enabled),
      ("dir", textToJson s.cache.dir),
      ("strict", flagToJson s.cache.strict)]),
    ("categories", .object (s.categories.map fun (name, c) => (name, .object [
      ("enabled", flagToJson c.enabled),
      ("severity", textToJson c.severity)]))),
    ("cycles", .object [("granularity", textToJson s.cycles.granularity)]),
    ("dependencies", .object [
      ("count_type_only", flagToJson s.dependencies.countTypeOnly),
      ("unused_severity", textToJson s.dependencies.unusedSeverity),
      ("missing_severity", textToJson s.dependencies.missingSeverity),
      ("unresolved_severity", textToJson s.dependencies.unresolvedSeverity),
      ("ignore", textsToJson s.dependencies.ignored)]),
    ("architecture", .object [
      ("enforce_public_api", flagToJson s.architecture.enforcePublicApi),
      ("allow_barrel_exports", textsToJson s.architecture.allowBarrelExports)]),
    ("layers", .ofList (fun (l : LayerSettings) => .object [
      ("name", .text l.name),
      ("paths", .ofList .text l.paths),
      ("allow", .ofList .text l.allow)]) s.layers)]

def canonical (s : Settings) : Settings :=
  { s with analyzer := { s.analyzer with concurrency := none }, cache := {} }

def frame (s : Settings) : Digest.Fingerprint :=
  ({ domain := "config" } : Digest.Fingerprint).text s.canonical.toJson.compact

def fingerprint (s : Settings) : String := s.frame.digest

end Settings

end Cartograph
