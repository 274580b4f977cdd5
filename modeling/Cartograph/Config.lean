import Cartograph.Config.Layer
import Cartograph.Config.Settings
import Cartograph.Diagnostic

/-!
# Configurations

A configuration is what settings mean once they have been checked: globs are compiled, names of
severities and categories are the things that they name, absent settings have their defaults.
-/

namespace Cartograph

inductive Granularity where
  | file
  | package
  deriving DecidableEq, Repr

namespace Granularity

def name : Granularity → String
  | file => "file"
  | package => "package"

def ofName? : String → Option Granularity
  | "file" => some file
  | "package" => some package
  | _ => none

end Granularity

/-- Whether the findings of a category are kept, and the severity that they get. -/
structure CategoryPolicy where
  enabled : Bool := true
  severity : Option Severity := none
  deriving DecidableEq, Repr

def patterns (sources : List String) : List Glob.Pattern :=
  sources.filterMap fun s => (Glob.Pattern.ofString s).toOption

structure AnalyzerPolicy where
  root : String := "."
  included : List Glob.Pattern := patterns [
    "**/*.ts", "**/*.tsx", "**/*.mts", "**/*.cts", "**/*.js", "**/*.jsx", "**/*.mjs", "**/*.cjs"]
  excluded : List Glob.Pattern := patterns ["**/node_modules/**", "**/dist/**", "**/build/**", "**/coverage/**"]
  packages : List Glob.Pattern := patterns ["."]
  respectIgnoreFiles : Bool := true
  concurrency : Option Nat := none
  minSeverity : Severity := .info
  deriving DecidableEq, Repr

structure CachePolicy where
  enabled : Bool := true
  /-- The directory, relative to the workspace unless it is absolute. -/
  dir : String := ".archgraph-cache"
  /-- Whether a run fails when the directory cannot be used. -/
  strict : Bool := false
  deriving DecidableEq, Repr

structure DependencyPolicy where
  countTypeOnly : Bool := true
  unusedSeverity : Severity := .warning
  missingSeverity : Severity := .error
  unresolvedSeverity : Severity := .warning
  ignored : List Glob.Pattern := []
  deriving DecidableEq, Repr

def DependencyPolicy.isIgnored (p : DependencyPolicy) (name : String) : Bool :=
  Glob.anyMatches p.ignored name

structure ArchitecturePolicy where
  enforcePublicApi : Bool := false
  allowBarrelExports : List Glob.Pattern := []
  deriving DecidableEq, Repr

def ArchitecturePolicy.exempts (p : ArchitecturePolicy) (path : String) (reexportOnly : Bool) :
    Bool :=
  reexportOnly && (!p.enforcePublicApi || Glob.anyMatches p.allowBarrelExports path)

structure Config where
  analyzer : AnalyzerPolicy := {}
  cache : CachePolicy := {}
  categories : Category → CategoryPolicy := fun _ => {}
  granularity : Granularity := .file
  dependencies : DependencyPolicy := {}
  architecture : ArchitecturePolicy := {}
  layers : LayerTable := .empty
  /-- The fingerprint of the settings behind it. -/
  fingerprint : String := Settings.fingerprint {}
  /-- The file that it was read from. -/
  origin : Option String := none

end Cartograph
