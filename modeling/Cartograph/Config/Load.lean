import Cartograph.Config
import Cartograph.Config.Decode
import Cartograph.Path

/-!
# Loading configurations

From settings to a configuration. Settings are checked in a fixed order, which is that of the sections
and not that of the file, and the first error counts; only the errors of the table of layers are
reported together.
-/

namespace Cartograph

inductive ConfigError where
  | unreadable (path message : String)
  /-- The text is no TOML, or has a field or a type that there is none of. -/
  | malformed (message : String)
  | invalid (context : String) (error : ModelError)
  | unknownValue (context value expected : String)
  | unknownCategory (name : String)
  | cacheDirIsRoot (dir : String)
  | zeroConcurrency
  | layers (errors : List ModelError)
  deriving DecidableEq, Repr

def ConfigError.message : ConfigError → String
  | unreadable path message => "failed to read config file " ++ path ++ ": " ++ message
  | malformed message => "failed to parse config: " ++ message
  | invalid context error => context ++ ": " ++ error.message
  | unknownValue context value expected =>
    context ++ ": unknown value `" ++ value ++ "`, expected: " ++ expected
  | unknownCategory name =>
    "unknown category `" ++ name ++ "`, expected: dependency, configuration, architecture, circular-import"
  | cacheDirIsRoot dir => "cache.dir `" ++ dir ++ "` resolves to the workspace root"
  | zeroConcurrency => "analyzer.concurrency must be at least 1"
  | layers errors =>
    "layer validation errors:\n" ++ "\n".intercalate (errors.map fun e => "  - " ++ e.message)

namespace Config

namespace Check

abbrev Checked (α : Type) := Except ConfigError α

def orDefault (default : β) (check : α → Checked β) : Option α → Checked β
  | none => .ok default
  | some a => check a

def compileFrom (context : String) : Nat → List String → Checked (List Glob.Pattern)
  | _, [] => .ok []
  | i, source :: rest =>
    match Glob.Pattern.ofString source with
    | .error e => .error (.invalid (context ++ "[" ++ toString i ++ "]") (.pattern e))
    | .ok p =>
      match compileFrom context (i + 1) rest with
      | .ok ps => .ok (p :: ps)
      | .error e => .error e

def compile (context : String) (sources : List String) : Checked (List Glob.Pattern) :=
  compileFrom context 0 sources

def severity (context value : String) : Checked Severity :=
  match Severity.ofName? value with
  | some s => .ok s
  | none => .error (.unknownValue context value "error, warning, info")

/-- The usual form of a pattern for packages: no slashes at the end, no dot segment at the start, and a
dot for the workspace itself. -/
def packagePattern (source : String) : String :=
  let trimmed := Text.dropEndWhile (· == '/') source.toList
  let trimmed := (Text.dropStart? ['.', '/'] trimmed).getD trimmed
  if trimmed == [] || trimmed == ['.'] then "." else String.ofList trimmed

def analyzer (s : AnalyzerSettings) : Checked AnalyzerPolicy := do
  let standard : AnalyzerPolicy := {}
  let included ← orDefault standard.included (compile "analyzer.include") s.included
  let excluded ← orDefault standard.excluded (compile "analyzer.exclude") s.excluded
  let packages ← orDefault standard.packages
    (fun l => compile "analyzer.packages" (l.map packagePattern)) s.packages
  if s.concurrency = some 0 then throw .zeroConcurrency
  let minSeverity ← orDefault .info (severity "analyzer.min_severity") s.minSeverity
  return {
    root := s.root.getD "."
    included, excluded, packages
    respectIgnoreFiles := s.respectIgnoreFiles.getD true
    concurrency := s.concurrency
    minSeverity }

/-- Whether a directory for the store is the workspace itself; back slashes count as slashes here. -/
def isRootDir (dir : String) : Bool :=
  dir.toList.head? != some '/' &&
    Path.resolve? "" (String.ofList (dir.toList.map fun c => if c = '\\' then '/' else c)) ==
      some ""

def cache (s : CacheSettings) : Checked CachePolicy :=
  let standard : CachePolicy := {}
  let dir := s.dir.getD standard.dir
  if isRootDir dir then .error (.cacheDirIsRoot dir)
  else .ok { enabled := s.enabled.getD true, dir, strict := s.strict.getD false }

def category (name : String) (s : CategorySettings) : Checked (Category × CategoryPolicy) :=
  match Category.ofName? name with
  | none => .error (.unknownCategory name)
  | some c =>
    (orDefault none (fun v => (severity ("categories." ++ name ++ ".severity") v).map some)
      s.severity).map fun severity => (c, { enabled := s.enabled.getD true, severity })

def policyOf (checked : List (Category × CategoryPolicy)) (c : Category) : CategoryPolicy :=
  ((checked.find? (·.1 == c)).map (·.2)).getD {}

def categories (l : List (String × CategorySettings)) : Checked (Category → CategoryPolicy) :=
  (l.mapM fun (name, s) => category name s).map policyOf

def granularity (value : String) : Checked Granularity :=
  match Granularity.ofName? value with
  | some g => .ok g
  | none => .error (.unknownValue "cycles.granularity" value "file, package")

def dependencies (s : DependencySettings) : Checked DependencyPolicy := do
  let unusedSeverity ← orDefault .warning (severity "dependencies.unused_severity")
    s.unusedSeverity
  let missingSeverity ← orDefault .error (severity "dependencies.missing_severity")
    s.missingSeverity
  let unresolvedSeverity ← orDefault .warning (severity "dependencies.unresolved_severity")
    s.unresolvedSeverity
  let ignored ← orDefault [] (compile "dependencies.ignore") s.ignored
  return {
    countTypeOnly := s.countTypeOnly.getD true
    unusedSeverity, missingSeverity, unresolvedSeverity, ignored }

def architecture (s : ArchitectureSettings) : Checked ArchitecturePolicy :=
  (orDefault [] (compile "architecture.allow_barrel_exports") s.allowBarrelExports).map
    fun allowBarrelExports =>
      { enforcePublicApi := s.enforcePublicApi.getD false, allowBarrelExports }

def layer (index : Nat) (s : LayerSettings) : Checked Layer :=
  let context := "layers[" ++ toString index ++ "]"
  match compile (context ++ ".paths") s.paths with
  | .error e => .error e
  | .ok patterns => (Layer.make s.name patterns s.allow).mapError (.invalid context)

def layersFrom : Nat → List LayerSettings → Checked (List Layer)
  | _, [] => .ok []
  | i, s :: rest =>
    match layer i s with
    | .error e => .error e
    | .ok l =>
      match layersFrom (i + 1) rest with
      | .ok ls => .ok (l :: ls)
      | .error e => .error e

def layerTable (l : List LayerSettings) : Checked LayerTable :=
  match layersFrom 0 l with
  | .error e => .error e
  | .ok ls => (LayerTable.ofLayers ls).mapError .layers

end Check

def ofSettings (s : Settings) (origin : Option String) : Check.Checked Config := do
  let analyzer ← Check.analyzer s.analyzer
  let cache ← Check.cache s.cache
  let categories ← Check.categories s.categories
  let granularity ← Check.orDefault .file Check.granularity s.cycles.granularity
  let dependencies ← Check.dependencies s.dependencies
  let architecture ← Check.architecture s.architecture
  let layers ← Check.layerTable s.layers
  return {
    analyzer, cache, categories, granularity, dependencies, architecture, layers
    fingerprint := s.fingerprint
    origin }

def read (text : String) (origin : Option String) : Check.Checked Config :=
  match Settings.read text with
  | .error f => .error (.malformed (f.message text.toList))
  | .ok s => ofSettings s origin

end Config

end Cartograph
