import Cartograph.Analysis
import Cartograph.Graph.Build
import Cartograph.Language
import Cartograph.Report
import Cartograph.Report.Finish
import Cartograph.Session
import Cartograph.Workspace.Scan

/-!
# Runs

A run analyses a workspace in phases: it scans the workspace, reads its files, builds the import graph, lets
the analyzers look at it and aggregates what they found. Results of reading and of analyzing are taken from
the store when it has them. Their keys are digests of everything that the result depends on: `parseKey` of
the language, the extension and the content of a file, and `analysisKey` of the analyzer, the configuration
and the graph. A run can be given up between two phases, and only then.

Whatever is wrong with one file or one package is a finding; `RunError` has the reasons for which there is no
report at all.
-/

namespace Cartograph

open Digest (Fingerprint)

/-! ### Errors -/

inductive RunError where
  | rootNotFound (root : String)
  | scan (error : ScanError)
  | cache (error : CacheError)
  /-- The run was given up before a phase. -/
  | cancelled (phase : Phase)
  deriving DecidableEq, Repr

namespace RunError

def message : RunError → String
  | rootNotFound root => s!"workspace root {root} does not exist or is not a directory"
  | scan error => error.message
  | cache error => s!"cache directory is unusable: {error.message}"
  | cancelled phase => s!"run cancelled before the {phase.name} phase"

def code : RunError → String
  | rootNotFound _ => "archgraph::root_not_found"
  | scan _ => "archgraph::scan"
  | cache _ => "archgraph::cache"
  | cancelled _ => "archgraph::cancelled"

def help? : RunError → Option String
  | rootNotFound _ => some "pass an existing directory"
  | scan _ => some "check analyzer.packages; every package root needs a package.json"
  | cache _ => some "fix the directory, set cache.strict = false, or run with --no-cache"
  | cancelled _ => none

end RunError

/-! ### Plans -/

structure Plan where
  /-- The absolute path of the workspace, free of links. -/
  root : String
  config : Config
  languages : List Language
  analyzers : List Analyzer
  /-- Whether results are kept in memory and not in a directory. -/
  inMemory : Bool := false
  ownIgnoreFile : Option String := none

namespace Plan

/-- The root that a configuration gives: its setting, as seen from the file that it was read from. -/
def configuredRoot (config : Config) : String :=
  let base := (config.origin.bind Path.Spelling.parent?).getD "."
  Path.Spelling.under base config.analyzer.root

/-- Plans a run over a directory, by default the one that the configuration names. -/
def make (fs : FileSystem) (root : Option String) (config : Config) (languages : List Language)
    (analyzers : List Analyzer) (inMemory : Bool) : Except RunError Plan :=
  let given := root.getD (configuredRoot config)
  match fs.resolve given with
  | .ok (place, .dir) =>
    .ok { root := FileSystem.spell place, config, languages, analyzers, inMemory }
  | _ => .error (.rootNotFound given)

def extensions (p : Plan) : List String := p.languages.flatMap (·.extensions)

def language? (p : Plan) (path : String) : Option Language :=
  (Path.extension? path).bind fun extension =>
    p.languages.find? (·.extensions.contains extension)

def configLabel (p : Plan) : String :=
  match p.config.origin with
  | some origin =>
    match Path.Spelling.below? p.root origin with
    | some below => Path.ordinary below
    | none => origin
  | none => "archgraph.toml"

/-! ### The store -/

def cacheDir (p : Plan) : String := Path.Spelling.under p.root p.config.cache.dir

def insideRoot? (p : Plan) (fs : FileSystem) (dir : String) : Option String :=
  match Path.Spelling.below? p.root dir with
  | some below => some below
  | none => (fs.canonical dir).toOption.bind (Path.Spelling.below? p.root)

def withSlashes (path : String) : String :=
  String.ofList (path.toList.map fun c => if c = '\\' then '/' else c)

def packageAt? (p : Plan) (fs : FileSystem) (dir : String) (packages : List Package) :
    Option String := do
  let inside ← p.insideRoot? fs dir
  let root ← Path.resolve? "" (withSlashes inside)
  let package ← packages.find? (·.root == root)
  return package.name

def openDisk (p : Plan) (packages : List Package) (s : Session) : Except CacheError Disk × Session :=
  let dir := p.cacheDir
  match p.packageAt? s.files dir packages with
  | some package => (.error (.sharedDirectory dir package), s)
  | none =>
    let disk : Disk := { dir, process := s.process }
    let (result, files) := disk.prepare s.tickets s.files
    (result.map fun _ => disk, { s with files, tickets := s.tickets + 1 })

end Plan

/-! ### Contents and keys -/

structure Content where
  raw : ByteArray
  text : Option String

namespace Content

def ofBytes (raw : ByteArray) : Content := { raw, text := Text.decode? raw }

/-- The bytes that stand for the content: those of its text, or all bytes of what is none. -/
def bytes (c : Content) : List UInt8 :=
  match c.text with
  | some text => Digest.utf8 text
  | none => c.raw.data.toList

def hash (c : Content) : String := (({ domain := "content" } : Fingerprint).bytes c.bytes).digest

def readBy (c : Content) (language : Language) (path : String) : Reading :=
  match c.text with
  | some text => language.read path text
  | none => { outcome := .failed .encoding }

end Content

def parseKey (language : Language) (path : String) (content : Content) : String :=
  let fields : Fingerprint := { domain := "parse" }
  let fields := fields.texts [language.id, language.version, (Path.extension? path).getD ""]
  (fields.bytes content.bytes).digest

def analysisKey (p : Plan) (context : AnalysisContext) (analyzer : Analyzer) : String :=
  let fields : Fingerprint := { domain := "analysis" }
  let fields := fields.texts [analyzer.name, analyzer.version, analyzer.fingerprint,
    context.configLabel, p.config.fingerprint, context.graph.fingerprint]
  let languages := p.languages.map fun l => l.id ++ "@" ++ l.version
  (fields.texts (languages.mergeSort (· ≤ ·))).digest

/-! ### Tasks -/

/-- A file that was read, with its key in the store and whether the store had it. -/
structure Task where
  file : SourceFile
  key : Option String := none
  hit : Bool := false

namespace Plan

def parse (p : Plan) (store : Option Store) (path : String) (package : Nat) :
    StateM Session Task := do
  let s ← get
  match s.files.read (Path.Spelling.under p.root path) with
  | .error cause =>
    return { file := ⟨path, package, "", .failed (.unreadable cause.message)⟩ }
  | .ok raw =>
    let content := Content.ofBytes raw
    match p.language? path with
    | none =>
      let failure := ReadFailure.internal "no parser registered for this extension"
      return { file := ⟨path, package, content.hash, .failed failure⟩ }
    | some language =>
      let key := parseKey language path content
      match store.bind fun store => store.outcome? s key with
      | some outcome =>
        return { file := ⟨path, package, content.hash, outcome⟩, key := some key, hit := true }
      | none =>
        let reading := content.readBy language path
        modify (·.cancelIf reading.cancels)
        if let some store := store then
          modify fun s => store.put s key (.parse reading.outcome)
        return { file := ⟨path, package, content.hash, reading.outcome⟩, key := store.map fun _ => key }

/-- Runs one analyzer unless its category is left out, from the store if it has the result. Gives the
findings with their key in the store. -/
def analyze (p : Plan) (store : Option Store) (context : AnalysisContext) (analyzer : Analyzer) :
    StateM Session (List Diagnostic × Option String) := do
  if !(p.config.categories analyzer.category).enabled then
    return ([], none)
  match store with
  | none =>
    let found := analyzer.analyze context
    modify (·.cancelIf found.cancels)
    return (found.diagnostics, none)
  | some store =>
    let key := analysisKey p context analyzer
    match store.findings? (← get) key with
    | some found => return (found, some key)
    | none =>
      let found := analyzer.analyze context
      modify (·.cancelIf found.cancels)
      modify fun s => store.put s key (.analysis found.diagnostics)
      return (found.diagnostics, some key)

def parseAll (p : Plan) (store : Option Store) (files : List (String × Nat)) :
    StateM Session (List Task) :=
  files.mapM fun file => p.parse store file.1 file.2

def analyzeAll (p : Plan) (store : Option Store) (context : AnalysisContext) :
    StateM Session (List (List Diagnostic × Option String)) :=
  p.analyzers.mapM (p.analyze store context)

/-! ### The run -/

abbrev Action (α : Type) := ExceptT RunError (StateM Session) α

def checkpoint (phase : Phase) : Action Unit := do
  let s ← get
  if s.cancelled || s.interrupted phase then
    throw (.cancelled phase)

/-- Opens the store of a run, if it is to have one. A directory that cannot be used counts as none,
unless the configuration is strict. -/
def openStore (p : Plan) (packages : List Package) : Action (Option Store) := do
  if !p.config.cache.enabled then
    return none
  if p.inMemory then
    return some .memory
  let (opened, s) := p.openDisk packages (← get)
  set s
  match opened with
  | .ok disk => return some (.disk disk)
  | .error error =>
    if p.config.cache.strict then
      throw (.cache error)
    return none

def summary (scan : Scan) (tasks : List Task) (graph : Graph) (diagnostics : List Diagnostic) :
    Summary :=
  let hits := tasks.countP (·.hit)
  let sizes : Summary := {
    filesScanned := scan.files.length
    packages := scan.packages.length
    edges := graph.edges.size
    cacheHits := hits
    cacheMisses := tasks.length - hits }
  sizes.count diagnostics

def scan (p : Plan) : Action Scan := do
  match Scan.scan (← get).files p.root p.config.analyzer p.extensions p.configLabel
      p.ownIgnoreFile with
  | .ok scan => return scan
  | .error error => throw (.scan error)

def tidy (store : Option Store) (live : List String) : Action Unit := do
  if let some store := store then
    modify fun s => store.prune s live

/-- The phases of a run that has read the files. -/
def afterParse (p : Plan) (scan : Scan) (store : Option Store) (tasks : List Task) : Action Report := do
  checkpoint .build
  let (graph, built) := Graph.build scan.packages p.config (tasks.map (·.file))
  checkpoint .analyze
  let context : AnalysisContext := { graph, config := p.config, configLabel := p.configLabel }
  let results ← p.analyzeAll store context
  checkpoint .aggregate
  let diagnostics := p.config.finish (built ++ scan.diagnostics ++ results.flatMap (·.1))
  tidy store (tasks.filterMap (·.key) ++ results.filterMap (·.2))
  return { diagnostics, summary := summary scan tasks graph diagnostics }

/-- **A run**: the report of a workspace, or the reason why there is none. -/
def run (p : Plan) : Action Report := do
  checkpoint .scan
  let scan ← p.scan
  let store ← p.openStore scan.packages
  checkpoint .parse
  let tasks ← p.parseAll store scan.files
  p.afterParse scan store tasks

end Plan

end Cartograph
