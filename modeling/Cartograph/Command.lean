import Cartograph.Command.Arguments
import Cartograph.Command.Personal
import Cartograph.Command.Starter

/-!
# Commands

What each command does, as a function of the session: `check` analyses a workspace and shows the report,
`list-analyzers` describes the analyzers, `init` writes a first configuration file and `clean-cache` removes
the store. A command ends with an exit code: zero, one when a report has errors, two when there is no report.
-/

namespace Cartograph.Command

inductive Output where
  | text (lines : String)
  | report (r : Report) (format : Format)

def Output.render (o : Output) (colours : Bool) : String :=
  match o with
  | text lines => lines
  | report r format => r.render format colours

inductive Failure where
  | arguments
  /-- The analysis gave no report. -/
  | run (error : RunError)
  /-- Something else went wrong: what, and below it the causes. -/
  | other (chain : List String)

def Failure.text : Failure → String
  | arguments => "error: the arguments are not understood; see archgraph help"
  | run error =>
    s!"error: {error.message} ({error.code})" ++ String.join (error.help?.toList.map fun help => "\n  help: " ++ help)
  | other chain => "error: " ++ ": ".intercalate chain

structure Finished where
  exit : Nat := 0
  output : Output := .text ""
  failure : Option Failure := none

def failed (failure : Failure) : Finished := { exit := 2, failure := some failure }

def shown (text : String) : Finished := { output := .text text }

/-! ### Errors and their causes -/

def configChain (e : ConfigError) : List String :=
  match e with
  | .unreadable _ message => [e.message, message]
  | .invalid _ error => [e.message, error.message]
  | _ => [e.message]

def cacheChain (e : CacheError) : List String :=
  match e with
  | .io _ cause => [e.message, cause.message]
  | .sharedDirectory _ _ => [e.message]

def loadFailure (path : String) (e : ConfigError) : Failure :=
  .other (s!"Failed to load config: {path}" :: configChain e)

/-! ### Texts -/

def column (width : Nat) (text : String) : String :=
  text ++ String.ofList (List.replicate (width - text.length) ' ')

def analyzerRow (codes name category description : String) : String :=
  column 14 codes ++ " " ++ column 20 name ++ " " ++ column 17 category ++ " " ++ description

def analyzerTable : String :=
  let rows := Check.analyzers.map fun a =>
    analyzerRow (", ".intercalate a.codes) a.name a.category.name a.description
  let lines := ["Available analyzers:", "", analyzerRow "Codes" "Name" "Category" "Description",
    String.ofList (List.replicate 90 '-')] ++ rows ++ [
    "",
    "Pipeline diagnostics:",
    "  AG203  unresolved-import          (dependency)",
    "  AG301  parse-error                (configuration)",
    "  AG302  unmatched-package-pattern  (configuration)",
    "  AG303  invalid-manifest           (configuration)",
    "",
    "Disable a category or override its severity in archgraph.toml, e.g.:",
    "  [categories.dependency]",
    "  severity = \"warning\""]
  String.join (lines.map (· ++ "\n"))

def createdText (path : String) : String :=
  String.join <| [s!"Created {path}", "", "Next steps:",
    "  1. Edit archgraph.toml to match your package layout", "  2. Run: archgraph check"].map (· ++ "\n")

def usageOf : Name → String
  | .check => "archgraph check [-f text|json|compact] [-j WORKERS] [--no-cache] [PATH]"
  | .listAnalyzers => "archgraph list-analyzers"
  | .init => "archgraph init [--force] [PATH]"
  | .cleanCache => "archgraph clean-cache [PATH]"
  | .help => "archgraph help [COMMAND]"

def helpText (command : Option Name) : String :=
  let names := match command with
    | some name => [name]
    | none => Name.all
  let lines := ["Usage:"] ++ names.map (fun name => "  " ++ usageOf name) ++
    ["Options for all commands:", "  -v, --verbose", "  -c, --config FILE", "  -h, --help"]
  String.join (lines.map (· ++ "\n"))

/-! ### The commands -/

def configured (invocation : Invocation) (environment : Environment) (path : Option String)
    (fs : FileSystem) : Except Failure (Config × String) :=
  let source := ConfigSource.find fs (path.getD ".") invocation.config environment.globalDir?
  match source.load fs with
  | .error (file, e) => .error (loadFailure file e)
  | .ok config => .ok (config, source.workspaceRoot path config)

def overridden (config : Config) (workers : Option Nat) (noCache : Bool) : Config :=
  { config with
    analyzer := { config.analyzer with concurrency := workers.or config.analyzer.concurrency }
    cache := { config.cache with enabled := config.cache.enabled && !noCache } }

def check (config : Config) (root : String) (environment : Environment) (format : Format)
    (s : Session) : Finished × Session :=
  match Plan.make s.files (some root) config Check.languages Check.analyzers false with
  | .error error => (failed (.run error), s)
  | .ok plan =>
    let plan := { plan with ownIgnoreFile := environment.ignorePath? s.files }
    match plan.run.run.run s with
    | (.error error, s) => (failed (.run error), s)
    | (.ok report, s) =>
      ({ exit := if report.hasErrors then 1 else 0, output := .report report format }, s)

def init (dir : String) (force : Bool) (s : Session) : Finished × Session :=
  let path := Path.Spelling.under dir "archgraph.toml"
  if s.files.isThere path && !force then
    let message := s!"Configuration file already exists at {path}. Use --force to overwrite."
    (failed (.other [message]), s)
  else
    match s.files.write path starterConfig.toByteArray with
    | .ok files => (shown (createdText path), { s with files := files })
    | .error cause => (failed (.other [cause.message]), s)

def cleanCache (config : Config) (root : String) (s : Session) : Finished × Session :=
  let dir := Path.Spelling.under root config.cache.dir
  match Disk.clear dir s.files with
  | (.ok true, files) => (shown s!"Removed cache at {dir}\n", { s with files := files })
  | (.ok false, files) => (shown s!"No cache at {dir}\n", { s with files := files })
  | (.error e, files) =>
    (failed (.other (s!"Failed to remove cache at {dir}" :: cacheChain e)), { s with files := files })

def perform (invocation : Invocation) (environment : Environment) (s : Session) :
    Finished × Session :=
  match invocation.request with
  | .listAnalyzers => (shown analyzerTable, s)
  | .init path force => init path force s
  | .check path format workers noCache =>
    match configured invocation environment path s.files with
    | .error failure => (failed failure, s)
    | .ok (config, root) => check (overridden config workers noCache) root environment format s
  | .cleanCache path =>
    match configured invocation environment path s.files with
    | .error failure => (failed failure, s)
    | .ok (config, root) => cleanCache config root s

def run (args : List String) (environment : Environment) (s : Session) : Finished × Session :=
  match invocation args environment.config with
  | .ok invocation => perform invocation environment s
  | .error .usage => (failed .arguments, s)
  | .error (.help command) => (shown (helpText command), s)
  | .error .version => (shown "archgraph 0.1.0\n", s)

end Cartograph.Command
