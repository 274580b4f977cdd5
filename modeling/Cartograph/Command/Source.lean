import Cartograph.Check

/-!
# Where a configuration comes from

A configuration is taken from the file that was named, else from the project's directory, else from the
user's own directory, else it is the default one. The first two also say where the workspace is: their
setting of the root is seen from the directory of the file.
-/

namespace Cartograph

inductive ConfigSource where
  | explicit (path : String)
  | project (path : String)
  | global (path : String)
  | default
  deriving DecidableEq, Repr

structure Environment where
  config : Option String := none
  /-- The directory of the user's configuration. -/
  configDir : Option String := none
  home : Option String := none
  /-- The directory of the user's settings for all programs. -/
  settingsDir : Option String := none

def Environment.homeDir? (e : Environment) : Option String := e.home.filter (· != "")

def Environment.globalDir? (e : Environment) : Option String :=
  e.configDir.or (e.homeDir?.map (Path.Spelling.under · ".archgraph"))

namespace ConfigSource

def find (fs : FileSystem) (project : String) (explicit : Option String)
    (globalDir : Option String) : ConfigSource :=
  match explicit with
  | some path => .explicit path
  | none =>
    match (Check.configNames.map (Path.Spelling.under project)).find? fs.isThere with
    | some path => .project path
    | none =>
      match (globalDir.map (Path.Spelling.under · "config.toml")).filter fs.isThere with
      | some path => .global path
      | none => .default

def path? : ConfigSource → Option String
  | explicit path | project path | global path => some path
  | default => none

def isGlobal : ConfigSource → Bool
  | global _ => true
  | _ => false

def load (source : ConfigSource) (fs : FileSystem) : Except (String × ConfigError) Config :=
  match source.path? with
  | none => .ok {}
  | some path => (Config.fromFile fs path).mapError (path, ·)

/-- The root of the workspace: the path that was given, or that of the configuration. -/
def workspaceRoot (source : ConfigSource) (path : Option String) (config : Config) : String :=
  match path, source with
  | some path, _ => path
  | none, explicit file | none, project file =>
    Path.Spelling.under ((Path.Spelling.parent? file).getD ".") config.analyzer.root
  | none, global _ | none, default => "."

end ConfigSource

end Cartograph
