import Cartograph.Command

/-!
# What a command looks at

A command works on a file system that is a value, so what it looks at has to be there before it runs: first
the files that may hold the configuration or name an ignore file, and then, once these are known, what they
lead to.
-/

namespace Cartograph.Command

def Request.path? : Request → Option String
  | check path _ _ _ => path
  | cleanCache path => path
  | init path _ => some path
  | listAnalyzers => none

/-- The files in which a configuration, or the path of the user's ignore file, is looked for. -/
def configFiles (invocation : Invocation) (environment : Environment) : List String :=
  let project := (invocation.request.path?).getD "."
  invocation.config.toList ++ Check.configNames.map (Path.Spelling.under project) ++
    (environment.globalDir?.map (Path.Spelling.under · "config.toml")).toList ++
    environment.settingsFiles

/-- The directories whose contents a command looks at, once the configuration is known. -/
def directories (invocation : Invocation) (environment : Environment) (fs : FileSystem) :
    List String :=
  match invocation.request with
  | .listAnalyzers | .init _ _ => []
  | .check path _ _ _ | .cleanCache path =>
    match configured invocation environment path fs with
    | .error _ => []
    | .ok (config, root) => [root, Path.Spelling.under root config.cache.dir]

def isRelevant (name : String) : Bool :=
  [".ignore", ".gitignore", "exclude"].contains name ||
    (Path.extension? name).any fun extension =>
      ("json" :: "toml" :: Check.languages.flatMap (·.extensions)).contains extension

end Cartograph.Command
