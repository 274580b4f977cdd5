import Cartograph.Command.Source
import Cartograph.Ignore.Setting

/-!
# The user's ignore file

Beside the ignore files of a workspace a user may have one for all workspaces. Its path is looked for in the
settings in the home directory, then in those in the user's directory of settings; when neither names one,
it is the file `git/ignore` in the latter.
-/

namespace Cartograph.Environment

/-- The user's directory of settings, by default `.config` in the home directory. -/
def settingsHome? (e : Environment) : Option String :=
  (e.settingsDir.filter (· != "")).or (e.homeDir?.map (Path.Spelling.under · ".config"))

/-- The files whose settings may name an ignore file, the first to be asked in front. -/
def settingsFiles (e : Environment) : List String :=
  (e.homeDir?.map (Path.Spelling.under · ".gitconfig")).toList ++
    (e.settingsHome?.map (Path.Spelling.under · "git/config")).toList

def ignorePath? (e : Environment) (fs : FileSystem) : Option String :=
  let named := e.settingsFiles.findSome? fun file =>
    (fs.read file).toOption.bind (Ignore.Setting.excludesFile? e.homeDir?)
  named.or (e.settingsHome?.map (Path.Spelling.under · "git/ignore"))

end Cartograph.Environment
