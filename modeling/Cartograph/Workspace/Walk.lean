import Cartograph.FileSystem
import Cartograph.Ignore

/-!
# The files of a workspace

`walk` lists the regular files below a directory as workspace paths in ascending order. Links are neither
followed nor listed, and nothing named `.git` is entered. When ignore files are respected, a path is left
out if it or a directory above it is ignored: three kinds of rules count, those of `.ignore` files, then
those of `.gitignore` files, then those of `.git/info/exclude`, and within each kind the nearest directory
that has a word on the path decides. Last come the rules of the user's own ignore file, if there is one;
they speak of paths as seen from the current directory.
-/

namespace Cartograph.Workspace

open FileSystem (Place)
open Ignore (Rules Verdict)

abbrev RulesByDir := List (Place × Rules)

def rulesNamed (fs : FileSystem) (root : Place) (dirs : List Place) (name : List String) :
    RulesByDir :=
  dirs.filterMap fun dir =>
    match fs.read (FileSystem.spell (root ++ dir ++ name)) with
    | .ok content => some (dir, Rules.ofContent content)
    | .error _ => none

def ruleKinds (fs : FileSystem) (root : Place) : List RulesByDir :=
  let dirs := [] :: (fs.placesBelow root).filterMap fun e =>
    match e.2 with
    | .dir => some e.1
    | _ => none
  [[".ignore"], [".gitignore"], [".git", "info", "exclude"]].map (rulesNamed fs root dirs)

def above (place : Place) : List Place :=
  ((List.range place.length).map place.take).reverse

def verdictOf (rules : RulesByDir) (place : Place) (isDir : Bool) : Option Verdict :=
  (above place).findSome? fun dir =>
    (rules.find? (·.1 == dir)).bind fun entry =>
      entry.2.verdict? (Path.ofSegments (place.drop dir.length)) isDir

/-- A path as the user's own rules see it: what follows the current directory's text, or the whole path. -/
def seenFrom (current path : String) : String :=
  match Text.dropStart? current.toList path.toList with
  | some ('/' :: rest) => String.ofList rest
  | some rest => String.ofList rest
  | none => path

def ownVerdict (current : String) (root : Place) (rules : Rules) (place : Place) (isDir : Bool) :
    Option Verdict :=
  rules.verdict? (seenFrom current (FileSystem.spell (root ++ place))) isDir

abbrev Ruling := Place → Bool → Option Verdict

/-- All the rules for a walk, the kinds that come first in front; the user's own ignore file is the last. -/
def rulings (fs : FileSystem) (root : Place) (own : Option String) : List Ruling :=
  let ownRules := (own.bind fun path => (fs.read path).toOption).map Rules.ofContent
  (ruleKinds fs root).map verdictOf ++ (ownRules.map (ownVerdict (FileSystem.spell fs.current) root)).toList

def isSkipped (rulings : List Ruling) (place : Place) (isDir : Bool) : Bool :=
  place.getLast? == some ".git" || (rulings.findSome? fun ruling => ruling place isDir) == some .skip

/-- Whether a walk comes to a file: neither it nor a directory above it is skipped. -/
def isReached (rulings : List Ruling) (place : Place) : Bool :=
  !isSkipped rulings place false && (above place).all fun dir => dir.isEmpty || !isSkipped rulings dir true

def walkFrom (fs : FileSystem) (root : Place) (respect : Bool) (own : Option String) : List String :=
  let rules := if respect then rulings fs root own else []
  let files := (fs.placesBelow root).filterMap fun e =>
    match e.2 with
    | .file _ => if isReached rules e.1 then some (Path.ofSegments e.1) else none
    | _ => none
  files.mergeSort (· ≤ ·)

/-- The files below the root as workspace paths; a root that is a file is its own only entry. -/
def walk (fs : FileSystem) (root : String) (respect : Bool) (own : Option String) :
    Except OsError (List String) := do
  match ← fs.resolve root with
  | (place, .dir) => return walkFrom fs place respect own
  | (_, .file _) => return [""]
  | (_, .link _) => return []

end Cartograph.Workspace
