import Cartograph.Command.Reach
import Cartograph.Timestamp

/-!
# The command line

Reads what a command looks at into a file system, runs the command on it, writes back what it changed, and shows
what it says. Nothing is decided here.
-/

namespace Cartograph.Main

open FileSystem (Place)

abbrev Reader := StateT FileSystem IO

def placeOf (path : String) : Place := (Path.segments path).filter (· != "")

/-- An absolute path free of links, or nothing when there is nothing at the path. -/
def realPlace? (path : String) : IO (Option Place) := do
  try
    return some (placeOf (← IO.FS.realPath path).toString)
  catch _ => return none

def nodeAt? (place : Place) (withContent : Bool) : IO (Option FileSystem.Node) := do
  let path := System.mkFilePath [FileSystem.spell place]
  try
    match (← path.symlinkMetadata).type with
    | .dir => return some .dir
    | .file =>
      if withContent then return some (.file (← IO.FS.readBinFile path))
      else return some (.file .empty)
    | .symlink =>
      match ← realPlace? path.toString with
      | some target => return some (.link (FileSystem.spell target))
      | none => return some (.link "/dev/null/missing")
    | .other => return none
  catch _ => return none

partial def reveal (here : Place) : List String → Reader Unit
  | [] => return
  | segment :: rest => do
    if segment = "" ∨ segment = "." then reveal here rest
    else if segment = ".." then reveal here.dropLast rest
    else
      let place := here ++ [segment]
      match ← nodeAt? place rest.isEmpty with
      | none => return
      | some node =>
        modify (·.put place node)
        match node with
        | .link target => reveal [] (Path.segments target ++ rest)
        | _ => reveal place rest

def revealPath (path : String) : Reader Unit := do
  let start := FileSystem.start (← get).current path
  reveal [] (start ++ Path.segments path)

partial def nodesBelow (dir : Place) : IO (List (Place × FileSystem.Node)) := do
  let entries ← try (System.mkFilePath [FileSystem.spell dir]).readDir catch _ => pure #[]
  let mut found := []
  for entry in entries do
    let place := dir ++ [entry.fileName]
    if let some node ← nodeAt? place (Command.isRelevant entry.fileName) then
      found := (place, node) :: found
      if let .dir := node then
        found := (← nodesBelow place) ++ found
  return found

def revealTree (path : String) : Reader Unit := do
  revealPath path
  let fs ← get
  match fs.resolve path with
  | .ok (place, .dir) =>
    let below ← nodesBelow place
    let known := fs.nodes.filter fun e => !(place.isPrefixOf e.1 && e.1 != place)
    set { fs with nodes := below ++ known }
  | _ => return

def isSame (before : Option FileSystem.Node) (after : FileSystem.Node) : Bool :=
  match before, after with
  | some (.file old), .file new => old.data == new.data
  | some .dir, .dir => true
  | some (.link old), .link new => old == new
  | _, _ => false

def apply (before after : FileSystem) : IO Unit := do
  let path (place : Place) := System.mkFilePath [FileSystem.spell place]
  let gone := before.nodes.filter fun e => (after.node? e.1).isNone
  for (place, node) in gone.mergeSort (fun a b => decide (b.1.length ≤ a.1.length)) do
    match node with
    | .dir => IO.FS.removeDir (path place)
    | _ => IO.FS.removeFile (path place)
  let new := after.nodes.filter fun e => !isSame (before.node? e.1) e.2
  for (place, node) in new.mergeSort (fun a b => decide (a.1.length ≤ b.1.length)) do
    match node with
    | .dir => IO.FS.createDirAll (path place)
    | .file content => IO.FS.writeBinFile (path place) content
    | .link _ => pure ()

def now : IO String := do
  let (_, path) ← IO.FS.createTempFile
  let time := (← path.metadata).modified
  IO.FS.removeFile path
  return Timestamp.text time.sec.toNat time.nsec.toNat

def present (finished : Command.Finished) (elapsed : Nat) : IO Unit := do
  let output : Command.Output := match finished.output with
    | .report r format => .report { r with summary := { r.summary with elapsedMs := elapsed } } format
    | output => output
  let stdout ← IO.getStdout
  stdout.putStr (output.render (← stdout.isTty))
  if let some failure := finished.failure then
    IO.eprintln failure.text

end Cartograph.Main

open Cartograph in
def main (args : List String) : IO UInt32 := do
  let started ← IO.monoMsNow
  let environment : Environment := {
    config := ← IO.getEnv "ARCHGRAPH_CONFIG"
    configDir := ← IO.getEnv "ARCHGRAPH_CONFIG_DIR"
    home := ← IO.getEnv "HOME"
    settingsDir := ← IO.getEnv "XDG_CONFIG_HOME" }
  let current := Main.placeOf (← IO.currentDir).toString
  let load : Main.Reader Unit :=
    match Command.invocation args environment.config with
    | .error _ => return
    | .ok invocation => do
      Main.revealPath "."
      let files := Command.configFiles invocation environment
      files.forM Main.revealPath
      if let .init path _ := invocation.request then
        Main.revealPath path
      (Command.directories invocation environment (← get)).forM Main.revealTree
      files.forM Main.revealPath
      (environment.ignorePath? (← get)).forM Main.revealPath
  let ((), before) ← load.run { current }
  let session : Session := {
    files := before, process := ← IO.rand 1 4000000000, stamp := ← Main.now }
  let (finished, after) := Command.run args environment session
  Main.apply before after.files
  Main.present finished ((← IO.monoMsNow) - started)
  return finished.exit.toUInt32
