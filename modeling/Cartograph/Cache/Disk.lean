import Cartograph.Cache.Entry
import Cartograph.Cache.FileName
import Cartograph.FileSystem

/-!
# Stores in a directory

A store in a directory holds one file per key. An entry is written to a temporary file first (`stage`),
which then takes the entry's name in one step (`publish`), so that a reader finds either the whole entry or
none. Whatever cannot be read as the entry of its key counts as absent. `prune` removes the entries that are
no longer in use and what this process left behind, and `clear` removes all files of the store and, when
nothing else is in it, the directory. Files of others are never touched.
-/

namespace Cartograph

inductive CacheError where
  /-- The file system refused an operation at a path. -/
  | io (path : String) (cause : OsError)
  /-- The directory is the root of a package. -/
  | sharedDirectory (path package : String)
  deriving DecidableEq, Repr

def CacheError.message : CacheError → String
  | io path cause => s!"cache I/O error at {path}: {cause.message}"
  | sharedDirectory path package => s!"{path} is the root of package `{package}`"

structure Disk where
  dir : String
  /-- The number of the process, which tells its temporary files from those of others. -/
  process : Nat

namespace Disk

variable (d : Disk)

def path (name : String) : String := Path.Spelling.under d.dir name

def entryPath (key : String) : String := d.path (Cache.entryName key)

def tempPath (stem : String) (ticket : Nat) : String := d.path (Cache.tempName stem d.process ticket)

def located (path : String) : Except OsError α → Except CacheError α
  | .ok a => .ok a
  | .error cause => .error (.io path cause)

/-! ### Opening -/

/-- Makes the directory where it is missing and tries out whether it can be written. -/
def prepare (ticket : Nat) (fs : FileSystem) : Except CacheError Unit × FileSystem :=
  match fs.makeDirs d.dir with
  | (.error cause, made) => (.error (.io d.dir cause), made)
  | (.ok (), made) =>
    let probe := d.tempPath Cache.probeStem ticket
    match made.write probe .empty with
    | .error cause => (.error (.io probe cause), made)
    | .ok written => (.ok (), (written.removeFile probe).toOption.getD written)

/-! ### Reading and writing -/

def get? (fs : FileSystem) (key : String) : Option CacheEntry :=
  match (fs.read (d.entryPath key)).toOption.bind CacheEntry.decode? with
  | some entry => if entry.key = key then some entry else none
  | none => none

def stage (ticket : Nat) (fs : FileSystem) (e : CacheEntry) : Except CacheError FileSystem :=
  let temp := d.tempPath e.key ticket
  located temp (fs.write temp e.encode)

/-- Gives a temporary file the name of its entry; one that cannot take it is removed. -/
def publish (ticket : Nat) (fs : FileSystem) (key : String) :
    Except CacheError Unit × FileSystem :=
  let temp := d.tempPath key ticket
  match fs.rename temp (d.entryPath key) with
  | .ok done => (.ok (), done)
  | .error cause =>
    (.error (.io (d.entryPath key) cause), (fs.removeFile temp).toOption.getD fs)

def put (ticket : Nat) (fs : FileSystem) (e : CacheEntry) : Except CacheError Unit × FileSystem :=
  match d.stage ticket fs e with
  | .ok staged => d.publish ticket staged e.key
  | .error error => (.error error, fs)

/-! ### Removing -/

/-- Whether a name belongs to an entry that is not in use or to a temporary file of this process. -/
def isStale (live : List String) (name : String) : Bool :=
  match Cache.entryKey? name with
  | some key => !live.contains key
  | none => Cache.tempProcess? name == some d.process

def sweep (state : Nat × FileSystem) (name : String) : Nat × FileSystem :=
  match state.2.removeFile (d.path name) with
  | .ok without => (state.1 + 1, without)
  | .error _ => state

def prune (fs : FileSystem) (live : List String) : Except CacheError (Nat × FileSystem) := do
  let names ← located d.dir (fs.list d.dir)
  return (names.filter (d.isStale live)).foldl d.sweep (0, fs)

/-- Removes files one after the other, up to the first that cannot be removed. -/
def removeAll (dir : String) (fs : FileSystem) : List String → Except CacheError Unit × FileSystem
  | [] => (.ok (), fs)
  | name :: rest =>
    let path := Path.Spelling.under dir name
    match fs.removeFile path with
    | .ok without => removeAll dir without rest
    | .error cause => (.error (.io path cause), fs)

/-- Removes the files of a store, and the directory when nothing else is in it; says whether there was a
directory. -/
def clear (dir : String) (fs : FileSystem) : Except CacheError Bool × FileSystem :=
  match fs.list dir with
  | .error .notFound => (.ok false, fs)
  | .error cause => (.error (.io dir cause), fs)
  | .ok names =>
    match removeAll dir fs (names.filter Cache.isOwnName) with
    | (.error error, left) => (.error error, left)
    | (.ok (), left) =>
      if names.all Cache.isOwnName then
        match left.removeDir dir with
        | .ok done => (.ok true, done)
        | .error cause => (.error (.io dir cause), left)
      else (.ok true, left)

end Disk

end Cartograph
