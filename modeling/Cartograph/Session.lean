import Cartograph.Cache.Disk
import Cartograph.Cache.Memory

/-!
# Sessions

A session is what a run can look at and change: the file system, a store in memory, and whether the run was
given up. Temporary files are named by the number of the process and a running number, and stored results
carry a time stamp; both belong to the session, so that a run is a function of it.

A run can be given up from inside, by a reader or an analyzer, and from outside at any time; it notices either
only before its next phase, so what happens outside is the phases before which it was asked for.

A run uses at most one store: that in memory, or one in a directory of the file system.
-/

namespace Cartograph

inductive Phase where
  | scan
  | parse
  | build
  | analyze
  | aggregate
  deriving DecidableEq, Repr

def Phase.name : Phase → String
  | scan => "scan"
  | parse => "parse"
  | build => "build"
  | analyze => "analyze"
  | aggregate => "aggregate"

structure Session where
  files : FileSystem := {}
  memory : Memory := {}
  process : Nat := 0
  /-- The number of temporary files named so far, one of 64 bits. -/
  tickets : Nat := 0
  /-- The time at which results are stored. -/
  stamp : String := ""
  cancelled : Bool := false
  /-- Whether the run has been given up from outside by the time a phase is to start. -/
  interrupted : Phase → Bool := fun _ => false

namespace Session

def cancelIf (s : Session) (asked : Bool) : Session := { s with cancelled := s.cancelled || asked }

end Session

inductive Store where
  | memory
  | disk (d : Disk)

namespace Store

def get? (store : Store) (s : Session) (key : String) : Option CacheEntry :=
  match store with
  | memory => s.memory.get? key
  | disk d => d.get? s.files key

def put (store : Store) (s : Session) (key : String) (value : CachedValue) : Session :=
  let entry : CacheEntry := ⟨key, s.stamp, value⟩
  match store with
  | memory => { s with memory := s.memory.put entry }
  | disk d => { s with files := (d.put s.tickets s.files entry).2, tickets := s.tickets + 1 }

def prune (store : Store) (s : Session) (live : List String) : Session :=
  match store with
  | memory => { s with memory := (s.memory.prune live).2 }
  | disk d =>
    match d.prune s.files live with
    | .ok (_, files) => { s with files := files }
    | .error _ => s

def outcome? (store : Store) (s : Session) (key : String) : Option Outcome :=
  match store.get? s key with
  | some ⟨_, _, .parse outcome⟩ => some outcome
  | _ => none

def findings? (store : Store) (s : Session) (key : String) : Option (List Diagnostic) :=
  match store.get? s key with
  | some ⟨_, _, .analysis found⟩ => some found
  | _ => none

end Store

end Cartograph
