import Cartograph.Names

/-!
# What a module says about itself

The result of reading one source file: its imports in the order of the text, the names that it
exports, and whether it does nothing but export from other modules. A file that cannot be read is
described by the cause of the failure, which is a result like any other.
-/

namespace Cartograph

/-- How a module refers to another: at run time, for types only, on demand, or to export from it. -/
inductive ImportKind where
  | static
  | typeOnly
  | dynamic
  | reExport
  deriving DecidableEq, Repr

def ImportKind.name : ImportKind → String
  | static => "static"
  | typeOnly => "type-only"
  | dynamic => "dynamic"
  | reExport => "re-export"

def ImportKind.ofName? : String → Option ImportKind
  | "static" => some static
  | "type-only" => some typeOnly
  | "dynamic" => some dynamic
  | "re-export" => some reExport
  | _ => none

@[simp] theorem ImportKind.ofName?_name (k : ImportKind) : ofName? k.name = some k := by
  cases k <;> rfl

/-- One import: the text between the quotes and where the opening quote stands. -/
structure Import where
  specifier : String
  kind : ImportKind
  line : Nat
  column : Nat
  deriving DecidableEq, Repr

/-- The names that a module exports, unless they cannot be told from its text. -/
inductive Exports where
  | known (names : Names)
  | unknown
  deriving DecidableEq, Repr

namespace Exports

def empty : Exports := known .empty

def insert (name : String) : Exports → Exports
  | known names => known (names.insert name)
  | unknown => unknown

end Exports

structure Module where
  imports : List Import := []
  exports : Exports := .empty
  reexportOnly : Bool := false
  deriving DecidableEq, Repr

inductive ReadFailure where
  /-- The text does not follow the grammar from the given place on. -/
  | malformed (line column : Nat)
  /-- The bytes are no text. -/
  | encoding
  | unreadable (message : String)
  | internal (message : String)
  deriving DecidableEq, Repr

namespace ReadFailure

def message : ReadFailure → String
  | malformed line column => "syntax error at " ++ toString line ++ ":" ++ toString column
  | encoding => "file is not valid UTF-8"
  | unreadable message => "file could not be read: " ++ message
  | internal message => "parser failure: " ++ message

def line : ReadFailure → Nat
  | malformed line _ => line
  | _ => 0

end ReadFailure

inductive Outcome where
  | parsed (module : Module)
  | failed (failure : ReadFailure)
  deriving DecidableEq, Repr

end Cartograph
