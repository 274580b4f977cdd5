/-!
# Diagnostics

A diagnostic is a finding about a workspace: a code and a rule, a category and a severity, a place, a
message, and optionally a hint and further places as evidence.

A diagnostic may have a floor, below which its severity cannot be lowered afterwards:
`Diagnostic.withFloor` and `Diagnostic.override` keep the severity at or above it.
-/

namespace Cartograph

inductive Severity where
  | info
  | warning
  | error
  deriving DecidableEq, Repr

namespace Severity

def name : Severity → String
  | info => "info"
  | warning => "warning"
  | error => "error"

def ofName? : String → Option Severity
  | "info" => some info
  | "warning" => some warning
  | "error" => some error
  | _ => none

@[simp] theorem ofName?_name (s : Severity) : ofName? s.name = some s := by cases s <;> rfl

def rank : Severity → Nat
  | info => 0
  | warning => 1
  | error => 2

instance : LE Severity := ⟨fun a b => a.rank ≤ b.rank⟩

instance : DecidableLE Severity := fun a b => inferInstanceAs (Decidable (a.rank ≤ b.rank))

def max (a b : Severity) : Severity := if a ≤ b then b else a

end Severity

/-- What a finding is about. Findings are reported in the order of their categories. -/
inductive Category where
  | dependency
  | configuration
  | architecture
  | circularImport
  deriving DecidableEq, Repr

namespace Category

def all : List Category := [dependency, configuration, architecture, circularImport]

def name : Category → String
  | dependency => "dependency"
  | configuration => "configuration"
  | architecture => "architecture"
  | circularImport => "circular-import"

def ofName? (name : String) : Option Category := all.find? (·.name == name)

@[simp] theorem ofName?_name (c : Category) : ofName? c.name = some c := by cases c <;> rfl

def rank : Category → Nat
  | dependency => 0
  | configuration => 1
  | architecture => 2
  | circularImport => 3

end Category

/-- A place in a file. Line and column count from one; zero stands for the whole file. -/
structure Location where
  file : String
  line : Nat := 0
  column : Nat := 0
  deriving DecidableEq, Repr

def Location.text (l : Location) : String :=
  l.file ++ ":" ++ toString l.line ++ ":" ++ toString l.column

structure Label where
  location : Location
  message : String
  deriving DecidableEq, Repr

structure Diagnostic where
  code : String
  rule : String
  category : Category
  severity : Severity
  /-- The lowest severity that an override can give this finding. -/
  floor : Option Severity := none
  location : Location
  message : String
  help : Option String := none
  evidence : List Label := []
  deriving DecidableEq, Repr

namespace Diagnostic

def withFloor (d : Diagnostic) (floor : Severity) : Diagnostic :=
  { d with floor := some floor, severity := d.severity.max floor }

def withHelp (d : Diagnostic) (help : String) : Diagnostic := { d with help := some help }

def withEvidence (d : Diagnostic) (label : Label) : Diagnostic :=
  { d with evidence := d.evidence ++ [label] }

def override (d : Diagnostic) (severity : Severity) : Diagnostic :=
  { d with severity := match d.floor with
      | some floor => severity.max floor
      | none => severity }

def render (severityText : Severity → String) (d : Diagnostic) : String :=
  d.code ++ " " ++ d.rule ++ " at " ++ d.location.text ++ "\n" ++
  "  " ++ severityText d.severity ++ ": " ++ d.message ++ "\n" ++
  String.join (d.evidence.map fun l => "  - " ++ l.location.text ++ ": " ++ l.message ++ "\n") ++
  match d.help with
  | some help => "  = help: " ++ help ++ "\n"
  | none => ""

def format (d : Diagnostic) : String := d.render Severity.name

def brief (d : Diagnostic) : String :=
  d.location.text ++ ": " ++ d.severity.name ++ " [" ++ d.code ++ "] " ++ d.message

end Diagnostic

end Cartograph
