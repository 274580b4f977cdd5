import Cartograph.Config
import Cartograph.Diagnostic.Order

/-!
# From findings to a report

A configuration can give the findings of a category another severity, leave a category out, and leave out
what is below a severity. `finish` applies all three, in this order, and sorts what is left.
-/

namespace Cartograph.Config

/-- The finding with the severity that the configuration gives to its category. -/
def regrade (c : Config) (d : Diagnostic) : Diagnostic :=
  match (c.categories d.category).severity with
  | some severity => d.override severity
  | none => d

def isReported (c : Config) (d : Diagnostic) : Bool :=
  (c.categories d.category).enabled && decide (c.analyzer.minSeverity ≤ d.severity)

def finish (c : Config) (found : List Diagnostic) : List Diagnostic :=
  Diagnostic.sort ((found.map c.regrade).filter c.isReported)

end Cartograph.Config
