import Cartograph.Decimal.Double
import Cartograph.Diagnostic.Order

/-!
# Reports

The result of analysing a workspace: the findings in order, and a summary with the sizes of the
workspace, the number of findings per category and severity, and how often the store could answer.
-/

namespace Cartograph

structure Tally where
  error : Nat := 0
  warning : Nat := 0
  info : Nat := 0
  deriving DecidableEq, Repr

namespace Tally

def add (t : Tally) : Severity → Tally
  | .error => { t with error := t.error + 1 }
  | .warning => { t with warning := t.warning + 1 }
  | .info => { t with info := t.info + 1 }

def of (l : List Diagnostic) : Tally := l.foldl (fun t d => t.add d.severity) {}

end Tally

structure Summary where
  filesScanned : Nat := 0
  packages : Nat := 0
  edges : Nat := 0
  /-- The findings of each category that has any. -/
  counts : Category → Option Tally := fun _ => none
  elapsedMs : Nat := 0
  cacheHits : Nat := 0
  cacheMisses : Nat := 0

namespace Summary

def countList (s : Summary) : List (Category × Tally) :=
  Category.all.filterMap fun c => (s.counts c).map (c, ·)

def countsOf (l : List Diagnostic) (c : Category) : Option Tally :=
  match l.filter (·.category == c) with
  | [] => none
  | own => some (.of own)

def count (s : Summary) (l : List Diagnostic) : Summary := { s with counts := countsOf l }

/-- The share of files for which the store had an answer; zero when it was never asked. -/
def hitRatio (s : Summary) : Decimal.Quotient :=
  if s.cacheHits + s.cacheMisses = 0 then ⟨0, 1⟩
  else (Decimal.Quotient.ofNat s.cacheHits).div (.ofNat (s.cacheHits + s.cacheMisses))

end Summary

structure Report where
  diagnostics : List Diagnostic := []
  summary : Summary := {}

namespace Report

def hasAtLeast (r : Report) (severity : Severity) : Bool :=
  r.diagnostics.any fun d => decide (severity ≤ d.severity)

def hasErrors (r : Report) : Bool := r.hasAtLeast .error

def byCategory (r : Report) (category : Category) : List Diagnostic :=
  r.diagnostics.filter (·.category == category)

def byRule (r : Report) (rule : String) : List Diagnostic := r.diagnostics.filter (·.rule == rule)

def tally (r : Report) : Tally := .of r.diagnostics

end Report

end Cartograph
