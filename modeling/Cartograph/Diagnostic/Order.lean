import Cartograph.Diagnostic
import Cartograph.Path.Order

/-!
# The order of reports

Findings are listed by category, then file, compared component by component, then line, column, code
and message. Findings that agree in all of these keep the order in which they were found.
-/

namespace Cartograph.Diagnostic

def compare (a b : Diagnostic) : Ordering :=
  (Ord.compare a.category.rank b.category.rank).then <|
  (Path.compare a.location.file b.location.file).then <|
  (Ord.compare a.location.line b.location.line).then <|
  (Ord.compare a.location.column b.location.column).then <|
  (Ord.compare a.code b.code).then (Ord.compare a.message b.message)

def sort (l : List Diagnostic) : List Diagnostic := l.mergeSort fun a b => (compare a b).isLE

end Cartograph.Diagnostic
