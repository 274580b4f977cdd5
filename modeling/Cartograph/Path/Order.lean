import Cartograph.Path

/-!
# The order of paths

Locations are sorted by path, component by component, so that a directory's contents stand together:
`a/b` comes before `a-b`. A component is the root slash, a leading dot, a `..` or a name; they come in
this order, names among themselves by code point, and a path that is an initial part of another comes
first. Repeated slashes and inner dots do not count.
-/

namespace Cartograph.Path

inductive Component where
  | root
  | here
  | up
  | name (text : String)
  deriving DecidableEq, Repr

namespace Component

def rank : Component → Nat
  | root => 0
  | here => 1
  | up => 2
  | name _ => 3

def cmp : Component → Component → Ordering
  | name a, name b => compare a b
  | a, b => compare a.rank b.rank

end Component

def component? (segment : String) : Option Component :=
  if segment = "" ∨ segment = "." then none
  else if segment = ".." then some .up
  else some (.name segment)

def components (path : String) : List Component :=
  let inner := (segments path).filterMap component?
  match segments path with
  | "" :: _ :: _ => .root :: inner
  | "." :: _ => .here :: inner
  | _ => inner

def compareComponents : List Component → List Component → Ordering
  | [], [] => .eq
  | [], _ :: _ => .lt
  | _ :: _, [] => .gt
  | a :: as, b :: bs => (a.cmp b).then (compareComponents as bs)

def compare (a b : String) : Ordering := compareComponents (components a) (components b)

end Cartograph.Path
