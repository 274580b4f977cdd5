import Std.Data.HashSet

/-!
# Directed graphs

A directed graph on the numbers below its size, given by its list of edges. Two searches on it:

* `reach` — the nodes that can be reached from a node;
* `postorder` — all nodes, in the order in which a depth-first search leaves them.

Strongly connected components are the classes of nodes that reach each other: `component` is the class
of a node, `components` lists all classes. They come in the order in which the depth-first search
leaves them for good, so a component comes after those that it leads to.
-/

namespace Cartograph

structure Digraph where
  size : Nat
  edges : List (Nat × Nat)

namespace Digraph

def successors (g : Digraph) (v : Nat) : List Nat :=
  (g.edges.filter (·.1 == v)).map (·.2)

def flip (g : Digraph) : Digraph := { g with edges := g.edges.map fun (v, w) => (w, v) }

def table (g : Digraph) : Array (List Nat) := ((List.range g.size).map g.successors).toArray

def lookup (table : Array (List Nat)) (v : Nat) : List Nat := table[v]?.getD []

/-! ### Reachability -/

/-- Collects what can be reached from a list of nodes. The first argument bounds the number of steps. -/
def explore (next : Nat → List Nat) : Nat → List Nat → Std.HashSet Nat → Std.HashSet Nat
  | 0, _, seen => seen
  | _, [], seen => seen
  | n + 1, v :: todo, seen =>
    if seen.contains v then explore next n todo seen
    else explore next n (next v ++ todo) (seen.insert v)

/-- The nodes that can be reached from a node along a successor function, itself included. -/
def reach (g : Digraph) (next : Nat → List Nat) (v : Nat) : Std.HashSet Nat :=
  explore next (g.edges.length + 2) [v] {}

/-! ### Depth-first search -/

/-- A depth-first search: the nodes that it has entered, and those that it has left, last first. -/
structure Walk where
  entered : Std.HashSet Nat := {}
  left : List Nat := []

/-- Visits a node and what can be reached from it through nodes not entered before. Of the edges from
a node the last is followed first. The first argument bounds the depth. -/
def visit (next : Nat → List Nat) : Nat → Nat → Walk → Walk
  | 0, v, s => { entered := s.entered.insert v, left := v :: s.left }
  | n + 1, v, s =>
    if s.entered.contains v then s
    else
      let s := (next v).reverse.foldl (fun s w => if s.entered.contains w then s else visit next n w s)
        { s with entered := s.entered.insert v }
      { s with left := v :: s.left }

/-- All nodes in the order in which a depth-first search leaves them, last first. -/
def postorder (g : Digraph) (next : Nat → List Nat) : List Nat :=
  ((List.range g.size).foldl (fun (s : Walk) v => if s.entered.contains v then s else visit next g.size v s) {}).left

/-! ### Components -/

def component (g : Digraph) (next prev : Nat → List Nat) (v : Nat) : List Nat :=
  let forward := g.reach next v
  let backward := g.reach prev v
  (List.range g.size).filter fun w => forward.contains w && backward.contains w

/-- Collects the components of nodes; each is put before those found earlier. -/
def collect (component : Nat → List Nat) : List Nat → List (List Nat) → List (List Nat)
  | [], found => found
  | v :: rest, found =>
    if found.any (·.contains v) then collect component rest found
    else collect component rest (component v :: found)

def components (g : Digraph) : List (List Nat) :=
  let next := lookup g.table
  let prev := lookup g.flip.table
  collect (g.component next prev) (g.postorder next) []

end Digraph

end Cartograph
