import Cartograph.Digraph

/-!
# Shortest cycles

For every strongly connected component of two nodes or more, a shortest cycle through its smallest
node; among several, the one that comes first when the nodes are compared one after the other.

The search goes level by level: level `k` holds, for each node at distance `k` from the start, the
first shortest path to it. It ends at the first path whose end leads back to the start.
-/

namespace Cartograph.Digraph

/-- Extends a path, kept from its end to its start, by the nodes not seen before. -/
def extend (next : Nat → List Nat) (path : List Nat) :
    List Nat → List Nat × List (List Nat) → List Nat × List (List Nat)
  | [], s => s
  | w :: rest, (seen, level) =>
    if seen.contains w then extend next path rest (seen, level)
    else extend next path rest (w :: seen, level ++ [w :: path])

def nextLevel (next : Nat → List Nat) (seen : List Nat) (level : List (List Nat)) :
    List Nat × List (List Nat) :=
  level.foldl (fun s path => extend next path (next (path.headD 0)) s) (seen, [])

def closing? (next : Nat → List Nat) (start : Nat) (level : List (List Nat)) : Option (List Nat) :=
  level.find? fun path => (next (path.headD 0)).contains start

def cycleFrom (next : Nat → List Nat) (start : Nat) :
    Nat → List Nat → List (List Nat) → Option (List Nat)
  | 0, _, _ => none
  | n + 1, seen, level =>
    match closing? next start level with
    | some path => some path.reverse
    | none =>
      if level.isEmpty then none
      else
        let (seen, level) := nextLevel next seen level
        cycleFrom next start n seen level

def shortestCycle (next : Nat → List Nat) (bound start : Nat) : Option (List Nat) :=
  cycleFrom next start (bound + 1) [start] [[start]]

/-- A strongly connected component and a shortest cycle through its smallest node. -/
structure Knot where
  members : List Nat
  cycle : List Nat

def Knot.hops (k : Knot) : List (Nat × Nat) :=
  k.cycle.zip (k.cycle.drop 1 ++ k.cycle.take 1)

/-- The successors of a node inside a component, itself excluded, in ascending order. -/
def inside (next : Nat → List Nat) (members : List Nat) (v : Nat) : List Nat :=
  let targets := next v
  members.filter fun w => w != v && targets.contains w

def knots (g : Digraph) : List Knot :=
  let next := lookup g.table
  g.components.filterMap fun members =>
    match members with
    | start :: _ :: _ =>
      (shortestCycle (inside next members) members.length start).map (⟨members, ·⟩)
    | _ => none

end Cartograph.Digraph
