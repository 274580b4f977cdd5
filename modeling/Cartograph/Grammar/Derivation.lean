import Cartograph.Grammar.Table

/-!
# Derivations

A derivation says how a text is made of phrases. It holds no text: a token knows how many characters
it skips and how many it takes, and where it stands follows from where the derivation starts. So
reading a derivation against a text (`Derivation.trees`) always gives trees whose leaves are pieces of
the text, from left to right, whatever the derivation.

Of two derivations of the same text the heavier one is better, and at the same weight the one that
comes first in the order of `Derivation.compare`, which looks at symbols from the top down and from
left to right.
-/

namespace Cartograph.Grammar

open Source (Shape Role Tree Cursor)

inductive Derivation where
  /-- A token behind `gap` characters. An extra token belongs to no production. -/
  | token (number gap size : Nat) (extra : Bool)
  /-- A phrase read by a complete item. The gap is that of its first token. -/
  | phrase (item number gap size : Nat) (weight : Int) (children : List Derivation)
  deriving Repr

namespace Derivation

def gap : Derivation → Nat
  | token _ gap _ _ => gap
  | phrase _ _ gap _ _ _ => gap

def size : Derivation → Nat
  | token _ _ size _ => size
  | phrase _ _ _ size _ _ => size

def extent (d : Derivation) : Nat := d.gap + d.size

def weight : Derivation → Int
  | token _ _ _ _ => 0
  | phrase _ _ _ _ weight _ => weight

def isExtra : Derivation → Bool
  | token _ _ _ extra => extra
  | phrase _ _ _ _ _ _ => false

def children : Derivation → List Derivation
  | token _ _ _ _ => []
  | phrase _ _ _ _ _ children => children

def ofChildren (t : Table) (item : Nat) (children : List Derivation) : Derivation :=
  let it := t.item item
  let gap := (children.head?.map Derivation.gap).getD 0
  let extent := children.foldl (fun n d => n + d.extent) 0
  let weight := children.foldl (fun w d => w + d.weight) it.weight
  phrase item it.phrase gap (extent - gap) weight children

def order (t : Table) : Derivation → Nat
  | token number _ _ _ => number
  | phrase _ number _ _ _ _ => t.tokens + number

def isLike (t : Table) (a b : Derivation) : Bool :=
  a.order t == b.order t && a.gap == b.gap && a.size == b.size &&
    a.children.length == b.children.length && a.isExtra == b.isExtra

mutual

def compare (t : Table) (a b : Derivation) : Ordering :=
  (Ord.compare (a.order t) (b.order t)).then
    ((Ord.compare a.children.length b.children.length).then
      (match a with
      | token _ _ _ _ => .eq
      | phrase _ _ _ _ _ children => compareAll t children b.children))

def compareAll (t : Table) : List Derivation → List Derivation → Ordering
  | [], _ => .eq
  | _, [] => .eq
  | a :: as, b :: bs => (compare t a b).then (compareAll t as bs)

end

def better (t : Table) (a b : Derivation) : Derivation :=
  if a.weight < b.weight then b
  else if b.weight < a.weight then a
  else if compare t a b = .gt then b
  else a

/-! ### Source trees -/

def inRole (role : Option Role) : List Tree → List Tree
  | [] => []
  | tree :: rest =>
    match role with
    | none => tree :: rest
    | some r => tree.withRole r :: rest

mutual

/-- The trees of a derivation read from a place in a text, and the place behind it. `shapes` gives
the shapes of symbols, `given` the shape that the production asks for instead. -/
def trees (t : Table) (shapes : Symbol → Shape) (given : Option Shape) (role : Option Role)
    (c : Cursor) : Derivation → List Tree × Cursor
  | token number gap size _ =>
    let start := c.advance gap
    match given.getD (shapes (.token number)) with
    | .leaf kind =>
      ([.leaf kind role (start.rest.take size) start.position], start.advance size)
    | _ => ([], start.advance size)
  | phrase item number gap size _ children =>
    match given.getD (shapes (.phrase number)) with
    | .leaf kind =>
      let start := c.advance gap
      ([.leaf kind role (start.rest.take size) start.position], start.advance size)
    | .node kind =>
      let (parts, stop) := treesOf t shapes (t.item item).labels.reverse c children
      ([.node kind role parts], stop)
    | .hidden =>
      let (parts, stop) := treesOf t shapes (t.item item).labels.reverse c children
      (inRole role parts, stop)

/-- The trees of derivations one after another. Those that are no extra tokens have the given shapes
and roles. -/
def treesOf (t : Table) (shapes : Symbol → Shape) (labels : List (Option Shape × Option Role))
    (c : Cursor) : List Derivation → List Tree × Cursor
  | [] => ([], c)
  | d :: ds =>
    let label := if d.isExtra then (none, none) else labels.headD (none, none)
    let labels := if d.isExtra then labels else labels.tail
    let (first, c) := trees t shapes label.1 label.2 c d
    let (rest, c) := treesOf t shapes labels c ds
    (first ++ rest, c)

end

end Derivation

end Cartograph.Grammar
