import Cartograph.Grammar.Derivation
import Cartograph.Grammar.State

/-!
# Stacks that share their parts

A reader that follows several readings of a text at once keeps a stack for each. The stacks share
what they have in common: a node holds a state and the place in the text where it was reached, and
links to the nodes below it, each with the derivation between the two. A reading is a node on top, its
head.

Two readings that have come to the same state at the same place go on as one (`Stack.merge`): the
head then links to what lay below either. Reducing a phrase pops all paths of that length
(`Stack.pop`), and of the paths that end in the same node the best derivation is kept.
-/

namespace Cartograph.Grammar

open Source (Cursor Position)

structure Link where
  node : Nat
  derivation : Derivation
  deriving Repr

structure Node where
  state : State
  cursor : Cursor
  /-- The characters before that place. -/
  offset : Nat
  /-- The heaviest weight of the paths down from here. -/
  weight : Int
  links : List Link
  deriving Repr

/-- How a reading fares: it goes on, it has become another one, or the next token at the given
position does not fit. -/
inductive Status where
  | active
  | halted
  | stuck (position : Position)
  deriving DecidableEq, Repr

structure Head where
  node : Nat
  status : Status
  deriving Repr

structure Stack where
  nodes : Array Node
  heads : Array Head
  deriving Repr

namespace Stack

def maxHeads : Nat := 6

def overflow : Nat := 4

def maxLinks : Nat := 8

def maxPaths : Nat := 64

def initial (t : Table) (c : Cursor) : Stack where
  nodes := #[⟨.initial t, c, 0, 0, []⟩]
  heads := #[⟨0, .active⟩]

def node (s : Stack) (n : Nat) : Node :=
  s.nodes.getD n ⟨⟨[]⟩, ⟨[], .start⟩, 0, 0, []⟩

def top (s : Stack) (v : Nat) : Node := s.node (s.heads.getD v ⟨0, .halted⟩).node

def isActive (s : Stack) (v : Nat) : Bool := (s.heads.getD v ⟨0, .halted⟩).status == .active

def setStatus (s : Stack) (v : Nat) (status : Status) : Stack :=
  { s with heads := s.heads.modify v fun h => { h with status } }

/-- Puts a derivation on top of a node, which leads to a state at a cursor, and gives the new node. -/
def place (s : Stack) (below : Nat) (d : Derivation) (state : State) (c : Cursor) : Stack × Nat :=
  let n := s.node below
  let new := s.nodes.size
  ({ s with
      nodes := s.nodes.push ⟨state, c, n.offset + d.extent, n.weight + d.weight, [⟨below, d⟩]⟩ },
    new)

def shift (s : Stack) (v : Nat) (d : Derivation) (state : State) : Stack :=
  let below := (s.heads.getD v ⟨0, .halted⟩).node
  let (s, n) := s.place below d state ((s.node below).cursor.advance d.extent)
  { s with heads := s.heads.modify v fun h => { h with node := n } }

/-! ### Merging -/

/-- Adds a link to a node. A link that looks like another one between the same nodes replaces it if
it is heavier; one between nodes that have the same state and place merges the nodes below. -/
def addLink (t : Table) : (fuel : Nat) → Stack → (self : Nat) → Link → Stack
  | 0, s, _, _ => s
  | fuel + 1, s, self, link =>
    if link.node = self then s
    else
      let node := s.node self
      let below := s.node link.node
      let weight := below.weight + link.derivation.weight
      match node.links.find? (fun l =>
          l.derivation.isLike t link.derivation &&
            (l.node == link.node ||
              ((s.node l.node).offset == below.offset && (s.node l.node).state == below.state))) with
      | some l =>
        if l.node = link.node then
          if l.derivation.weight < link.derivation.weight then
            let links := node.links.map fun other =>
              if other.node = l.node && other.derivation.isLike t link.derivation then link else other
            { s with nodes := s.nodes.modify self fun n => { n with links, weight } }
          else s
        else
          let s := below.links.foldl (fun s inner => addLink t fuel s l.node inner) s
          { s with nodes := s.nodes.modify self fun n => { n with weight := max n.weight weight } }
      | none =>
        if node.links.length ≥ maxLinks then s
        else
          { s with
            nodes := s.nodes.modify self fun n =>
              { n with links := n.links ++ [link], weight := max n.weight weight } }

def canMerge (s : Stack) (a b : Head) : Bool :=
  let na := s.node a.node
  let nb := s.node b.node
  a.status == .active && b.status == .active && na.offset == nb.offset && na.state == nb.state

def merge (t : Table) (s : Stack) (a b : Head) : Stack :=
  (s.node b.node).links.foldl (fun s link => addLink t (s.nodes.size + 1) s a.node link) s

/-! ### Popping -/

/-- A path down a stack: where it has come, how many derivations are left to pass, and those passed,
the lowest one first. -/
structure Path where
  node : Nat
  left : Nat
  passed : List Derivation
  deriving Repr

def Path.down (p : Path) (link : Link) : Path :=
  ⟨link.node, if link.derivation.isExtra then p.left else p.left - 1, link.derivation :: p.passed⟩

/-- Lets each path go down one link. A path goes on with the first link of its node; the other links
start paths of their own, behind all others. -/
def descend (s : Stack) (paths : List Path) : List Path :=
  let firsts := paths.filterMap fun p => (s.node p.node).links.head?.map p.down
  let others := paths.flatMap fun p => (s.node p.node).links.tail.map p.down
  firsts ++ others.take (maxPaths - firsts.length)

def collect (s : Stack) (done : Path → Bool) : (fuel : Nat) → List Path → List Path
  | 0, _ => []
  | _, [] => []
  | fuel + 1, paths =>
    paths.filter done ++ s.collect done fuel (s.descend (paths.filter (!done ·)))

def addPath (p : Path) : List (Nat × List Path) → List (Nat × List Path)
  | [] => [(p.node, [p])]
  | (n, paths) :: rest =>
    if n = p.node then (n, paths ++ [p]) :: rest else (n, paths) :: addPath p rest

def pathFrom (s : Stack) (v count : Nat) : Path := ⟨(s.heads.getD v ⟨0, .halted⟩).node, count, []⟩

/-- The paths of `count` derivations down from a reading, those that end in the same node
together. -/
def pop (s : Stack) (v count : Nat) : List (Nat × List Path) :=
  (s.collect (·.left == 0) (s.nodes.size + 1) [s.pathFrom v count]).foldl (fun groups p => addPath p groups) []

def popAll (s : Stack) (v : Nat) : List (List Derivation) :=
  (s.collect (fun p => (s.node p.node).links.isEmpty) (s.nodes.size + 1)
    [s.pathFrom v s.nodes.size]).map (·.passed)

/-! ### Reducing -/

/-- Divides derivations into those up to the last one that is not extra, and the extra ones behind. -/
def splitExtras (ds : List Derivation) : List Derivation × List Derivation :=
  let behind := (ds.reverse.takeWhile Derivation.isExtra).reverse
  (ds.take (ds.length - behind.length), behind)

def bestPhrase (t : Table) (item : Nat) : List Path → Option (Derivation × List Derivation)
  | [] => none
  | p :: rest =>
    let (children, behind) := splitExtras p.passed
    some (rest.foldl
      (fun (best, behind) q =>
        let (children, others) := splitExtras q.passed
        let d := Derivation.ofChildren t item children
        if best.weight < d.weight || (best.weight == d.weight && best.compare t d == .gt) then
          (d, others)
        else (best, behind))
      (Derivation.ofChildren t item children, behind))

def placeAll (s : Stack) (below : Nat) (state : State) : List Derivation → Stack × Nat
  | [] => (s, below)
  | d :: ds =>
    let (s, n) := s.place below d state ((s.node below).cursor.advance d.extent)
    s.placeAll n state ds

/-- Merges a new reading into the first of those before it that it fits, the one at `v` apart, or
adds it behind them. -/
def settle (t : Table) (s : Stack) (v : Nat) (head : Head) : Stack :=
  let fitting := (List.range s.heads.size).findSome? fun j =>
    if j = v then none else (s.heads[j]?).filter (s.canMerge · head)
  match fitting with
  | some h => s.merge t h head
  | none => { s with heads := s.heads.push head }

/-- Reduces an item on top of a reading: for each node that its paths end in, a new reading. -/
def reduce (t : Table) (s : Stack) (v item : Nat) : Stack :=
  let it := t.item item
  let cursor := (s.top v).cursor
  let halted := (s.heads.filter (·.status == .halted)).size
  (s.pop v it.read).foldl
    (fun s (below, paths) =>
      if s.heads.size > maxHeads + overflow + halted then s
      else
        match bestPhrase t item paths, (s.node below).state.next t (.phrase it.phrase) with
        | some (d, behind), some state =>
          let c := if behind.isEmpty then cursor else (s.node below).cursor.advance d.extent
          let (s, n) := s.place below d state c
          let (s, n) := s.placeAll n state behind
          s.settle t v ⟨n, .active⟩
        | _, _ => s) s

/-! ### Condensing -/

/-- Places a head among those before it: active ones drive out stuck ones, those that fit are merged,
and the heavier ones come first. -/
def insertHead (t : Table) (s : Stack) (before : List Head) (head : Head) : List Head → Stack × List Head
  | [] => (s, before ++ [head])
  | h :: rest =>
    match h.status, head.status with
    | .active, .active =>
      if s.canMerge h head then (s.merge t h head, before ++ h :: rest)
      else if (s.node h.node).weight < (s.node head.node).weight then
        s.insertHead t (before ++ [head]) h rest
      else s.insertHead t (before ++ [h]) head rest
    | .active, _ => (s, before ++ h :: rest)
    | _, .active => s.insertHead t before head rest
    | _, _ => s.insertHead t (before ++ [h]) head rest

/-- Drops the readings that have become others, merges those that fit, and keeps the best. -/
def condense (t : Table) (s : Stack) : Stack :=
  let (s, heads) := s.heads.foldl
    (fun (s, kept) head =>
      if head.status = .halted then (s, kept) else s.insertHead t [] head kept)
    (s, ([] : List Head))
  { s with heads := (heads.take maxHeads).toArray }

end Stack

end Cartograph.Grammar
