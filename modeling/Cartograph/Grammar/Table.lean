import Cartograph.Grammar.Production
import Std.Data.HashMap

/-!
# Items and what can follow them

An item is a production of which some steps have been read. What a reader of texts needs to know of a
grammar is collected in a `Table`:

* the items, numbered, each with the one that reading its next symbol leads to;
* `first` — the tokens that a phrase can start with;
* `leading` — which phrases can stand at the start of a phrase, and the tokens that can come behind
  them there;
* `openers` — the phrases that have a production starting with a given symbol.

Two items that have read different symbols are one item when all that is left to read is the same.
No phrase but the whole text is empty, so the tokens that can come behind a symbol are the first
tokens of the next one.
-/

namespace Cartograph.Grammar

open Source (Shape Role)

/-! ### Sets of tokens -/

abbrev TokenSet := Nat

namespace TokenSet

def single (n : Nat) : TokenSet := 1 <<< n

def union (s t : TokenSet) : TokenSet := s ||| t

def mem (s : TokenSet) (n : Nat) : Bool := Nat.testBit s n

end TokenSet

/-! ### Items -/

structure Item where
  phrase : Nat
  /-- How many steps have been read. -/
  read : Nat
  /-- The shapes and roles of the steps that have been read, the last one first. -/
  labels : List (Option Shape × Option Role)
  /-- The rank and side of the last step that has been read. -/
  rank : Rank
  side : Option Side
  weight : Int
  rest : List Step
  deriving DecidableEq, Hashable, Repr

namespace Item

def ofProduction (phrase : Nat) (p : Production) : Item :=
  { phrase, read := 0, labels := [], rank := .none, side := none, weight := p.weight, rest := p.steps }

def next? (item : Item) : Option Symbol := item.rest.head?.map (·.symbol)

def after? (item : Item) : Option Symbol := (item.rest.drop 1).head?.map (·.symbol)

def advance (item : Item) (step : Step) (rest : List Step) : Item :=
  { item with
    read := item.read + 1
    labels := (step.shape, step.role) :: item.labels
    rank := step.rank
    side := step.side
    rest }

end Item

/-- Items with their numbers, and for each item the one behind its next symbol. -/
structure Items where
  all : Array Item := #[]
  number : Std.HashMap Item Nat := {}
  successor : Array Nat := #[]

namespace Items

/-- The number of an item whose steps left to read are `rest`, and of all that follow it. -/
def add (items : Items) (item : Item) : List Step → Items × Nat
  | [] =>
    match items.number[item]? with
    | some n => (items, n)
    | none =>
      let n := items.all.size
      ({ all := items.all.push item, number := items.number.insert item n,
         successor := items.successor.push n }, n)
  | step :: rest =>
    match items.number[item]? with
    | some n => (items, n)
    | none =>
      let (items, following) := items.add (item.advance step rest) rest
      let n := items.all.size
      ({ all := items.all.push item, number := items.number.insert item n,
         successor := items.successor.push following }, n)

def addAll (items : Items) (phrase : Nat) : List Production → Items × List Nat
  | [] => (items, [])
  | p :: ps =>
    let item := Item.ofProduction phrase p
    let (items, n) := items.add item item.rest
    let (items, ns) := items.addAll phrase ps
    (items, n :: ns)

end Items

/-! ### First tokens -/

def firstOf (first : Array TokenSet) : Symbol → TokenSet
  | .token t => .single t
  | .phrase p => first.getD p 0

/-- Adds to the first tokens of each phrase those of the symbols it can start with. -/
def firstRound (starts : Array (List Symbol)) (first : Array TokenSet) : Array TokenSet :=
  starts.map fun symbols => symbols.foldl (fun set s => set.union (firstOf first s)) 0

def firstTokens (starts : Array (List Symbol)) : (rounds : Nat) → Array TokenSet → Array TokenSet
  | 0, first => first
  | rounds + 1, first =>
    let more := firstRound starts first
    if more == first then first else firstTokens starts rounds more

/-! ### Leading phrases -/

/-- How a phrase can stand at the start of another: the tokens that can come behind it inside of the
other phrase, and whether it can also be the whole of it. -/
structure Lead where
  tokens : TokenSet
  whole : Bool
  deriving DecidableEq, Repr

namespace Lead

def union (a b : Lead) : Lead := ⟨a.tokens.union b.tokens, a.whole || b.whole⟩

def under (outer inner : Lead) : Lead :=
  ⟨if inner.whole then inner.tokens.union outer.tokens else inner.tokens, inner.whole && outer.whole⟩

end Lead

abbrev Leads := List (Nat × Lead)

namespace Leads

def insert (p : Nat) (lead : Lead) : Leads → Leads
  | [] => [(p, lead)]
  | (q, other) :: rest =>
    if p = q then (q, other.union lead) :: rest else (q, other) :: insert p lead rest

end Leads

/-- The phrases at the start of a phrase that are still to be followed up, one after another. -/
def leadsFrom (direct : Array Leads) :
    (fuel : Nat) → (todo : List Nat) → Array (Option Lead) → Array (Option Lead)
  | 0, _, found => found
  | _, [], found => found
  | fuel + 1, p :: todo, found =>
    match found.getD p none with
    | none => leadsFrom direct fuel todo found
    | some outer =>
      let (todo, found) := (direct.getD p []).foldl
        (fun (todo, found) (q, inner) =>
          let lead := outer.under inner
          match found.getD q none with
          | none => (q :: todo, found.setIfInBounds q (some lead))
          | some known =>
            let both := known.union lead
            if both = known then (todo, found) else (q :: todo, found.setIfInBounds q (some both)))
        (todo, found)
      leadsFrom direct fuel todo found

/-! ### Tables -/

structure Table where
  /-- The number of tokens. -/
  tokens : Nat
  /-- The number of phrases that are not repetitions. -/
  named : Nat
  items : Array Item
  successor : Array Nat
  /-- The item for a whole text of which nothing has been read. -/
  goal : Nat
  first : Array TokenSet
  leading : Array (Array (Option Lead))
  /-- For each symbol the phrases with a production that starts with it, and the items behind it. -/
  openers : Std.HashMap Symbol (List (Nat × List Nat))
  /-- The phrases that can be empty, with the item of that production. -/
  empties : List (Nat × Nat)
  extras : TokenSet
  orders : List (List (Standing Nat))

namespace Table

def item (t : Table) (n : Nat) : Item :=
  t.items.getD n (.ofProduction 0 ⟨[], 0⟩)

def addOpener (openers : Std.HashMap Symbol (List (Nat × List Nat))) (symbol : Symbol)
    (phrase item : Nat) : Std.HashMap Symbol (List (Nat × List Nat)) :=
  match openers.getD symbol [] with
  | (p, items) :: rest =>
    if p = phrase then
      openers.insert symbol ((p, if items.contains item then items else items ++ [item]) :: rest)
    else openers.insert symbol ((phrase, [item]) :: (p, items) :: rest)
  | [] => openers.insert symbol [(phrase, [item])]

/-- The table of numbered productions. Phrases from `named` on are repetitions, and `goal` is one
more phrase, the whole text. -/
def ofProductions (tokens named start : Nat) (productions : List (List Production))
    (extras : TokenSet) (orders : List (List (Standing Nat))) : Table :=
  let count := productions.length
  let goal : Item := .ofProduction count ⟨[{ symbol := .phrase start }], 0⟩
  let (items, goalNumber) := Items.add {} goal goal.rest
  let (items, starts, _) := productions.foldl
    (fun (items, starts, p) ways =>
      let (items, ns) := items.addAll p ways
      (items, starts.push ns, p + 1)) (items, (#[] : Array (List Nat)), 0)
  let itemOf (n : Nat) : Item := items.all.getD n goal
  let symbols := starts.map fun ns => (ns.filterMap fun n => (itemOf n).next?).eraseDups
  let first := firstTokens symbols (count + 1) (Array.replicate count 0)
  let direct := starts.map fun ns => ns.foldl
    (fun leads n =>
      match (itemOf n).next? with
      | some (.phrase q) =>
        match (itemOf n).after? with
        | some s => leads.insert q ⟨firstOf first s, false⟩
        | none => leads.insert q ⟨0, true⟩
      | _ => leads) ([] : Leads)
  let leading := (Array.range count).map fun p =>
    leadsFrom direct (count * count + 1) [p] ((Array.replicate count none).setIfInBounds p (some ⟨0, true⟩))
  let (openers, empties, _) := starts.foldl
    (fun (openers, empties, p) ns =>
      let (openers, empties) := ns.foldl
        (fun (openers, empties) n =>
          match (itemOf n).next? with
          | some s => (addOpener openers s p (items.successor.getD n n), empties)
          | none => (openers, (p, n) :: empties)) (openers, empties)
      (openers, empties, p + 1)) ({}, [], 0)
  { tokens, named, items := items.all, successor := items.successor, goal := goalNumber, first,
    leading, openers, empties, extras, orders }

end Table

variable {P T : Type} [BEq P] [BEq T]

def phraseList (g : Grammar P T) : List P := g.rules.map (·.1)

def tokenList (g : Grammar P T) : List T :=
  (g.finish :: g.word :: (g.rules.flatMap fun (_, rule) => rule.tokens) ++ g.extras).eraseDups

def table (g : Grammar P T) : Table :=
  let phrases := g.phraseList
  let tokens := g.tokenList
  let rules := g.rules.map fun (_, rule) => rule.map phrases.idxOf tokens.idxOf
  let (rules, repeats) := Repeats.unrollAll ⟨[], phrases.length⟩ rules
  let ways := ((rules ++ repeats.rules).map Rule.ways).toArray
  let inlined (p : Nat) : Option (List Production) :=
    if (g.inlined.map phrases.idxOf).contains p then ways[p]? else none
  let productions := ways.toList.map fun ps =>
    ps.flatMap (·.inlined inlined (g.inlined.length + 1))
  .ofProductions tokens.length phrases.length (phrases.idxOf g.start) productions
    ((g.extras.map tokens.idxOf).foldl (fun set n => set.union (.single n)) 0)
    (g.orders.map fun order => order.map fun
      | .rank n => .rank n
      | .phrase p => .phrase (phrases.idxOf p))

end Cartograph.Grammar
