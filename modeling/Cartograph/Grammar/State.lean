import Cartograph.Grammar.Table

/-!
# States of a reader

A state is all that a reader of texts remembers of what it has read: the items it may be in, each with
the tokens that may come when the item is complete. The states behind a symbol and the actions on a
token are computed from the items, so there is no table of states.

Where a token allows several actions, ranks and sides decide (`State.actions`):

* of two complete items the one of the higher rank is reduced;
* reading on wins over reducing when the items that read on have the higher rank, and loses when they
  have the lower one;
* at the same rank, items that group to the left are reduced and items that group to the right read
  on;
* a repetition is always reduced.

What is still open then stays open, and the reader follows all actions that are left.
-/

namespace Cartograph.Grammar

/-- The items that a reader may be in, in the order of their numbers, each with the tokens that may
come when it is complete. -/
structure State where
  kernel : List (Nat × TokenSet)
  deriving DecidableEq, Repr

namespace State

/-- Adds tokens to the entry of a number in a list that is ordered by numbers. -/
def insert (n : Nat) (tokens : TokenSet) : List (Nat × TokenSet) → List (Nat × TokenSet)
  | [] => [(n, tokens)]
  | (m, others) :: rest =>
    if n < m then (n, tokens) :: (m, others) :: rest
    else if n = m then (m, others.union tokens) :: rest
    else (m, others) :: insert n tokens rest

def initial (t : Table) : State := ⟨[(t.goal, .single 0)]⟩

/-- The phrases that may come next, each with the tokens that may come behind it. -/
def ahead (t : Table) (s : State) : List (Nat × TokenSet) :=
  s.kernel.foldl
    (fun phrases (n, tokens) =>
      match (t.item n).next? with
      | some (.phrase p) =>
        match (t.item n).after? with
        | some symbol => insert p (firstOf t.first symbol) phrases
        | none => insert p tokens phrases
      | _ => phrases) []

def behind (t : Table) (ahead : List (Nat × TokenSet)) (p : Nat) : Option TokenSet :=
  ahead.foldl
    (fun found (q, tokens) =>
      match (t.leading.getD q #[]).getD p none with
      | none => found
      | some lead =>
        some ((found.getD 0).union (if lead.whole then lead.tokens.union tokens else lead.tokens))) none

def next (t : Table) (s : State) (symbol : Symbol) : Option State :=
  let ahead := s.ahead t
  let advanced := s.kernel.foldl
    (fun kernel (n, tokens) =>
      if (t.item n).next? = some symbol then insert (t.successor.getD n n) tokens kernel
      else kernel) []
  let kernel := (t.openers.getD symbol []).foldl
    (fun kernel (p, items) =>
      match behind t ahead p with
      | none => kernel
      | some tokens => items.foldl (fun kernel n => insert n tokens kernel) kernel) advanced
  if kernel.isEmpty then none else some ⟨kernel⟩

def readable (t : Table) (s : State) : TokenSet :=
  s.kernel.foldl
    (fun set (n, _) =>
      match (t.item n).next? with
      | some symbol => set.union (firstOf t.first symbol)
      | none => set) 0

/-- The complete items with the tokens on which they can be reduced, shorter ones first. -/
def complete (t : Table) (s : State) : List (Nat × TokenSet) :=
  let done := s.kernel.filter fun (n, _) => (t.item n).rest.isEmpty
  let ahead := s.ahead t
  let empties := t.empties.filterMap fun (p, n) => (behind t ahead p).map (n, ·)
  (empties ++ done).mergeSort fun (m, _) (n, _) =>
    let a := t.item m
    let b := t.item n
    a.read < b.read || (a.read == b.read && a.phrase ≤ b.phrase)

def admitted (t : Table) (s : State) : TokenSet :=
  (s.complete t).foldl (fun set (_, tokens) => set.union tokens) ((s.readable t).union t.extras)

end State

/-! ### Ranks -/

/-- Whether an entry of an order speaks of a rank or of one of several phrases. -/
def Standing.fits (rank : Rank) (phrases : List Nat) : Standing Nat → Bool
  | .rank n => rank == .named n
  | .phrase p => phrases.contains p

def compareIn (left : Rank) (lefts : List Nat) (right : Rank) (rights : List Nat) :
    (sawLeft sawRight : Bool) → List (Standing Nat) → Option Ordering
  | _, _, [] => none
  | sawLeft, sawRight, entry :: rest =>
    if entry.fits left lefts then
      if sawRight then some .lt else compareIn left lefts right rights true sawRight rest
    else if entry.fits right rights then
      if sawLeft then some .gt else compareIn left lefts right rights sawLeft true rest
    else compareIn left lefts right rights sawLeft sawRight rest

/-- Compares two ranks that belong to the given phrases. Levels compare as numbers, and no rank is
level zero; all others compare by the orders of the grammar. -/
def compareRanks (orders : List (List (Standing Nat))) (left : Rank) (lefts : List Nat)
    (right : Rank) (rights : List Nat) : Ordering :=
  let named := (orders.findSome? (compareIn left lefts right rights false false)).getD .eq
  let levels (a b : Int) : Ordering := if a = 0 ∧ b = 0 then named else compare a b
  match left, right with
  | .level a, .level b => levels a b
  | .level a, .none => levels a 0
  | .none, .level b => levels 0 b
  | _, _ => named

/-! ### Actions -/

inductive Action where
  | shift
  /-- Read the token and stay in the state. -/
  | skip
  | reduce (item : Nat)
  /-- Be done. -/
  | accept
  deriving DecidableEq, Repr

structure Reductions where
  items : List Nat
  rank : Rank
  phrases : List Nat
  sides : List (Option Side)

/-- Adds a complete item unless the others have a higher rank; those of a lower rank go. -/
def Reductions.add (t : Table) (others : Option Reductions) (n : Nat) : Option Reductions :=
  let item := t.item n
  let alone : Reductions := ⟨[n], item.rank, [item.phrase], [item.side]⟩
  match others with
  | none => some alone
  | some r =>
    match compareRanks t.orders item.rank [item.phrase] r.rank r.phrases with
    | .gt => some alone
    | .lt => some r
    | .eq => some ⟨r.items ++ [n], item.rank, item.phrase :: r.phrases, item.side :: r.sides⟩

inductive Verdict where
  | read
  | reduce
  | both
  deriving DecidableEq, Repr

def verdict (t : Table) (readers : List Item) (r : Reductions) : Verdict :=
  let standings := readers.map fun item => compareRanks t.orders item.rank [item.phrase] r.rank r.phrases
  let stronger := standings.contains .gt
  let weaker := standings.contains .lt
  if stronger && weaker then .both
  else if stronger then .read
  else if weaker then .reduce
  else if r.sides.all (· == some .left) then .reduce
  else if r.sides.all (· == some .right) then .read
  else .both

namespace State

def reduction (t : Table) (n : Nat) : Action :=
  if (t.item n).phrase = (t.item t.goal).phrase then .accept else .reduce n

def readers (t : Table) (s : State) (token : Nat) : List Item :=
  s.kernel.filterMap fun (n, _) =>
    let item := t.item n
    match item.next? with
    | some symbol =>
      if item.read != 0 && (firstOf t.first symbol).mem token then some item else none
    | none => none

def actions (t : Table) (s : State) (token : Nat) : List Action :=
  let done := (s.complete t).filter fun (_, tokens) => tokens.mem token
  let reductions := done.foldl (fun r (n, _) => Reductions.add t r n) none
  match reductions, (s.readable t).mem token with
  | none, true => [.shift]
  | none, false => if t.extras.mem token then [.skip] else []
  | some r, false => r.items.map (reduction t)
  | some r, true =>
    let readers := s.readers t token
    let involved := readers.map (·.phrase) ++ done.map fun (n, _) => (t.item n).phrase
    let repeated := involved.all fun p => t.named ≤ p && involved.head? == some p
    if repeated then r.items.map (reduction t)
    else
      match verdict t readers r with
      | .read => [.shift]
      | .reduce => r.items.map (reduction t)
      | .both => r.items.map (reduction t) ++ [.shift]

end State

end Cartograph.Grammar
