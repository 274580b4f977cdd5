import Cartograph.Grammar.Rule

/-!
# Productions

A production is one way to write a phrase: a list of steps without choices and repetitions. Rules
become productions in three moves.

* `Repeats.unroll` gives each repetition a phrase of its own, which is two of itself or the repeated
  rule. Equal repetitions share their phrase.
* `Rule.productions` multiplies choices out. Each step keeps the innermost rank, side, shape and
  role around it, and a production the heaviest weight.
* `Production.inlined` replaces steps that name an inlined phrase by the steps of that phrase.

From here on phrases and tokens are numbers.
-/

namespace Cartograph.Grammar

open Source (Shape Role)

inductive Symbol where
  | token (n : Nat)
  | phrase (n : Nat)
  deriving DecidableEq, Hashable, Repr

structure Step where
  symbol : Symbol
  rank : Rank := .none
  side : Option Side := none
  shape : Option Shape := none
  role : Option Role := none
  deriving DecidableEq, Hashable, Repr

structure Production where
  steps : List Step
  weight : Int := 0
  deriving DecidableEq, Hashable, Repr

def heavier (a b : Int) : Int := if a.natAbs < b.natAbs then b else a

/-! ### Repetitions -/

/-- The repetitions found so far, each with its phrase, and the number of the next one. -/
structure Repeats where
  known : List (Rule Nat Nat × Nat)
  next : Nat

namespace Repeats

mutual

def unroll (repeats : Repeats) : Rule Nat Nat → Rule Nat Nat × Repeats
  | .blank => (.blank, repeats)
  | .token t => (.token t, repeats)
  | .phrase p => (.phrase p, repeats)
  | .seq rules => let (rules, repeats) := repeats.unrollAll rules; (.seq rules, repeats)
  | .choice rules => let (rules, repeats) := repeats.unrollAll rules; (.choice rules, repeats)
  | .many rule =>
    let (rule, repeats) := repeats.unroll rule
    match repeats.known.lookup rule with
    | some p => (.phrase p, repeats)
    | none =>
      (.phrase repeats.next, ⟨repeats.known ++ [(rule, repeats.next)], repeats.next + 1⟩)
  | .ranked rank side rule =>
    let (rule, repeats) := repeats.unroll rule; (.ranked rank side rule, repeats)
  | .weighted weight rule =>
    let (rule, repeats) := repeats.unroll rule; (.weighted weight rule, repeats)
  | .shaped shape rule =>
    let (rule, repeats) := repeats.unroll rule; (.shaped shape rule, repeats)
  | .part role rule => let (rule, repeats) := repeats.unroll rule; (.part role rule, repeats)

def unrollAll (repeats : Repeats) : List (Rule Nat Nat) → List (Rule Nat Nat) × Repeats
  | [] => ([], repeats)
  | r :: rs =>
    let (r, repeats) := repeats.unroll r
    let (rs, repeats) := repeats.unrollAll rs
    (r :: rs, repeats)

end

/-- The rules of the phrases that repetitions have become, in the order of their numbers. -/
def rules (repeats : Repeats) : List (Rule Nat Nat) :=
  repeats.known.map fun (rule, p) => .choice [.seq [.phrase p, .phrase p], rule]

end Repeats

/-! ### Choices -/

mutual

/-- The productions of a rule without repetitions. `around` holds what the rules around it say. -/
def Rule.productions (around : Step) : Rule Nat Nat → List Production
  | .blank => [⟨[], 0⟩]
  | .token t => [⟨[{ around with symbol := .token t }], 0⟩]
  | .phrase p => [⟨[{ around with symbol := .phrase p }], 0⟩]
  | .seq rules => Rule.sequences around rules
  | .choice rules => Rule.alternatives around rules
  | .many rule => Rule.productions around rule
  | .ranked rank side rule =>
    Rule.productions { around with rank := rank, side := side.or around.side } rule
  | .weighted weight rule =>
    (Rule.productions around rule).map fun p => { p with weight := heavier weight p.weight }
  | .shaped shape rule => Rule.productions { around with shape := some shape } rule
  | .part role rule => Rule.productions { around with role := some role } rule

def Rule.sequences (around : Step) : List (Rule Nat Nat) → List Production
  | [] => [⟨[], 0⟩]
  | r :: rs =>
    let rests := Rule.sequences around rs
    (Rule.productions around r).flatMap fun p =>
      rests.map fun q => ⟨p.steps ++ q.steps, heavier p.weight q.weight⟩

def Rule.alternatives (around : Step) : List (Rule Nat Nat) → List Production
  | [] => []
  | r :: rs => Rule.productions around r ++ Rule.alternatives around rs

end

def Rule.ways (rule : Rule Nat Nat) : List Production :=
  rule.productions { symbol := .token 0 }

/-! ### Inlining -/

/-- The step where it stands in for `outer`, whose shape and role go before its own. -/
def Step.inPlaceOf (outer step : Step) : Step :=
  { step with shape := outer.shape.or step.shape, role := outer.role.or step.role }

/-- The last step where it stands in for `outer`, whose rank and side count if it has none. -/
def Step.endingFor (outer step : Step) : Step :=
  { step with
    rank := if step.rank = .none then outer.rank else step.rank
    side := step.side.or outer.side }

def Step.replacedBy (outer : Step) (steps : List Step) : List Step :=
  match (steps.map outer.inPlaceOf).reverse with
  | [] => []
  | last :: before => (outer.endingFor last :: before).reverse

def combine (expand : Step → List Production) : List Step → List Production
  | [] => [⟨[], 0⟩]
  | s :: rest =>
    let rests := combine expand rest
    (expand s).flatMap fun p => rests.map fun q => ⟨p.steps ++ q.steps, heavier p.weight q.weight⟩

/-- The ways to write a step out. `inlined` gives the productions of inlined phrases; these may name
one another, no deeper than `depth`. -/
def Step.expansions (inlined : Nat → Option (List Production)) : (depth : Nat) → Step → List Production
  | 0, step => [⟨[step], 0⟩]
  | depth + 1, step =>
    match step.symbol with
    | .token _ => [⟨[step], 0⟩]
    | .phrase p =>
      match inlined p with
      | none => [⟨[step], 0⟩]
      | some ways =>
        ways.flatMap fun way =>
          (combine (Step.expansions inlined depth) (step.replacedBy way.steps)).map fun q =>
            { q with weight := heavier way.weight q.weight }

/-- The productions that a production stands for when inlined phrases are written out. -/
def Production.inlined (inlined : Nat → Option (List Production)) (depth : Nat) (p : Production) :
    List Production :=
  (combine (Step.expansions inlined depth) p.steps).map fun q =>
    { q with weight := heavier p.weight q.weight }

end Cartograph.Grammar
