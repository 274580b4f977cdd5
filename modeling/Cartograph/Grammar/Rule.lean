import Cartograph.Source.Tree

/-!
# Rules of grammars

A grammar names the phrases of a language and gives each a rule over tokens and other phrases. The
rules here say more than which texts are phrases:

* a **rank** decides between readings that a text leaves open one token ahead. Ranks are levels,
  or names whose order a grammar lists (`Grammar.orders`), and phrases can stand in that order too;
* a **side** decides between readings of the same rank, by grouping to the left or to the right;
* a **weight** decides between two whole readings of the same text;
* a **shape** and a **role** say what a part becomes in the source tree.

Everything is generic in the type `P` of phrases and the type `T` of tokens.
-/

namespace Cartograph.Grammar

open Source (Shape Role)

inductive Rank where
  | none
  | level (n : Int)
  | named (n : Nat)
  deriving DecidableEq, Hashable, Repr

inductive Side where
  | left
  | right
  deriving DecidableEq, Hashable, Repr

inductive Rule (P T : Type) where
  | blank
  | token (t : T)
  | phrase (p : P)
  | seq (rules : List (Rule P T))
  | choice (rules : List (Rule P T))
  /-- One or more times. -/
  | many (rule : Rule P T)
  | ranked (rank : Rank) (side : Option Side) (rule : Rule P T)
  | weighted (weight : Int) (rule : Rule P T)
  | shaped (shape : Shape) (rule : Rule P T)
  | part (role : Role) (rule : Rule P T)

namespace Rule

variable {P T : Type}

mutual

def same [BEq P] [BEq T] : Rule P T → Rule P T → Bool
  | blank, blank => true
  | token t, token u => t == u
  | phrase p, phrase q => p == q
  | seq rules, seq others => sameAll rules others
  | choice rules, choice others => sameAll rules others
  | many rule, many other => same rule other
  | ranked rank side rule, ranked rank' side' other => rank == rank' && side == side' && same rule other
  | weighted weight rule, weighted weight' other => weight == weight' && same rule other
  | shaped shape rule, shaped shape' other => shape == shape' && same rule other
  | part role rule, part role' other => role == role' && same rule other
  | _, _ => false

def sameAll [BEq P] [BEq T] : List (Rule P T) → List (Rule P T) → Bool
  | [], [] => true
  | r :: rs, s :: ss => same r s && sameAll rs ss
  | _, _ => false

end

instance [BEq P] [BEq T] : BEq (Rule P T) := ⟨same⟩

def opt (r : Rule P T) : Rule P T := choice [r, blank]

def any (r : Rule P T) : Rule P T := opt (many r)

def separated (separator item : Rule P T) : Rule P T := seq [item, any (seq [separator, item])]

mutual

def map {P' T' : Type} (f : P → P') (g : T → T') : Rule P T → Rule P' T'
  | blank => blank
  | token t => token (g t)
  | phrase p => phrase (f p)
  | seq rules => seq (mapAll f g rules)
  | choice rules => choice (mapAll f g rules)
  | many rule => many (map f g rule)
  | ranked rank side rule => ranked rank side (map f g rule)
  | weighted weight rule => weighted weight (map f g rule)
  | shaped shape rule => shaped shape (map f g rule)
  | part role rule => part role (map f g rule)

def mapAll {P' T' : Type} (f : P → P') (g : T → T') : List (Rule P T) → List (Rule P' T')
  | [] => []
  | r :: rs => map f g r :: mapAll f g rs

end

mutual

def tokens : Rule P T → List T
  | blank => []
  | token t => [t]
  | phrase _ => []
  | seq rules => tokensOf rules
  | choice rules => tokensOf rules
  | many rule => tokens rule
  | ranked _ _ rule => tokens rule
  | weighted _ rule => tokens rule
  | shaped _ rule => tokens rule
  | part _ rule => tokens rule

def tokensOf : List (Rule P T) → List T
  | [] => []
  | r :: rs => tokens r ++ tokensOf rs

end

end Rule

/-- An entry of an order of ranks: a named rank, or a phrase of whatever rank. -/
inductive Standing (P : Type) where
  | rank (n : Nat)
  | phrase (p : P)
  deriving DecidableEq, Repr

end Cartograph.Grammar

namespace Cartograph

structure Grammar (P T : Type) where
  /-- The phrase that a whole text is. -/
  start : P
  /-- The phrases with their rules. Of two readings of the same weight the one wins whose phrases
  come first. -/
  rules : List (P × Grammar.Rule P T)
  /-- The phrases that are written out wherever a rule names them. -/
  inlined : List P
  /-- The token behind the last character of a text. -/
  finish : T
  /-- The token of plain words, which a keyword falls back to where it does not fit. -/
  word : T
  /-- The tokens that may stand before any other, such as comments. -/
  extras : List T
  /-- The orders of ranks, strongest first. The first order that tells two ranks apart counts. -/
  orders : List (List (Grammar.Standing P))

end Cartograph
