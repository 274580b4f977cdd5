/-!
# JSON values

A JSON value as it stands in a text: the entries of an object keep their order, and a key may occur
twice. Whole numbers that fit in sixty-four bits, with or without a sign, are numbers; every other
number is kept as it is written, because nothing here computes with it. A lenient reader passes over
values that are written correctly and yet stand for nothing, such as half of a pair of surrogates;
these are `flawed`.
-/

namespace Cartograph

inductive Json where
  | null
  | bool (value : Bool)
  | number (value : Int)
  | decimal (lexeme : String)
  | text (value : String)
  | array (items : List Json)
  | object (entries : List (String × Json))
  | flawed
  deriving Repr, Inhabited

namespace Json

def get? (key : String) : Json → Option Json
  | object entries => (entries.reverse.find? (·.1 == key)).map (·.2)
  | _ => none

def text? : Json → Option String
  | text value => some value
  | _ => none

def items? : Json → Option (List Json)
  | array items => some items
  | _ => none

def entries? : Json → Option (List (String × Json))
  | object entries => some entries
  | _ => none

def natural? : Json → Option Nat
  | number (.ofNat n) => some n
  | _ => none

def bool? : Json → Option Bool
  | bool value => some value
  | _ => none

mutual

/-- Whether a value holds nothing flawed, and its containers nest at most as deep as given. -/
def isSound (depth : Nat) : Json → Bool
  | array items => 0 < depth && areSound (depth - 1) items
  | object entries => 0 < depth && entriesAreSound (depth - 1) entries
  | flawed => false
  | _ => true

def areSound (depth : Nat) : List Json → Bool
  | [] => true
  | v :: rest => isSound depth v && areSound depth rest

def entriesAreSound (depth : Nat) : List (String × Json) → Bool
  | [] => true
  | (_, v) :: rest => isSound depth v && entriesAreSound depth rest

end

def ofNat (n : Nat) : Json := number n

def ofOption (f : α → Json) : Option α → Json
  | some a => f a
  | none => null

def ofList (f : α → Json) (l : List α) : Json := array (l.map f)

end Json

end Cartograph
