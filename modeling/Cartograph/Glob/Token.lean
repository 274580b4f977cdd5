/-!
# Glob tokens

A glob is compiled to a list of tokens. `*` stands for any text without a slash, a `**` that fills a
path component stands for any number of directories, `?` and `[…]` for one character that is not a
slash, and every other character for itself.

* `compile` — the tokens of a pattern, or where and why it is malformed;
* `Token.accepts` — which single characters a one-character token takes.
-/

namespace Cartograph.Glob

/-- An item of a character class: one character or an inclusive range of code points. -/
inductive ClassItem where
  | single (c : Char)
  | range (low high : Char)
  deriving DecidableEq, Repr

def ClassItem.holds : ClassItem → Char → Bool
  | single a, c => a == c
  | range low high, c => low.toNat ≤ c.toNat && c.toNat ≤ high.toNat

inductive Token where
  | literal (c : Char)
  | anyChar
  | oneOf (items : List ClassItem)
  | noneOf (items : List ClassItem)
  | sequence
  | recursive
  deriving DecidableEq, Repr

/-- Whether a one-character token takes a character. The two wildcards take none by themselves. -/
def Token.accepts : Token → Char → Bool
  | literal a, c => a == c
  | anyChar, c => c != '/'
  | oneOf items, c => c != '/' && items.any (·.holds c)
  | noneOf items, c => c != '/' && !items.any (·.holds c)
  | sequence, _ => false
  | recursive, _ => false

/-! ### Malformed patterns -/

inductive Fault where
  | tooManyStars
  | recursiveNotComponent
  | invalidRange
  deriving DecidableEq, Repr

structure Malformed where
  position : Nat
  fault : Fault
  deriving DecidableEq, Repr

def Fault.message : Fault → String
  | tooManyStars => "wildcards are either regular `*` or recursive `**`"
  | recursiveNotComponent => "recursive wildcards must form a single path component"
  | invalidRange => "invalid range pattern"

def Malformed.message (m : Malformed) : String :=
  "Pattern syntax error near position " ++ toString m.position ++ ": " ++ m.fault.message

/-! ### Compilation -/

/-- The items of a class, read from left to right: `x-y` is a range, all else single characters. -/
def classItems : List Char → List ClassItem
  | a :: '-' :: b :: rest => .range a b :: classItems rest
  | a :: rest => .single a :: classItems rest
  | [] => []

/-- The content of a class and what follows its bracket. The first `skip` characters belong to the
class whatever they are. -/
def classContent? (skip : Nat) : List Char → Option (List Char × List Char)
  | [] => none
  | c :: rest =>
    match skip with
    | skip + 1 => (classContent? skip rest).map fun p => (c :: p.1, p.2)
    | 0 => if c = ']' then some ([], rest)
           else (classContent? 0 rest).map fun p => (c :: p.1, p.2)

/-- The class that opens in front of `rest`, and what follows it. A bracket right after the opening
belongs to the class. -/
def classToken? (rest : List Char) : Option (Token × List Char) :=
  match rest with
  | '!' :: inner => (classContent? 1 inner).map fun p => (.noneOf (classItems p.1), p.2)
  | inner => (classContent? 1 inner).map fun p => (.oneOf (classItems p.1), p.2)

/-- Appends a recursive wildcard; a second one in a row is dropped once two tokens stand. The tokens
are kept last first. -/
def pushRecursive (done : List Token) : List Token :=
  match done with
  | .recursive :: _ :: _ => done
  | _ => .recursive :: done

/-- Compiles what is left of a pattern. `done` holds the tokens so far, last first, `atStart` says
whether the position opens a path component, and the fuel is never smaller than the text left. -/
def compileFrom : (fuel : Nat) → (position : Nat) → (atStart : Bool) → (done : List Token) →
    List Char → Except Malformed (List Token)
  | _, _, _, done, [] => .ok done.reverse
  | 0, _, _, done, _ :: _ => .ok done.reverse
  | fuel + 1, position, atStart, done, c :: rest =>
    match c with
    | '?' => compileFrom fuel (position + 1) false (.anyChar :: done) rest
    | '*' =>
      let stars := 1 + (rest.takeWhile (· == '*')).length
      let after := rest.dropWhile (· == '*')
      if 2 < stars then .error ⟨position + 2, .tooManyStars⟩
      else if stars = 1 then compileFrom fuel (position + 1) false (.sequence :: done) after
      else if !atStart then .error ⟨position - 1, .recursiveNotComponent⟩
      else
        match after with
        | [] => .ok (pushRecursive done).reverse
        | '/' :: tail => compileFrom fuel (position + 3) true (pushRecursive done) tail
        | _ => .error ⟨position + 2, .recursiveNotComponent⟩
    | '[' =>
      match classToken? rest with
      | some (token, after) =>
        compileFrom fuel (position + (rest.length - after.length) + 1) false (token :: done) after
      | none => .error ⟨position, .invalidRange⟩
    | c => compileFrom fuel (position + 1) (c == '/') (.literal c :: done) rest

def compile (pattern : List Char) : Except Malformed (List Token) :=
  compileFrom pattern.length 0 true [] pattern

end Cartograph.Glob
