import Cartograph.Grammar.Stack

/-!
# Reading a text by a grammar

`Reader.read` gives the best derivation of a text. It moves along the text with a stack for each
reading that is still possible. In a state it asks the reader for the next token, telling it which
tokens the state has an action for: what a piece of text is can depend on what is expected there.

A reading takes the reductions that its token allows until it can read the token itself. A keyword
that then does not fit is taken for a plain word. When no reading can go on, the text does not follow
the grammar, and the position is that of the token that did not fit.
-/

namespace Cartograph.Grammar

open Source (Shape Cursor Position)

/-- The next token of a text: its number, the characters before it and of it, and whether it is a
keyword that can be read as a plain word. -/
structure Lookahead where
  token : Nat
  gap : Nat
  size : Nat
  isWord : Bool
  deriving DecidableEq, Repr

structure Reader where
  table : Table
  shapes : Symbol → Shape
  /-- The number of the token of plain words. -/
  word : Nat
  /-- The next token from a cursor on, among those in a set. -/
  scan : TokenSet → Cursor → Option Lookahead
  /-- The white space from a cursor on. -/
  space : Cursor → Nat

structure Readings where
  stack : Stack
  finished : Option Derivation

namespace Readings

/-- Gives a reading up at the given token or, without one, at the next character that is not white
space. -/
def giveUp (l : Reader) (r : Readings) (v : Nat) (look : Option Lookahead) : Readings :=
  let c := (r.stack.top v).cursor
  let skipped := (look.map (·.gap)).getD (l.space c)
  { r with stack := r.stack.setStatus v (.stuck (c.advance skipped).position) }

/-- The derivation of a whole text along a path: the parts of its phrase, with the extra tokens
before and behind it. -/
def wholeText (passed : List Derivation) : Option Derivation :=
  let before := passed.takeWhile Derivation.isExtra
  match passed.dropWhile Derivation.isExtra with
  | .phrase item number gap size _ children :: behind =>
    let parts := before ++ children ++ behind
    some (.phrase item number gap size (parts.foldl (fun w d => w + d.weight) 0) parts)
  | _ => none

/-- Ends a reading that has read the whole text, keeping the best derivation. -/
def accept (l : Reader) (r : Readings) (v : Nat) : Readings :=
  let finished := ((r.stack.popAll v).filterMap wholeText).foldl
    (fun best d => match best with
      | none => some d
      | some b => some (b.better l.table d)) r.finished
  { stack := r.stack.setStatus v .halted, finished }

inductive Progress where
  | moved
  | none
  /-- It has been reduced; the last reduction that gave new readings put them from here on. -/
  | reduced (first : Option Nat)

/-- Follows actions one after another. Reductions make new readings, the token is read by the
reading itself. -/
def follow (l : Reader) (v : Nat) (look : Lookahead) (extra : Derivation) :
    Readings → Progress → List Action → Readings × Progress
  | r, done, [] => (r, done)
  | r, done, action :: rest =>
    match action with
    | .shift =>
      match (r.stack.top v).state.next l.table (.token look.token) with
      | some state =>
        ({ r with stack := r.stack.shift v (.token look.token look.gap look.size false) state }, .moved)
      | none => follow l v look extra r done rest
    | .skip => ({ r with stack := r.stack.shift v extra (r.stack.top v).state }, .moved)
    | .accept => (r.accept l v, .moved)
    | .reduce item =>
      let count := r.stack.heads.size
      let stack := r.stack.reduce l.table v item
      let first := if stack.heads.size > count then some count else
        match done with
        | .reduced first => first
        | _ => Option.none
      follow l v look extra { r with stack } (.reduced first) rest

def act (l : Reader) (v : Nat) : (fuel : Nat) → Lookahead → Readings → Readings
  | 0, look, r => r.giveUp l v look
  | fuel + 1, look, r =>
    let state := (r.stack.top v).state
    let extra := Derivation.token look.token look.gap look.size true
    match follow l v look extra r .none (state.actions l.table look.token) with
    | (r, .moved) => r
    | (r, .reduced none) => { r with stack := r.stack.setStatus v .halted }
    | (r, .reduced (some first)) =>
      let stack := match r.stack.heads[first]? with
        | some h => { r.stack with heads := (r.stack.heads.setIfInBounds v h).eraseIdxIfInBounds first }
        | none => r.stack
      act l v fuel look { r with stack }
    | (r, .none) =>
      if look.isWord && look.token != l.word && !(state.actions l.table l.word).isEmpty then
        act l v fuel { look with token := l.word } r
      else r.giveUp l v look

def advance (l : Reader) (fuel v : Nat) (r : Readings) : Readings :=
  let top := r.stack.top v
  match l.scan (top.state.admitted l.table) top.cursor with
  | none => r.giveUp l v none
  | some look => act l v fuel look r

def sweep (l : Reader) (steps : Nat) :
    (fuel v reached : Nat) → Readings → Readings × Nat
  | 0, _, reached, r => (r, reached)
  | fuel + 1, v, reached, r =>
    if r.stack.heads.size ≤ v then (r, reached)
    else if r.stack.isActive v then
      let r := r.advance l steps v
      let offset := (r.stack.top v).offset
      if offset > reached || (v > 0 && offset == reached) then
        sweep l steps fuel (v + 1) offset r
      else sweep l steps fuel v reached r
    else sweep l steps fuel (v + 1) reached r

def failure (r : Readings) : Position :=
  r.stack.heads.foldl
    (fun p h => match h.status with
      | .stuck q => if p.line < q.line || (p.line == q.line && p.column < q.column) then q else p
      | _ => p) .start

def run (l : Reader) (steps : Nat) : (fuel reached : Nat) → Readings → Except Position Derivation
  | 0, _, r => .error r.failure
  | fuel + 1, reached, r =>
    let (r, reached) := sweep l steps steps 0 reached r
    let r := { r with stack := r.stack.condense l.table }
    if r.stack.heads.any (·.status == .active) then run l steps fuel reached r
    else
      match r.finished with
      | some d => .ok d
      | none => .error r.failure

end Readings

def Reader.read (l : Reader) (text : List Char) : Except Position Derivation :=
  let steps := 100 * (text.length + 10)
  Readings.run l steps steps 0 ⟨.initial l.table (.ofText text), none⟩

def Reader.trees (l : Reader) (text : List Char) : Except Position (List Source.Tree) :=
  match l.read text with
  | .ok d => .ok (Derivation.treesOf l.table l.shapes (match d with
      | .phrase item _ _ _ _ _ => (l.table.item item).labels.reverse
      | .token _ _ _ _ => []) (.ofText text) d.children).1
  | .error p => .error p

end Cartograph.Grammar
