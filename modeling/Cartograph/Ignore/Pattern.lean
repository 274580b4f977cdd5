import Cartograph.Ignore.Piece

/-!
# Reading the patterns of ignore files

A pattern is read character by character. Between two characters the reader is in a `Mode`: after a star
it waits whether a second one follows, and after two whether they stand alone between slashes. Braces may
nest; each open brace has a `Frame` with the alternatives read so far. A bracket that is not closed
stands for itself, and so do those behind it. A pattern that leaves a brace or an escape open, or closes a
brace that is not open, is no pattern.
-/

namespace Cartograph.Ignore

structure ClassState where
  negated : Bool := false
  ranges : List (Char × Char) := []
  /-- Whether nothing of the class was read but its negation. -/
  first : Bool := true
  /-- Whether a range waits for its end. -/
  inRange : Bool := false

inductive Mode where
  | plain
  /-- One star, behind the given character. -/
  | star (before : Option Char)
  /-- Two stars, behind the given character. -/
  | stars (before : Option Char)
  | escape
  /-- A bracket whose negation may still follow. -/
  | bracket
  | inside (state : ClassState)

/-- Alternatives that are being read: the finished ones and the pieces of the current one, both last
first. -/
structure Frame where
  finished : List (List Piece) := []
  pieces : List Piece := []

structure PatternState where
  frame : Frame := {}
  /-- The frames around the current one, innermost first. -/
  outer : List Frame := []
  mode : Mode := .plain
  /-- The character read last. -/
  last : Option Char := none
  /-- The characters read from the last bracket on, last first. -/
  sinceBracket : List Char := []
  /-- Whether brackets stand for themselves. -/
  plainBrackets : Bool := false

namespace PatternState

def push (s : PatternState) (piece : Piece) : PatternState :=
  { s with frame := { s.frame with pieces := piece :: s.frame.pieces }, mode := .plain }

def replaceLast (s : PatternState) (piece : Piece) : PatternState :=
  { s with frame := { s.frame with pieces := piece :: s.frame.pieces.tail }, mode := .plain }

def isVoid (pattern : List Piece) : Bool :=
  pattern.all fun
    | .choice [] => true
    | _ => false

def closeBrace (s : PatternState) : Option PatternState :=
  match s.outer with
  | [] => none
  | around :: outer =>
    let alternatives := (s.frame.pieces :: s.frame.finished).reverse.map List.reverse
    some (push { s with frame := around, outer := outer }
      (.choice (alternatives.filter fun pattern => !isVoid pattern)))

/-- Ends two stars in front of what comes next, and says whether a slash there belongs to them. -/
def closeStars (s : PatternState) (before next : Option Char) : PatternState × Bool :=
  let apart := (s.push .many).push .many
  let atSlash := next == some '/'
  if s.frame.pieces.isEmpty then
    if next.isNone || atSlash then (s.push .leading, atSlash) else (apart, false)
  else if before != some '/' && (s.outer.isEmpty || (before != some ',' && before != some '\x7b')) then
    (apart, false)
  else
    let ends := next.isNone || (!s.outer.isEmpty && (next == some ',' || next == some '\x7d'))
    if !ends && !atSlash then (apart, false)
    else
      match s.frame.pieces.head? with
      | some .leading => (s.replaceLast .leading, atSlash)
      | some .trailing => (s.replaceLast .trailing, atSlash)
      | _ => (s.replaceLast (if ends then .trailing else .between), atSlash)

def readPlain (s : PatternState) (c : Char) : Option PatternState :=
  match c with
  | '?' => some (s.push .one)
  | '*' => some { s with mode := .star s.last }
  | '[' =>
    if s.plainBrackets then some (s.push (.literal '['))
    else some { s with mode := .bracket, sinceBracket := [] }
  | '\x7b' => some { s with frame := {}, outer := s.frame :: s.outer, mode := .plain }
  | '\x7d' => s.closeBrace
  | ',' =>
    if s.outer.isEmpty then some (s.push (.literal ','))
    else some { s with frame := ⟨s.frame.pieces :: s.frame.finished, []⟩, mode := .plain }
  | '\\' => some { s with mode := .escape }
  | c => some (s.push (.literal c))

/-- The bytes of a range of characters: the last byte of its start up to the first byte of its end, and
the other bytes of both. -/
def byteRanges (range : Char × Char) : List (UInt8 × UInt8) :=
  let single := fun b => (b, b)
  let low := Digest.utf8 (String.singleton range.1)
  let high := Digest.utf8 (String.singleton range.2)
  if range.1 = range.2 then low.map single
  else
    low.dropLast.map single ++ [(low.getLastD 0, high.headD 0)] ++ high.tail.map single

def closeClass (s : PatternState) (k : ClassState) : PatternState :=
  let ranges := if k.inRange then ('-', '-') :: k.ranges else k.ranges
  s.push (.oneOf k.negated (ranges.reverse.flatMap byteRanges))

def closeRange (k : ClassState) (c : Char) : Option ClassState :=
  match k.ranges with
  | (low, _) :: ranges =>
    if low ≤ c then some { k with ranges := (low, c) :: ranges, inRange := false, first := false }
    else none
  | [] => none

def readInside (s : PatternState) (k : ClassState) (c : Char) : Option PatternState :=
  let single : ClassState := { k with ranges := (c, c) :: k.ranges, inRange := false, first := false }
  if c = ']' ∧ k.first = false then some (s.closeClass k)
  else if c = '-' ∧ k.first = false ∧ k.inRange = false then
    some { s with mode := .inside { k with inRange := true } }
  else if k.inRange ∧ c ≠ ']' then (closeRange k c).map fun k => { s with mode := .inside k }
  else some { s with mode := .inside single }

def step (s : PatternState) (c : Char) : Option PatternState :=
  let read : Option PatternState :=
    match s.mode with
    | .plain => s.readPlain c
    | .star before =>
      if c = '*' then some { s with mode := .stars before } else (s.push .many).readPlain c
    | .stars before =>
      match s.closeStars before (some c) with
      | (s, true) => some s
      | (s, false) => s.readPlain c
    | .escape => some (s.push (.literal c))
    | .bracket =>
      if c = '!' ∨ c = '^' then some { s with mode := .inside { negated := true } }
      else s.readInside {} c
    | .inside k => s.readInside k c
  read.map fun s => { s with last := some c, sinceBracket := c :: s.sinceBracket }

def reopen (s : PatternState) : Option PatternState :=
  s.sinceBracket.reverse.foldlM step { s with mode := .plain, plainBrackets := true }

def close (s : PatternState) : Option (List Piece) :=
  let closed : Option PatternState :=
    match s.mode with
    | .plain => some s
    | .star _ => some (s.push .many)
    | .stars before => some (s.closeStars before none).1
    | _ => none
  closed.bind fun s => if s.outer.isEmpty then some s.frame.pieces.reverse else none

def finish (s : PatternState) : Option (List Piece) :=
  match s.mode with
  | .bracket => s.reopen.bind close
  | .inside _ => s.reopen.bind close
  | _ => s.close

end PatternState

def pattern? (text : List Char) : Option (List Piece) :=
  (text.foldlM PatternState.step {}).bind PatternState.finish

end Cartograph.Ignore
