import Cartograph.Grammar.Reading
import Cartograph.TypeScript.Lexeme

/-!
# The next token

Which token comes next depends on the tokens that the grammar allows there (`scan`). Two searches are
made, one after the other.

* `layoutToken?` finds what depends on the text around it: the text of templates and elements, the
  question mark of a conditional, comments that start like operators, and the line ends that stand
  for a semicolon. A line end ends a statement unless the next line can only go on with it.
* `plainToken?` finds the longest of the other tokens. White space before it is skipped. A token of a
  higher level drives out those of a lower level that are longer; at the same length a fixed text
  goes before a class of texts.

A keyword that is not allowed is an identifier.
-/

namespace Cartograph.TypeScript

open Source (Cursor Position)
open Grammar (TokenSet Lookahead)
open Lexeme

/-! ### Line ends -/

def isGap (c : Char) : Bool := c == ' ' || (9 ≤ c.toNat && c.toNat ≤ 13)

/-- A search from the start of a text: whether it has found what it looks for, how many characters it
has passed, and whether there was a comment among them. -/
structure Search where
  found : Bool
  passed : Nat
  comment : Bool
  deriving DecidableEq, Repr

def Search.behind (s : Search) (n : Nat) (comment : Bool) : Search :=
  ⟨s.found, n + s.passed, comment || s.comment⟩

/-- The characters of a block comment behind its opening, and whether it is closed. -/
def blockRun : List Char → Nat × Bool
  | [] => (0, false)
  | '\x00' :: _ => (0, false)
  | '*' :: '/' :: _ => (2, true)
  | _ :: rest =>
    let (n, closed) := blockRun rest
    (n + 1, closed)

/-- Passes white space and comments; the fuel bounds their number. A slash that opens no comment is
passed too, but then the search has failed. -/
def trivia : (fuel : Nat) → List Char → Search
  | 0, _ => ⟨true, 0, false⟩
  | fuel + 1, text =>
    let n := run isGap text
    match text.drop n with
    | '/' :: '/' :: rest =>
      let m := run (fun c => c != '\n' && c != '\x00') rest
      (trivia fuel (rest.drop m)).behind (n + 2 + m) true
    | '/' :: '*' :: rest =>
      let (m, closed) := blockRun rest
      (trivia fuel (rest.drop m)).behind (n + 2 + m) closed
    | '/' :: _ => ⟨false, n + 1, false⟩
    | _ => ⟨true, n, false⟩

def relation? (text : List Char) : Option Nat :=
  ["in", "instanceof"].findSome? fun word =>
    match Text.dropStart? word.toList text with
    | some rest => if rest.head?.any isLetter then none else some word.length
    | none => none

def continuations : List Char := "`,.;*%><=?^|&/:".toList

/-- Whether a line can start a statement. `operators` says whether the line before could go on with
an operator, `signature` whether it could be a signature without a body. -/
def lineStart (operators signature : Bool) : List Char → Search
  | [] => ⟨true, 0, false⟩
  | c :: rest =>
    if continuations.contains c then ⟨false, 0, false⟩
    else if c == '\x7b' then ⟨!signature, 0, false⟩
    else if c == '(' || c == '[' then ⟨!operators, 0, false⟩
    else if c == '+' || c == '-' then ⟨rest.head? == some c, 1, false⟩
    else if c == '!' then ⟨rest.head? != some '=', 1, false⟩
    else
      match relation? (c :: rest) with
      | some n => ⟨false, n, false⟩
      | none => ⟨true, 0, false⟩

/-- Whether a statement can end here: at the end of the text, before a closing brace, or before a
line that can start a statement. A brace with a colon behind it is that of a pattern. -/
def lineEnd (operators signature : Bool) : List Char → Search
  | [] => ⟨true, 0, false⟩
  | c :: rest =>
    if c == '\x00' then ⟨true, 0, false⟩
    else if c == '\x7d' then
      let n := run isGap rest
      ⟨operators || (rest.drop n).head? != some ':', n + 1, false⟩
    else if c == '\n' then
      let gap := trivia (rest.length + 1) rest
      if gap.found then
        (lineStart operators signature (rest.drop gap.passed)).behind (1 + gap.passed) gap.comment
      else gap.behind 1 false
    else if isGap c then (lineEnd operators signature rest).behind 1 false
    else ⟨false, 0, false⟩

/-! ### Tokens that depend on their surroundings -/

structure Found where
  token : Token
  gap : Nat
  size : Nat
  deriving DecidableEq, Repr

def Found.behind (n : Nat) (f : Found) : Found := { f with gap := n + f.gap }

/-- The question mark of a conditional: it is not part of `??` or `?.`, nor the mark of an optional
parameter or property. -/
def question? (text : List Char) : Option Found :=
  let n := run isGap text
  match text.drop n with
  | '?' :: rest =>
    if rest.head? == some '?' || rest.head? == some '.' then none
    else
      match rest.dropWhile isGap with
      | ':' :: _ => none
      | ')' :: _ => none
      | ',' :: _ => none
      | '.' :: more => if more.head?.any isDigit then some ⟨.question, n, 1⟩ else none
      | _ => some ⟨.question, n, 1⟩
  | _ => none

def htmlComment? (text : List Char) : Option Found :=
  let n := run (fun c => isGap c || isSeparator c) text
  let start := text.drop n
  ["<!--", "-->"].findSome? fun opening =>
    (Text.dropStart? opening.toList start).map fun rest =>
      ⟨.htmlComment, n, opening.length + run (fun c => c != '\n' && c != '\x00' && !isSeparator c) rest⟩

/-- The characters between elements, and whether they are text. White space from a line end on is
none. -/
def elementRun : (newline : Bool) → List Char → Nat × Bool
  | _, [] => (0, false)
  | newline, c :: rest =>
    if ['\x00', '<', '>', '\x7b', '\x7d', '&'].contains c then (0, false)
    else
      let blank := c == '\n' || (newline && isGap c)
      let (n, text) := elementRun blank rest
      (n + 1, !blank || text)

/-- The end of a statement, the question mark of a conditional or a comment that starts like an
operator. -/
def endOrQuestion? (allows : Token → Bool) (text : List Char) : Option Found :=
  let operators := allows (.mark "||")
  if allows .lineEnd || allows .signatureEnd then
    let s := lineEnd operators (allows .signatureEnd) text
    let stop := text.drop s.passed
    if s.found then some ⟨.lineEnd, 0, 0⟩
    else if !s.comment && allows .question && stop.head? == some '?' then
      (question? stop).map (Found.behind s.passed)
    else none
  else if allows .question then question? text
  else if allows .htmlComment && !operators && !allows .escape && !allows .regexBody then
    htmlComment? text
  else none

def layoutToken? (allows : Token → Bool) (text : List Char) : Option Found :=
  if allows .templateText then
    if allows .lineEnd then none
    else (templateText? text).map fun n => ⟨.templateText, 0, n⟩
  else if allows .elementText then
    match elementRun false text with
    | (n, true) => some ⟨.elementText, 0, n⟩
    | (n, false) => (endOrQuestion? allows (text.drop n)).map (Found.behind n)
  else endOrQuestion? allows text

/-! ### Other tokens -/

structure Lexicon where
  numbers : Std.HashMap Token Nat
  /-- The tokens that are not keywords. -/
  others : List (Nat × Token)
  /-- The keywords. -/
  words : TokenSet
  identifier : Nat

namespace Lexicon

def isWord : Token → Bool
  | .word _ => true
  | _ => false

def ofTokens (tokens : List Token) : Lexicon :=
  let numbered := tokens.mapIdx fun n t => (n, t)
  { numbers := numbered.foldl (fun map (n, t) => map.insert t n) {}
    others := numbered.filter fun (_, t) => !isWord t
    words := numbered.foldl (fun set (n, t) => if isWord t then set.union (.single n) else set) 0
    identifier := tokens.idxOf .identifier }

def allows (l : Lexicon) (allowed : TokenSet) (t : Token) : Bool :=
  match l.numbers[t]? with
  | some n => allowed.mem n
  | none => false

end Lexicon

structure Candidate where
  number : Nat
  gap : Nat
  size : Nat
  level : Int
  isFixed : Bool
  deriving DecidableEq, Repr

namespace Candidate

def stop (c : Candidate) : Nat := c.gap + c.size

/-- The place from which on it is there: at its first character if its level is high. -/
def onset (c : Candidate) : Nat := if 0 < c.level then c.gap + 1 else c.stop

def drivesOut (c other : Candidate) : Bool := other.level < c.level && c.onset < other.stop

def precedes (c other : Candidate) : Bool :=
  other.stop < c.stop || (other.stop == c.stop &&
    (other.level < c.level || (other.level == c.level && (c.isFixed || !other.isFixed))))

def better : Option Candidate → Candidate → Option Candidate
  | none, c => some c
  | some b, c => if b.precedes c then some b else some c

end Candidate

namespace Lexicon

/-- The allowed tokens behind `gap` characters of white space. Identifiers are found for the sake of
keywords too. -/
def candidates (l : Lexicon) (allowed : TokenSet) (gap : Nat) (text : List Char) : List Candidate :=
  l.others.filterMap fun (n, t) =>
    if allowed.mem n || (n == l.identifier && allowed &&& l.words != 0) then
      if t.isTight && gap != 0 then none
      else (t.length? text).map fun size => ⟨n, gap, size, t.level, t.isFixed⟩
    else none

def plainToken? (l : Lexicon) (allowed : TokenSet) (text : List Char) : Option Candidate :=
  let space := run isSpace text
  let all := l.candidates allowed 0 text ++
    if space = 0 then [] else l.candidates allowed space (text.drop space)
  (all.filter fun c => !all.any (·.drivesOut c)).foldl Candidate.better none

def resolve (l : Lexicon) (allowed : TokenSet) (text : List Char) (c : Candidate) : Lookahead :=
  if c.number = l.identifier then
    match l.numbers[Token.word (String.ofList ((text.drop c.gap).take c.size))]? with
    | some n => ⟨if allowed.mem n then n else c.number, c.gap, c.size, true⟩
    | none => ⟨c.number, c.gap, c.size, false⟩
  else ⟨c.number, c.gap, c.size, false⟩

/-- The characters that a byte-order mark takes at the start of the whole text. -/
def byteOrderMark (c : Cursor) : Nat :=
  if c.position = Position.start ∧ c.rest.head?.any (·.toNat == 0xfeff) then 1 else 0

def scan (l : Lexicon) (allowed : TokenSet) (c : Cursor) : Option Lookahead :=
  let skipped := byteOrderMark c
  match layoutToken? (l.allows allowed) (c.rest.drop skipped) with
  | some f => (l.numbers[f.token]?).map fun n => ⟨n, skipped + f.gap, f.size, false⟩
  | none => (l.plainToken? allowed c.rest).map (l.resolve allowed c.rest)

end Lexicon

end Cartograph.TypeScript
