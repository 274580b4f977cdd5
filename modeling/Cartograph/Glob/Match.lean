import Cartograph.Glob.Token

/-!
# Matching a glob

`run` matches tokens against a text from left to right and backtracks at the two wildcards. It gives
up on the whole match as soon as a one-character token meets the end of the text: no other choice of
an earlier wildcard leaves more text over, so nothing is lost.

`Splits` says what a match means without an algorithm: the text falls into pieces, one for each token.
-/

namespace Cartograph.Glob

/-- How an attempt to match ends: a match, a mismatch after which earlier wildcards may still try a
longer piece, or the end of the text, after which none needs to. -/
inductive Outcome where
  | matched
  | mismatch
  | exhausted
  deriving DecidableEq, Repr

def runSequence (next : List Char → Outcome) : List Char → Outcome
  | [] => next []
  | c :: text =>
    match next (c :: text) with
    | .mismatch => if c = '/' then .mismatch else runSequence next text
    | outcome => outcome

/-- Goes on with a `**` that has taken part of a component: the next place to stop is after a slash
or at the end of the text. -/
def runRecursive (next : List Char → Outcome) : List Char → Outcome
  | [] => next []
  | c :: text =>
    if c = '/' then
      match next text with
      | .mismatch => runRecursive next text
      | outcome => outcome
    else runRecursive next text

def run : List Token → List Char → Outcome
  | [], [] => .matched
  | [], _ :: _ => .mismatch
  | .sequence :: tokens, text => runSequence (run tokens) text
  | .recursive :: tokens, text =>
    match run tokens text with
    | .mismatch => runRecursive (run tokens) text
    | outcome => outcome
  | _ :: _, [] => .exhausted
  | token :: tokens, c :: text => if token.accepts c then run tokens text else .mismatch

/-- A piece of text that a token stands for; `last` says that no token follows. -/
inductive Piece : Token → (last : Bool) → List Char → Prop where
  | one {token : Token} {c : Char} {last : Bool} (h : token.accepts c = true) : Piece token last [c]
  | sequence {text : List Char} {last : Bool} (h : '/' ∉ text) : Piece .sequence last text
  | none {last : Bool} : Piece .recursive last []
  | directories {text : List Char} {last : Bool} : Piece .recursive last (text ++ ['/'])
  | all {text : List Char} : Piece .recursive true text

inductive Splits : List Token → List Char → Prop where
  | nil : Splits [] []
  | cons {token : Token} {tokens : List Token} {piece text : List Char}
      (h : Piece token tokens.isEmpty piece) (rest : Splits tokens text) :
      Splits (token :: tokens) (piece ++ text)

end Cartograph.Glob
