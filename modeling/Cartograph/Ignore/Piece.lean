import Cartograph.Digest.Fingerprint

/-!
# Patterns of ignore files

A rule of an ignore file matches paths by a pattern. `?` and `*` stay within a segment, `**` spans
segments where it stands alone between slashes, `[…]` is one of several bytes, a slash too, and `{…}`
one of several patterns. Texts are bytes here: `?` stands for one byte.

Matching keeps the set of texts that can be left over: a pattern matches when nothing can be.
-/

namespace Cartograph.Ignore

inductive Piece where
  | literal (c : Char)
  /-- One byte of a segment. -/
  | one
  /-- Any part of a segment. -/
  | many
  /-- Any directories in front, or none: a leading `**/`. -/
  | leading
  /-- A slash and all that follows: a trailing `/**`. -/
  | trailing
  /-- A slash, with any directories behind it: an inner `/**/`. -/
  | between
  /-- A byte in one of the ranges, or in none of them. -/
  | oneOf (negated : Bool) (ranges : List (UInt8 × UInt8))
  /-- One of several patterns; without any it stands for nothing. -/
  | choice (alternatives : List (List Piece))

def slash : UInt8 := 47

def withinSegment : List UInt8 → List (List UInt8)
  | [] => [[]]
  | b :: text => if b = slash then [b :: text] else (b :: text) :: withinSegment text

def afterSlashes : List UInt8 → List (List UInt8)
  | [] => []
  | b :: text => if b = slash then text :: afterSlashes text else afterSlashes text

def endings : List UInt8 → List (List UInt8)
  | [] => [[]]
  | b :: text => (b :: text) :: endings text

def afterBytes : List UInt8 → List UInt8 → List (List UInt8)
  | [], text => [text]
  | _ :: _, [] => []
  | a :: start, b :: text => if a = b then afterBytes start text else []

def inRanges (ranges : List (UInt8 × UInt8)) (b : UInt8) : Bool :=
  ranges.any fun r => decide (r.1 ≤ b ∧ b ≤ r.2)

mutual

def Piece.rests : Piece → List UInt8 → List (List UInt8)
  | .literal c, text => afterBytes (Digest.utf8 (String.singleton c)) text
  | .one, text =>
    match text with
    | [] => []
    | b :: rest => if b = slash then [] else [rest]
  | .many, text => withinSegment text
  | .leading, text => text :: afterSlashes text
  | .trailing, text =>
    match text with
    | [] => []
    | b :: rest => if b = slash then endings rest else []
  | .between, text =>
    match text with
    | [] => []
    | b :: rest => if b = slash then rest :: afterSlashes rest else []
  | .oneOf negated ranges, text =>
    match text with
    | [] => []
    | b :: rest => if inRanges ranges b ≠ negated then [rest] else []
  | .choice [], text => [text]
  | .choice (first :: others), text => restsOfAny (first :: others) text

def restsOfAll : List Piece → List (List UInt8) → List (List UInt8)
  | [], texts => texts
  | piece :: pieces, texts => restsOfAll pieces (texts.flatMap piece.rests).eraseDups

def restsOfAny : List (List Piece) → List UInt8 → List (List UInt8)
  | [], _ => []
  | pattern :: others, text => restsOfAll pattern [text] ++ restsOfAny others text

end

def isEverything : List Piece → Bool
  | [.leading] => true
  | _ => false

def matchesPath (pattern : List Piece) (path : String) : Bool :=
  isEverything pattern || (restsOfAll pattern [Digest.utf8 path]).contains []

end Cartograph.Ignore
