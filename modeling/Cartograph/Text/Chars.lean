/-!
# Character lists

Text is analysed as a list of characters: matching, splitting and trimming are structural
recursions, and a proof about them is an induction over the list. This module holds the few
operations that more than one format needs.

* `dropStart?`, `startsWith`, `endsWith` — a text at either end of another;
* `dropUpTo?` — what follows the first occurrence of a text;
* `beforeLast?`, `afterLast?` — the two sides of the last occurrence of a character;
* `isBlank` — the white space of Unicode, and `trim` with its two halves.
-/

namespace Cartograph.Text

/-! ### Ends -/

def dropStart? : (start text : List Char) → Option (List Char)
  | [], text => some text
  | _ :: _, [] => none
  | a :: start, b :: text => if a = b then dropStart? start text else none

def dropEnd? (ending text : List Char) : Option (List Char) :=
  (dropStart? ending.reverse text.reverse).map List.reverse

def startsWith (start text : List Char) : Bool := (dropStart? start text).isSome

def endsWith (ending text : List Char) : Bool := (dropEnd? ending text).isSome

theorem eq_append_of_dropStart? {start text rest : List Char}
    (h : dropStart? start text = some rest) : text = start ++ rest := by
  fun_induction dropStart? start text with
  | case1 => simp_all
  | case2 => simp at h
  | case3 => simp_all
  | case4 => simp at h

@[simp] theorem dropStart?_append (start rest : List Char) :
    dropStart? start (start ++ rest) = some rest := by
  induction start with
  | nil => cases rest <;> rfl
  | cons c start ih => simpa [dropStart?] using ih

/-! ### Occurrences -/

def dropUpTo? (needle : List Char) : List Char → Option (List Char)
  | [] => dropStart? needle []
  | c :: text =>
    match dropStart? needle (c :: text) with
    | some rest => some rest
    | none => dropUpTo? needle text

def contains (needle text : List Char) : Bool := (dropUpTo? needle text).isSome

def afterLast? (c : Char) : List Char → Option (List Char)
  | [] => none
  | d :: text =>
    match afterLast? c text with
    | some rest => some rest
    | none => if d = c then some text else none

def beforeLast? (c : Char) : List Char → Option (List Char)
  | [] => none
  | d :: text =>
    match beforeLast? c text with
    | some front => some (d :: front)
    | none => if d = c then some [] else none

def cutAt? (c : Char) : List Char → Option (List Char × List Char)
  | [] => none
  | d :: text => if d = c then some ([], text) else (cutAt? c text).map fun p => (d :: p.1, p.2)

/-! ### Blanks -/

def isBlank (c : Char) : Bool :=
  let n := c.toNat
  (0x09 ≤ n && n ≤ 0x0d) || n == 0x20 || n == 0x85 || n == 0xa0 || n == 0x1680 ||
    (0x2000 ≤ n && n ≤ 0x200a) || n == 0x2028 || n == 0x2029 || n == 0x202f || n == 0x205f ||
    n == 0x3000

def dropEndWhile (p : Char → Bool) (text : List Char) : List Char :=
  (text.reverse.dropWhile p).reverse

def trimBoth (p : Char → Bool) (text : List Char) : List Char :=
  dropEndWhile p (text.dropWhile p)

def trimStart (text : List Char) : List Char := text.dropWhile isBlank

def trim (text : List Char) : List Char := trimBoth isBlank text

/-! ### Lines -/

/-- The lines of a text: they end at a line feed, a carriage return before it belongs to the end,
and an end at the very end of the text opens no further line. -/
def lines (text : List Char) : List (List Char) :=
  let parts := text.splitOn '\n'
  let parts := if parts.getLast? = some [] then parts.dropLast else parts
  parts.map fun line => (dropEnd? ['\r'] line).getD line

end Cartograph.Text
