/-!
# Positions in a source text

A cursor is what is left of a text together with the line and column of its first character. Lines
and columns start at one, a line feed ends a line, and columns count the bytes of the UTF-8 form.

`Position.after` gives the position behind a piece of text, and `Cursor.advance_eq` ties the two
together: a cursor that has moved over a piece stands behind it.
-/

namespace Cartograph.Source

structure Position where
  line : Nat
  column : Nat
  deriving DecidableEq, Repr

namespace Position

def start : Position := ⟨1, 1⟩

def next (p : Position) (c : Char) : Position :=
  if c = '\n' then ⟨p.line + 1, 1⟩ else ⟨p.line, p.column + c.utf8Size⟩

def after (p : Position) (text : List Char) : Position := text.foldl next p

@[simp] theorem after_nil (p : Position) : p.after [] = p := rfl

@[simp] theorem after_append (p : Position) (s t : List Char) :
    p.after (s ++ t) = (p.after s).after t := List.foldl_append

end Position

structure Cursor where
  rest : List Char
  position : Position
  deriving DecidableEq, Repr

namespace Cursor

def ofText (text : List Char) : Cursor := ⟨text, .start⟩

def advance : Nat → Cursor → Cursor
  | 0, c => c
  | _ + 1, ⟨[], p⟩ => ⟨[], p⟩
  | n + 1, ⟨c :: rest, p⟩ => advance n ⟨rest, p.next c⟩

theorem advance_eq (n : Nat) (c : Cursor) :
    c.advance n = ⟨c.rest.drop n, c.position.after (c.rest.take n)⟩ := by
  obtain ⟨rest, p⟩ := c
  induction n generalizing rest p with
  | zero => simp [advance]
  | succ n ih =>
    cases rest with
    | nil => simp [advance]
    | cons c rest => simp [advance, ih, Position.after]

end Cursor

end Cartograph.Source
