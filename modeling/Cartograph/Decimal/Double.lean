/-!
# Quotients in double precision

A quotient of naturals, rounded to the nearest number with fifty-three binary digits, is again a
quotient of naturals, so it can be written with any number of places exactly. Both roundings send a
half to the even neighbour.

* `roundDiv` — a quotient rounded to a natural number;
* `Quotient.rounded` — a quotient rounded to fifty-three binary digits;
* `Quotient.places` — the text of a quotient with a number of decimal places.
-/

namespace Cartograph.Decimal

/-- A quotient rounded to the nearest natural number, a half to the even one. -/
def roundDiv (num den : Nat) : Nat :=
  let q := num / den
  let twice := 2 * (num % den)
  if twice < den || (twice == den && q % 2 == 0) then q else q + 1

structure Quotient where
  num : Nat
  den : Nat
  deriving DecidableEq, Repr

namespace Quotient

def precision : Nat := 53

def scale (q : Quotient) : Int → Quotient
  | .ofNat e => ⟨q.num * Nat.pow 2 e, q.den⟩
  | .negSucc e => ⟨q.num, q.den * Nat.pow 2 (e + 1)⟩

/-- The power of two that brings a quotient to the range from `2 ^ 52` up to `2 ^ 53`. -/
def exponent (q : Quotient) : Int :=
  let guess : Int := (precision : Int) - 1 - ((Nat.log2 q.num : Int) - Nat.log2 q.den)
  let s := q.scale guess
  if s.num < Nat.pow 2 (precision - 1) * s.den then guess + 1
  else if Nat.pow 2 precision * s.den ≤ s.num then guess - 1
  else guess

def rounded (q : Quotient) : Quotient :=
  if q.num = 0 then ⟨0, 1⟩
  else
    let e := q.exponent
    let s := q.scale e
    scale ⟨roundDiv s.num s.den, 1⟩ (- e)

def ofNat (n : Nat) : Quotient := rounded ⟨n, 1⟩

def div (a b : Quotient) : Quotient := rounded ⟨a.num * b.den, a.den * b.num⟩

def times (q : Quotient) (n : Nat) : Quotient := rounded ⟨q.num * n, q.den⟩

def places (q : Quotient) (n : Nat) : String :=
  let units := roundDiv (q.num * Nat.pow 10 n) q.den
  if n = 0 then toString units
  else
    let fraction := toString (units % Nat.pow 10 n)
    toString (units / Nat.pow 10 n) ++ "." ++ String.ofList (List.replicate (n - fraction.length) '0') ++ fraction

end Quotient

end Cartograph.Decimal
