import Mathlib.Tactic.Common
import Cartograph.Json.Read
import Cartograph.Json.Write
import Cartograph.Proofs.Text.Bytes

/-!
# Reading written texts and numbers

A text is read back from behind its opening quote, whatever follows the closing one (`readText_escape`). The
digits of a natural number are read as that number when it fits in sixty-four bits, and never as another one:
`echo` says what they are read as. What follows a number has to end it. Inside a value that is a comma or a
closing bracket, and at the end nothing: `Ends`.
-/

namespace Cartograph.Json

open Decimal List

variable {c : Char}

/-! ### Texts -/

theorem fourHex?_escape : ∀ n, n < 32 →
    fourHex? '0' '0' (hexDigit (n / 16)) (hexDigit n) = some n := by
  decide

theorem escapeBody_control (hc : c.toNat < 0x20) (rest : List Char) :
    escapeBody ('u' :: '0' :: '0' :: hexDigit (c.toNat / 16) :: hexDigit c.toNat :: rest) = .ok (c, rest) := by
  have hlong : ¬ byteCount ('0' :: '0' :: hexDigit (c.toNat / 16) :: hexDigit c.toNat :: rest) < 4 := by
    rw [byteCount, Text.utf8ByteSize_eq, String.toList_ofList]
    have := Text.length_le_byteLength ('0' :: '0' :: hexDigit (c.toNat / 16) :: hexDigit c.toNat :: rest)
    simp only [length_cons] at this
    omega
  have hdigits : hexEscape ('0' :: '0' :: hexDigit (c.toNat / 16) :: hexDigit c.toNat :: rest) =
      .ok (c.toNat, rest) := by
    rw [hexEscape, if_neg hlong]
    simp only [fourHex?_escape c.toNat hc]
  change unicodeEscape _ = _
  rw [unicodeEscape, hdigits]
  simp only
  rw [if_neg (by omega), if_neg (by omega), Char.ofNat_toNat]

/-- A character is read back from the way it is written. -/
theorem quoted_escape (n : Nat) (done : List Char) (c : Char) (rest : List Char) :
    quoted (n + 1) done (escape c ++ rest) = quoted n (c :: done) rest := by
  unfold escape
  split
  next h => rw [h]; rfl
  split
  next h => rw [h]; rfl
  split
  next h => rw [h]; rfl
  split
  next h => rw [h]; rfl
  split
  next h => rw [h]; rfl
  split
  next h => rw [h]; rfl
  split
  next h => rw [h]; rfl
  split
  next hc =>
    simp only [cons_append, nil_append]
    rw [quoted, escapeBody_control hc]
  next hq hb _ _ _ _ _ hc =>
    rw [singleton_append, quoted]
    · rw [if_neg hc]
    · exact hq
    · exact hb

theorem quoted_flatMap_escape (rest : List Char) : ∀ (cs done : List Char) (n : Nat), cs.length < n →
    quoted n done (cs.flatMap escape ++ '"' :: rest) =
      .ok (String.ofList (done.reverse ++ cs), rest) := by
  intro cs
  induction cs with
  | nil =>
    intro done n hn
    obtain ⟨n, rfl⟩ : ∃ m, n = m + 1 := ⟨n - 1, by simp at hn; omega⟩
    simp [quoted]
  | cons c cs ih =>
    intro done n hn
    obtain ⟨n, rfl⟩ : ∃ m, n = m + 1 := ⟨n - 1, by simp at hn; omega⟩
    rw [flatMap_cons, append_assoc, quoted_escape, ih (c :: done) n (by simpa using hn)]
    simp

theorem length_escape_pos (c : Char) : 0 < (escape c).length := by
  unfold escape
  repeat' split
  all_goals simp

theorem length_le_flatMap_escape (cs : List Char) : cs.length ≤ (cs.flatMap escape).length := by
  induction cs with
  | nil => exact Nat.le_refl 0
  | cons c cs ih =>
    have := length_escape_pos c
    rw [flatMap_cons, length_append, length_cons]
    omega

/-- **A text is read back** from behind its opening quote. -/
theorem readText_escape (s : String) (rest : List Char) :
    readText (s.toList.flatMap escape ++ '"' :: rest) = .ok (s, rest) := by
  have := length_le_flatMap_escape s.toList
  rw [readText, quoted_flatMap_escape rest s.toList [] _ (by rw [length_append, length_cons]; omega)]
  simp

/-! ### Numbers -/

theorem integer_ofNat (n : Nat) : integer (n : Int) = Nat.toDigits 10 n := by
  rw [integer, Int.toString_eq_repr, Int.repr_eq_if]
  simp

theorem isDigit_eq (c : Char) : isDigit c = c.isDigit := by
  rw [Char.isDigit, ← Bool.decide_and]
  rfl

variable {n m : Nat} {rest : List Char}

theorem isDigit_of_mem_toDigits {c : Char} (hc : c ∈ Nat.toDigits 10 n) : isDigit c = true := by
  rw [isDigit_eq]
  exact Nat.isDigit_of_mem_toDigits (by decide) (by decide) hc

theorem digitsValue_toDigits (n : Nat) : digitsValue (Nat.toDigits 10 n) = n := by
  exact Nat.ofDigitChars_ten_toDigits (n := n)

/-- Only zero is written with a zero in front. -/
theorem head?_toDigits (hn : 0 < n) : (Nat.toDigits 10 n).head? ≠ some '0' := by
  induction n using Nat.base_induction 10 (by decide) with
  | single m hm =>
    rw [Nat.toDigits_of_lt_base hm]
    have hall : ∀ m, m < 10 → 0 < m → m.digitChar ≠ '0' := by decide
    simpa using hall m hm hn
  | digit m k hk hm ih =>
    rw [← Nat.toDigits_append_toDigits (by decide) hm hk]
    have hhead := ih hm
    cases hdigits : Nat.toDigits 10 m with
    | nil => exact absurd hdigits Nat.toDigits_ne_nil
    | cons c cs =>
      rw [hdigits] at hhead
      exact hhead

/-- What may follow a number inside a value, or nothing. -/
def Ends (rest : List Char) : Prop := ∀ c ∈ rest.head?, isGap c = true ∨ c = ',' ∨ c = ']' ∨ c = '\x7d'

theorem le_foldl_digits (cs : List Char) (v : Nat) : v ≤ cs.foldl (fun n c => 10 * n + (c.toNat - '0'.toNat)) v := by
  induction cs generalizing v with
  | nil => exact Nat.le_refl v
  | cons c cs ih =>
    rw [foldl_cons]
    have := ih (10 * v + (c.toNat - '0'.toNat))
    omega

/-- Digits of a number that fits are all taken in. -/
theorem takeDigits_eq (cs : List Char) (v : Nat)
    (h : cs.foldl (fun n c => 10 * n + (c.toNat - '0'.toNat)) v < 18446744073709551616) :
    takeDigits v cs = (cs.foldl (fun n c => 10 * n + (c.toNat - '0'.toNat)) v, []) := by
  induction cs generalizing v with
  | nil => rfl
  | cons c cs ih =>
    rw [foldl_cons] at h ⊢
    have hnext : digitsValue [c] + 10 * v = 10 * v + (c.toNat - '0'.toNat) := by
      simp only [digitsValue, foldl_cons, foldl_nil]
      omega
    have hle := le_foldl_digits cs (10 * v + (c.toNat - '0'.toNat))
    rw [takeDigits]
    simp only [hnext]
    rw [if_pos (by omega)]
    exact ih _ h

section Overflow

open Decimal (roundDiv)

theorem roundDiv_le (num den : Nat) : roundDiv num den ≤ num / den + 1 := by
  unfold roundDiv
  simp only
  split <;> omega

/-- A number that fits is not scaled down much before it is rounded. -/
theorem le_exponent (hn : n ≠ 0) (hfits : n < 2 ^ 64) : -12 ≤ (⟨n, 1⟩ : Quotient).exponent := by
  have hlog : Nat.log2 n < 64 := (Nat.log2_lt hn).2 hfits
  have hone : Nat.log2 1 = 0 := by decide
  unfold Quotient.exponent Quotient.precision
  simp only [hone]
  split
  · omega
  · split <;> omega

/-- Rounding a number that fits does not make it much larger. -/
theorem ofNat_bounded (hfits : n < 2 ^ 64) : (Quotient.ofNat n).num < 2 ^ 66 * (Quotient.ofNat n).den := by
  unfold Quotient.ofNat Quotient.rounded
  split
  next => decide
  next hn =>
    have he := le_exponent hn hfits
    generalize (⟨n, 1⟩ : Quotient).exponent = e at he
    match e with
    | .ofNat 0 =>
      have hround := roundDiv_le (n * 2 ^ 0) 1
      change roundDiv (n * 2 ^ 0) 1 * 2 ^ 0 < 2 ^ 66 * 1
      omega
    | .ofNat (j + 1) =>
      have hround := roundDiv_le (n * 2 ^ (j + 1)) 1
      have hpow : 1 ≤ 2 ^ (j + 1) := Nat.one_le_two_pow
      change roundDiv (n * 2 ^ (j + 1)) 1 < 2 ^ 66 * (1 * 2 ^ (j + 1))
      have hle : (n + 1) * 2 ^ (j + 1) ≤ 2 ^ 64 * 2 ^ (j + 1) := Nat.mul_le_mul_right _ hfits
      rw [Nat.add_mul] at hle
      omega
    | .negSucc j =>
      have hround := roundDiv_le n (1 * 2 ^ (j + 1))
      have hpow : 2 ^ (j + 1) ≤ 2 ^ 12 := Nat.pow_le_pow_right (by decide) (by omega)
      calc roundDiv n (1 * 2 ^ (j + 1)) * 2 ^ (j + 1)
          ≤ (n / 2 ^ (j + 1) + 1) * 2 ^ (j + 1) := by
            rw [Nat.one_mul] at hround ⊢
            exact Nat.mul_le_mul_right _ hround
        _ ≤ n + 2 ^ (j + 1) := by
            rw [Nat.add_mul, Nat.one_mul]
            exact Nat.add_le_add_right (Nat.div_mul_le_self n _) _
        _ < 2 ^ 66 * 1 := by omega

theorem not_overflows (hfits : n < 2 ^ 64) : (Significand.mk n 0).overflows = false := by
  have hbound := ofNat_bounded hfits
  have hone : Quotient.ofNat (Nat.pow 10 0) = ⟨2 ^ 52, 2 ^ 52⟩ := by decide
  have hlimit : 2 ^ 66 ≤ doubleLimit := by decide +kernel
  have hnot : ¬ doubleLimit * ((Quotient.ofNat n).den * 2 ^ 52) ≤
      (Quotient.ofNat n).num * 2 ^ 52 := by
    rw [← Nat.mul_assoc, Nat.not_le]
    refine Nat.mul_lt_mul_of_pos_right (Nat.lt_of_lt_of_le hbound ?_) (by decide)
    exact Nat.mul_le_mul_right _ hlimit
  change (n != 0 && (decide (308 < 0) || _)) = false
  rw [hone]
  simp only [hnot]
  simp

end Overflow

theorem isGap_of_isDigit (hc : isDigit c = true) : isGap c = false := by
  by_contra hgap
  simp only [isGap, Bool.not_eq_false, Bool.or_eq_true, beq_iff_eq] at hgap
  obtain ((rfl | rfl) | rfl) | rfl := hgap <;> exact absurd hc (by decide)

theorem Ends.not_isDigit (h : Ends rest) : ∀ c ∈ rest.head?, isDigit c = false := by
  intro c hc
  obtain hgap | rfl | rfl | rfl := h c hc
  · by_contra hdigit
    rw [isGap_of_isDigit (Bool.not_eq_false _ ▸ hdigit)] at hgap
    cases hgap
  all_goals decide

/-- Whether a number is too large for a double-precision number. -/
def isTooLarge (n : Nat) : Bool := (Significand.ofDigits (Nat.toDigits 10 n) []).overflows

theorem isTooLarge_of_lt (hfits : n < 2 ^ 64) : isTooLarge n = false := by
  have hvalue : (Nat.toDigits 10 n).foldl (fun n c => 10 * n + (c.toNat - '0'.toNat)) 0 = n := digitsValue_toDigits n
  have htake := takeDigits_eq (Nat.toDigits 10 n) 0 (by rw [hvalue]; exact hfits)
  rw [isTooLarge, Significand.ofDigits, htake, hvalue]
  exact not_overflows hfits

/-- Behind the digits of a number nothing more is taken. -/
theorem fraction_toDigits (n : Nat) (hrest : Ends rest) :
    fraction (Nat.toDigits 10 n) rest =
      if isTooLarge n then fail .numberOutOfRange rest else .ok (false, rest) := by
  have hpart : exponentPart (.ofDigits (Nat.toDigits 10 n) []) rest =
      if isTooLarge n then fail .numberOutOfRange rest else .ok ((), rest) := by
    rw [exponentPart, isTooLarge]
    all_goals
      rintro tail rfl
      exact absurd (hrest _ rfl) (by decide)
  rw [fraction, hpart]
  · split
    · rfl
    · simp [Except.map]
  · rintro tail rfl
    exact absurd (hrest '.' rfl) (by decide)

/-- **A number is read from its digits**, unless it is too large. -/
theorem readNumber_toDigits (n : Nat) (hrest : Ends rest) :
    readNumber false (Nat.toDigits 10 n ++ rest) =
      if isTooLarge n then fail .numberOutOfRange rest
      else .ok (wholeNumber false (Nat.toDigits 10 n), rest) := by
  have htake : (Nat.toDigits 10 n ++ rest).takeWhile isDigit = Nat.toDigits 10 n := by
    rw [takeWhile_append_of_pos fun c hc => isDigit_of_mem_toDigits hc]
    cases rest with
    | nil => simp
    | cons c rest => simp [hrest.not_isDigit c rfl]
  have hfraction := fraction_toDigits n hrest
  cases hdigits : Nat.toDigits 10 n with
  | nil => exact absurd hdigits Nat.toDigits_ne_nil
  | cons c ds =>
    have hc : isDigit c = true := isDigit_of_mem_toDigits (n := n) (by rw [hdigits]; exact mem_cons_self)
    rw [hdigits] at htake hfraction
    -- a zero in front stands alone
    have hzero : c = '0' → ds = [] := by
      rintro rfl
      have hn : n = 0 := by
        by_contra hn
        exact head?_toDigits (Nat.pos_of_ne_zero hn) (by rw [hdigits]; rfl)
      rw [hn] at hdigits
      exact (cons.inj hdigits).2.symm
    have hlexeme : (if c = '0' then [c] else (c :: ds ++ rest).takeWhile isDigit) = c :: ds := by
      split
      next h => rw [hzero h]
      next => exact htake
    have hnext : (decide (c = '0') && (((ds ++ rest).head?.map isDigit).getD false)) = false := by
      by_cases h : c = '0'
      · rw [hzero h, nil_append]
        cases rest with
        | nil => simp
        | cons d rest => simp [hrest.not_isDigit d rfl]
      · simp [h]
    rw [cons_append, readNumber, if_pos hc]
    simp only [← cons_append, hlexeme, hnext, drop_left, hfraction]
    cases isTooLarge n <;> rfl

/-- What a number is read as: itself if it fits, otherwise something that is no natural number. -/
def echo (n : Nat) : Json := if isTooLarge n then flawed else wholeNumber false (Nat.toDigits 10 n)

theorem wholeNumber_toDigits (n : Nat) :
    wholeNumber false (Nat.toDigits 10 n) =
      if n < 2 ^ 64 then number n else decimal (String.ofList (Nat.toDigits 10 n)) := by
  simp only [wholeNumber, digitsValue_toDigits]
  rfl

theorem echo_of_lt (hfits : n < 2 ^ 64) : echo n = number n := by
  rw [echo, isTooLarge_of_lt hfits, wholeNumber_toDigits, if_pos hfits]
  rfl

theorem eq_of_natural?_echo (h : (echo n).natural? = some m) : m = n := by
  rw [echo, wholeNumber_toDigits] at h
  split at h
  · cases h
  · split at h
    · exact (Option.some.inj h).symm
    · cases h

end Cartograph.Json
