import Cartograph.Source.Tree

/-!
# Strings and their places

The strings of a text are the leaves of that kind, from left to right (`strings`). Positions are compared as in a text, by
lines and then by columns (`Position.Before`), and moving over a piece of text leads to a later position. Behind a piece of
text the line is that of its last line feed, and the column counts the bytes from there (`Position.after_start`).
-/

namespace Cartograph.Source

open List

namespace Position

/-- A position is further up in a text, or further left on the same line. -/
def Before (p q : Position) : Prop := p.line < q.line ∨ p.line = q.line ∧ p.column < q.column

instance (p q : Position) : Decidable (Before p q) := inferInstanceAs (Decidable (_ ∨ _))

variable {p q r : Position}

theorem Before.trans (h : Before p q) (h' : Before q r) : Before p r := by
  unfold Before at *
  omega

theorem Before.ne (h : Before p q) : p ≠ q := by
  rintro rfl
  unfold Before at h
  omega

theorem Before.asymm (h : Before p q) : ¬ Before q p := by
  unfold Before at *
  omega

theorem before_next (p : Position) (c : Char) : Before p (p.next c) := by
  unfold next
  split
  · exact .inl (Nat.lt_succ_self _)
  · exact .inr ⟨rfl, Nat.lt_add_of_pos_right c.utf8Size_pos⟩

theorem before_after {text : List Char} (h : text ≠ []) (p : Position) : Before p (p.after text) := by
  induction text generalizing p with
  | nil => exact absurd rfl h
  | cons c text ih =>
    by_cases hnil : text = []
    · subst hnil
      exact before_next p c
    · exact (before_next p c).trans (ih hnil (p.next c))

/-- What stands behind the last line feed. -/
def lastLine (text : List Char) : List Char := (text.reverse.takeWhile (· != '\n')).reverse

theorem lastLine_concat (text : List Char) (c : Char) :
    lastLine (text ++ [c]) = if c = '\n' then [] else lastLine text ++ [c] := by
  rw [lastLine, reverse_append, reverse_singleton, singleton_append, takeWhile_cons]
  by_cases hc : c = '\n'
  · subst hc
    rfl
  · rw [if_pos (bne_iff_ne.2 hc), if_neg hc, reverse_cons, lastLine]

theorem after_start (text : List Char) :
    start.after text = ⟨text.count '\n' + 1, (String.ofList (lastLine text)).utf8ByteSize + 1⟩ := by
  -- from the end of the text, since the last character decides whether a new line starts
  rw [← reverse_reverse text]
  induction text.reverse with
  | nil => rfl
  | cons c text ih =>
    rw [reverse_cons, after_append, ih, lastLine_concat, count_append]
    show next _ c = _
    rw [next]
    by_cases hc : c = '\n'
    · subst hc
      rfl
    · rw [if_neg hc, if_neg hc, String.ofList_append, String.utf8ByteSize_append, ← String.singleton_eq_ofList,
        String.utf8ByteSize_singleton, count_singleton, if_neg (by simpa using hc), Nat.add_zero, Nat.add_right_comm]

end Position

/-- A leaf that is a string, with its text and position. -/
def string? : Leaf × List Char × Position → Option (List Char × Position)
  | (.string, text, p) => some (text, p)
  | _ => none

variable {s : List Char × Position}

theorem string?_eq_some {kind : Leaf} {text : List Char} {p : Position} (h : string? (kind, text, p) = some s) :
    s = (text, p) ∧ kind = .string := by
  cases kind <;> simp [string?] at h
  exact ⟨h.symm, rfl⟩

/-- The strings among leaves. -/
def strings (leaves : List (Leaf × List Char × Position)) : List (List Char × Position) := leaves.filterMap string?

theorem mem_of_mem_strings {leaves : List (Leaf × List Char × Position)} (h : s ∈ strings leaves) :
    (.string, s.1, s.2) ∈ leaves := by
  obtain ⟨⟨kind, text, p⟩, hmem, hs⟩ := mem_filterMap.1 h
  obtain ⟨rfl, rfl⟩ := string?_eq_some hs
  exact hmem

@[simp] theorem strings_append (a b : List (Leaf × List Char × Position)) : strings (a ++ b) = strings a ++ strings b :=
  filterMap_append

namespace Tree

/-- The strings in a tree. -/
def stringsIn (t : Tree) : List (List Char × Position) := strings t.leaves

/-- The strings in several trees. -/
def stringsOf (ts : List Tree) : List (List Char × Position) := strings (leavesOf ts)

@[simp] theorem stringsOf_nil : stringsOf [] = [] := rfl

@[simp] theorem stringsOf_cons (t : Tree) (ts : List Tree) : stringsOf (t :: ts) = t.stringsIn ++ stringsOf ts := by
  rw [stringsOf, leavesOf, strings_append]
  rfl

@[simp] theorem stringsOf_append (ts us : List Tree) : stringsOf (ts ++ us) = stringsOf ts ++ stringsOf us := by
  induction ts with
  | nil => rfl
  | cons t ts ih => rw [cons_append, stringsOf_cons, stringsOf_cons, ih, append_assoc]

@[simp] theorem stringsIn_node (kind : Kind) (role : Option Role) (children : List Tree) :
    (node kind role children).stringsIn = stringsOf children := by
  rfl

theorem stringsIn_leaf {kind : Leaf} (h : kind ≠ .string) (role : Option Role) (text : List Char) (p : Position) :
    (leaf kind role text p).stringsIn = [] := by
  cases kind <;> first | rfl | exact absurd rfl h

@[simp] theorem stringsIn_string (role : Option Role) (text : List Char) (p : Position) :
    (leaf .string role text p).stringsIn = [(text, p)] := by
  rfl

end Tree

/-- Strings that stand one behind the other. -/
def Ascending (strings : List (List Char × Position)) : Prop := strings.Pairwise fun s s' => s.2.Before s'.2

theorem ascending_append {a b : List (List Char × Position)} :
    Ascending (a ++ b) ↔ Ascending a ∧ Ascending b ∧ ∀ s ∈ a, ∀ s' ∈ b, s.2.Before s'.2 := pairwise_append

end Cartograph.Source
