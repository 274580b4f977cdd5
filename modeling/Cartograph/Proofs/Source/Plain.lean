import Cartograph.Source.Tree

/-!
# Trees without comments

A comment can stand between any two pieces of a text, and then it is one more tree below the node that spans them, an
*aside*, which has no role there. `Tree.plainAll` takes the asides out of trees at every depth and forgets where the
other pieces stand, so two lists of trees differ only in their comments and in the places of their pieces exactly if
their plain forms are equal.

What asks for a role, a kind of node or a mark does not see asides (`IgnoresAsides`). Asking for the first tree that is
more than a mark is different: an aside is more than a mark (`find?_isNamed_plainAll`).
-/

namespace Cartograph.Source.Tree

open List

/-- Whether the leaves of trees make up a text, with nothing but blanks between them. -/
def spells (trees : List Tree) (source : String) : Bool :=
  ((leavesOf trees).flatMap (·.2.1)).filter (!·.isWhitespace) == source.toList.filter (!·.isWhitespace)

/-- Whether a tree is a comment that is nothing to the node that holds it. -/
def isAside : Tree → Bool
  | leaf .comment none _ _ => true
  | _ => false

mutual

/-- The tree without the asides in it, and with all its pieces at the start of a text. -/
def plain : Tree → Tree
  | leaf kind role text _ => leaf kind role text .start
  | node kind role children => node kind role (plainAll children)

/-- Several trees without asides, and with all their pieces at the start of a text. -/
def plainAll : List Tree → List Tree
  | [] => []
  | t :: ts => if t.isAside then plainAll ts else t.plain :: plainAll ts

end

variable {t : Tree} {ts : List Tree}

theorem eq_of_isAside (h : t.isAside = true) : ∃ text p, t = leaf .comment none text p := by
  unfold isAside at h
  split at h
  · exact ⟨_, _, rfl⟩
  · cases h

theorem isNamed_of_isAside (h : t.isAside = true) : t.isNamed = true := by
  obtain ⟨text, p, rfl⟩ := eq_of_isAside h
  rfl

theorem plainAll_cons_of_isAside (h : t.isAside = true) (ts : List Tree) : plainAll (t :: ts) = plainAll ts := by
  rw [plainAll, if_pos h]

theorem plainAll_cons (h : t.isAside = false) (ts : List Tree) : plainAll (t :: ts) = t.plain :: plainAll ts := by
  rw [plainAll, if_neg (by simp [h])]

theorem plainAll_eq_map (ts : List Tree) : plainAll ts = (ts.filter (!·.isAside)).map plain := by
  induction ts with
  | nil => rfl
  | cons t ts ih => cases h : t.isAside <;> simp [plainAll, h, ih]

/-! ### What plain trees keep -/

@[simp] theorem role_plain (t : Tree) : t.plain.role = t.role := by cases t <;> rfl

@[simp] theorem isNamed_plain (t : Tree) : t.plain.isNamed = t.isNamed := by
  cases t with
  | leaf kind => cases kind <;> rfl
  | node => rfl

@[simp] theorem isComment_plain (t : Tree) : t.plain.isComment = t.isComment := by
  cases t with
  | leaf kind => cases kind <;> rfl
  | node => rfl

@[simp] theorem isNode_plain (k : Kind) (t : Tree) : t.plain.isNode k = t.isNode k := by cases t <;> rfl

@[simp] theorem isMark_plain (text : List Char) (t : Tree) : t.plain.isMark text = t.isMark text := by
  cases t with
  | leaf kind => cases kind <;> rfl
  | node => rfl

@[simp] theorem children_plain (t : Tree) : t.plain.children = plainAll t.children := by cases t <;> rfl

/-! ### Questions that asides do not answer -/

/-- Asides do not answer a question, and the other trees answer it alike in plain form. -/
def IgnoresAsides (p : Tree → Bool) : Prop := ∀ t : Tree, (!t.isAside && p t.plain) = p t

theorem IgnoresAsides.intro {p : Tree → Bool} (haside : ∀ t : Tree, t.isAside = true → p t = false)
    (hplain : ∀ t : Tree, p t.plain = p t) : IgnoresAsides p := by
  intro t
  rw [hplain]
  cases h : t.isAside with
  | false => rfl
  | true => rw [haside t h]; rfl

namespace IgnoresAsides

variable {p : Tree → Bool}

theorem find?_plainAll (h : IgnoresAsides p) (ts : List Tree) : (plainAll ts).find? p = (ts.find? p).map plain := by
  have hp : (fun t : Tree => decide ((!t.isAside) = true ∧ (p ∘ plain) t = true)) = p := by
    funext t
    rw [Bool.decide_and, Bool.decide_eq_true, Bool.decide_eq_true]
    exact h t
  rw [plainAll_eq_map, find?_map, find?_filter, hp]

theorem filter_plainAll (h : IgnoresAsides p) (ts : List Tree) : (plainAll ts).filter p = (ts.filter p).map plain := by
  rw [plainAll_eq_map, filter_map, filter_filter]
  congr 2
  funext t
  rw [Bool.and_comm]
  exact h t

theorem any_plainAll (h : IgnoresAsides p) (ts : List Tree) : (plainAll ts).any p = ts.any p := by
  rw [plainAll_eq_map, any_map, any_filter]
  congr 1
  funext t
  exact h t

end IgnoresAsides

theorem ignoresAsides_role (r : Role) : IgnoresAsides (·.role == some r) := by
  refine .intro (fun t h => ?_) fun t => by rw [role_plain]
  obtain ⟨text, p, rfl⟩ := eq_of_isAside h
  rfl

theorem ignoresAsides_isNode (k : Kind) : IgnoresAsides (·.isNode k) := by
  refine .intro (fun t h => ?_) (isNode_plain k)
  obtain ⟨text, p, rfl⟩ := eq_of_isAside h
  rfl

theorem ignoresAsides_isMark (text : List Char) : IgnoresAsides (·.isMark text) := by
  refine .intro (fun t h => ?_) (isMark_plain text)
  obtain ⟨text, p, rfl⟩ := eq_of_isAside h
  rfl

theorem inRole?_plainAll (r : Role) (ts : List Tree) : inRole? r (plainAll ts) = (inRole? r ts).map plain :=
  (ignoresAsides_role r).find?_plainAll ts

/-- A walk over trees that passes over asides, and takes the other trees alike in plain form. -/
theorem foldl_plainAll {β : Type} {f : β → Tree → β} (haside : ∀ b t, t.isAside = true → f b t = b)
    (hplain : ∀ t ∈ ts, ∀ b, f b t.plain = f b t) (b : β) : (plainAll ts).foldl f b = ts.foldl f b := by
  induction ts generalizing b with
  | nil => rfl
  | cons t ts ih =>
    have ih := ih (forall_mem_cons.1 hplain).2
    rw [foldl_cons]
    cases h : t.isAside with
    | true => rw [plainAll_cons_of_isAside h, haside b t h, ih]
    | false => rw [plainAll_cons h, foldl_cons, hplain t mem_cons_self, ih]

/-- The first tree that is more than a mark stays the first one, unless it is an aside. -/
theorem find?_isNamed_plainAll (h : (ts.find? isNamed).any isAside = false) :
    (plainAll ts).find? isNamed = (ts.find? isNamed).map plain := by
  induction ts with
  | nil => rfl
  | cons t ts ih =>
    -- before the first tree that is more than a mark there are only marks, and none of them is an aside
    rw [find?_cons] at h ⊢
    cases hnamed : t.isNamed with
    | true =>
      rw [hnamed] at h
      rw [plainAll_cons h, find?_cons, isNamed_plain, hnamed]
      rfl
    | false =>
      rw [hnamed] at h
      have haside : t.isAside = false := by
        rw [← Bool.not_eq_true]
        intro haside
        rw [isNamed_of_isAside haside] at hnamed
        cases hnamed
      rw [plainAll_cons haside, find?_cons, isNamed_plain, hnamed]
      exact ih h

end Cartograph.Source.Tree
