import Cartograph.Grammar.Derivation
import Cartograph.Proofs.Grammar.Items

/-!
# Derivations that hold

A derivation holds at a cursor if what it says is true there (`Derivation.Holds`): each token fits the text at its
place, and the parts of each phrase are the steps of one of its productions, apart from extra tokens among them. What
fits is left open here; it is a matter of the reader's tokens.

The places of its parts are not kept in a derivation. They follow from the extents, and `trees` finds them again: it
moves over a derivation that holds by its extent (`Holds.trees_stop`). Whatever the derivation, the leaves of its trees
are pieces of the text, one behind the other (`laid_trees`).
-/

namespace Cartograph

open List

/-! ### Cursors -/

namespace Source.Cursor

@[simp] theorem advance_zero (c : Cursor) : c.advance 0 = c := rfl

theorem advance_advance (c : Cursor) (m n : Nat) : (c.advance m).advance n = c.advance (m + n) := by
  simp only [advance_eq, drop_drop, ← Position.after_append, take_add]

@[simp] theorem advance_rest (c : Cursor) (n : Nat) : (c.advance n).rest = c.rest.drop n := by rw [advance_eq]

end Source.Cursor

namespace Grammar

open Source (Shape Role Tree Leaf Cursor Position)

namespace Derivation

variable {d : Derivation} {ds children : List Derivation}

/-! ### Parts -/

/-- The token or phrase that a derivation is of. -/
def symbol : Derivation → Symbol
  | token number _ _ _ => .token number
  | phrase _ number _ _ _ _ => .phrase number

/-- The symbols of the parts that belong to a production. -/
def ownSymbols (ds : List Derivation) : List Symbol := (ds.filter (!·.isExtra)).map symbol

@[simp] theorem ownSymbols_nil : ownSymbols [] = [] := rfl

theorem ownSymbols_cons_of_extra (h : d.isExtra = true) :
    ownSymbols (d :: ds) = ownSymbols ds := by simp [ownSymbols, h]

theorem ownSymbols_cons_of_own (h : d.isExtra = false) :
    ownSymbols (d :: ds) = d.symbol :: ownSymbols ds := by simp [ownSymbols, h]

@[simp] theorem ownSymbols_append (ds es : List Derivation) :
    ownSymbols (ds ++ es) = ownSymbols ds ++ ownSymbols es := by simp [ownSymbols]

/-- All characters that derivations move over, one after another. -/
def extentOf : List Derivation → Nat
  | [] => 0
  | d :: ds => d.extent + extentOf ds

@[simp] theorem extentOf_nil : extentOf [] = 0 := rfl

@[simp] theorem extentOf_cons (d : Derivation) (ds : List Derivation) :
    extentOf (d :: ds) = d.extent + extentOf ds := rfl

@[simp] theorem extentOf_append (ds es : List Derivation) : extentOf (ds ++ es) = extentOf ds + extentOf es := by
  induction ds with
  | nil => simp
  | cons d ds ih => rw [cons_append, extentOf_cons, extentOf_cons, ih, Nat.add_assoc]

theorem foldl_extent (ds : List Derivation) (n : Nat) : ds.foldl (fun n d => n + d.extent) n = n + extentOf ds := by
  induction ds generalizing n with
  | nil => rfl
  | cons d ds ih => rw [foldl_cons, ih, extentOf_cons, Nat.add_assoc]

theorem gap_le_extentOf (ds : List Derivation) : (ds.head?.map Derivation.gap).getD 0 ≤ extentOf ds := by
  cases ds with
  | nil => exact Nat.le_refl 0
  | cons d ds =>
    show d.gap ≤ d.gap + d.size + extentOf ds
    omega

/-! ### What holds -/

/-- The parts of a phrase are the steps of a production, from the first to the last, with extra tokens between them. -/
structure Made (t : Table) (ways : List (List Production)) (item number gap size : Nat) (children : List Derivation) :
    Prop where
  number_eq : number = (t.item item).phrase
  gap_eq : gap = (children.head?.map Derivation.gap).getD 0
  extent_eq : gap + size = extentOf children
  complete : (t.item item).rest = []
  steps : ∃ steps, (t.item item).Reads ways steps ∧ ownSymbols children = steps.map Step.symbol
  first_own : ∀ d, children.head? = some d → d.isExtra = false
  last_own : ∀ d, children.getLast? = some d → d.isExtra = false

/-- The production that the parts of a phrase follow, and what it says of them. -/
theorem Made.production {t : Table} {ways : List (List Production)} {item number gap size : Nat}
    (h : Made t ways item number gap size children) :
    ∃ productions p, ways[number]? = some productions ∧ p ∈ productions ∧
      ownSymbols children = p.steps.map Step.symbol ∧ (t.item item).labels.reverse = p.steps.map Step.label := by
  obtain ⟨steps, hreads, hsymbols⟩ := h.steps
  obtain ⟨productions, p, hways, hp, hsteps⟩ := hreads.way
  rw [h.complete, append_nil] at hsteps
  subst hsteps
  exact ⟨productions, p, h.number_eq ▸ hways, hp, hsymbols, hreads.labels⟩

mutual

/-- What a derivation says is true at a cursor. `fits` says which tokens of which size a text can start with. -/
def Holds (t : Table) (ways : List (List Production)) (fits : Nat → Cursor → Nat → Prop) (c : Cursor) :
    Derivation → Prop
  | token number gap size _ => fits number (c.advance gap) size
  | phrase item number gap size _ children =>
    Made t ways item number gap size children ∧ HoldsAll t ways fits c children

/-- What derivations say is true of the text from a cursor on, one after another. -/
def HoldsAll (t : Table) (ways : List (List Production)) (fits : Nat → Cursor → Nat → Prop) (c : Cursor) :
    List Derivation → Prop
  | [] => True
  | d :: ds => Holds t ways fits c d ∧ HoldsAll t ways fits (c.advance d.extent) ds

end

section HoldsAll

variable {t : Table} {ways : List (List Production)} {fits : Nat → Cursor → Nat → Prop} {c : Cursor}
  {ds es children : List Derivation}

theorem holdsAll_cons :
    HoldsAll t ways fits c (d :: ds) ↔ Holds t ways fits c d ∧ HoldsAll t ways fits (c.advance d.extent) ds := by
  rw [HoldsAll]

theorem holdsAll_append : HoldsAll t ways fits c (ds ++ es) ↔
      HoldsAll t ways fits c ds ∧ HoldsAll t ways fits (c.advance (extentOf ds)) es := by
  induction ds generalizing c with
  | nil => simp [HoldsAll]
  | cons d ds ih =>
    rw [cons_append, holdsAll_cons, holdsAll_cons, ih, Cursor.advance_advance, extentOf_cons, and_assoc]

/-- A phrase made of parts that hold, with no extra token at either end, holds. -/
theorem holds_ofChildren {item : Nat} {steps : List Step}
    (hchildren : HoldsAll t ways fits c children) (hcomplete : (t.item item).rest = [])
    (hreads : (t.item item).Reads ways steps) (hsymbols : ownSymbols children = steps.map Step.symbol)
    (hfirst : ∀ d, children.head? = some d → d.isExtra = false)
    (hlast : ∀ d, children.getLast? = some d → d.isExtra = false) :
    Holds t ways fits c (ofChildren t item children) := by
  refine ⟨⟨rfl, rfl, ?_, hcomplete, ⟨steps, hreads, hsymbols⟩, hfirst, hlast⟩, hchildren⟩
  rw [foldl_extent, Nat.zero_add, Nat.add_sub_cancel' (gap_le_extentOf children)]

theorem extent_ofChildren (item : Nat) (children : List Derivation) :
    (ofChildren t item children).extent = extentOf children := by
  show _ + _ = _
  rw [ofChildren]
  dsimp only [gap, size]
  rw [foldl_extent, Nat.zero_add, Nat.add_sub_cancel' (gap_le_extentOf children)]

end HoldsAll

/-! ### Reading trees -/

section Trees

variable {t : Table} {ways : List (List Production)} {fits : Nat → Cursor → Nat → Prop} {shapes : Symbol → Shape}

mutual

/-- Reading the trees of a derivation that holds moves over its extent. -/
theorem Holds.trees_stop {given : Option Shape} {role : Option Role} {c : Cursor} :
    (d : Derivation) → Holds t ways fits c d → (trees t shapes given role c d).2 = c.advance d.extent
  | token number gap size extra, _ => by
    rw [trees]
    split <;> exact Cursor.advance_advance c gap size
  | phrase item number gap size weight children, h => by
    rw [Holds] at h
    have hstop : c.advance (extentOf children) = c.advance (gap + size) := by rw [h.1.extent_eq]
    rw [trees]
    split
    · exact Cursor.advance_advance c gap size
    · exact (HoldsAll.treesOf_stop children h.2).trans hstop
    · exact (HoldsAll.treesOf_stop children h.2).trans hstop

theorem HoldsAll.treesOf_stop {labels : List (Option Shape × Option Role)} {c : Cursor} :
    (ds : List Derivation) → HoldsAll t ways fits c ds → (treesOf t shapes labels c ds).2 = c.advance (extentOf ds)
  | [], _ => by rw [treesOf]; rfl
  | d :: ds, h => by
    rw [HoldsAll] at h
    rw [treesOf]
    dsimp only
    rw [Holds.trees_stop d h.1, HoldsAll.treesOf_stop ds h.2, Cursor.advance_advance, extentOf_cons]

end

end Trees

/-! ### Leaves in their places -/

/-- Leaves are pieces of the text between two cursors, one behind the other. -/
inductive Laid : Cursor → List (Leaf × List Char × Position) → Cursor → Prop where
  | nil {c : Cursor} {n : Nat} : Laid c [] (c.advance n)
  | cons {c stop : Cursor} {kind : Leaf} {gap size : Nat} {leaves : List (Leaf × List Char × Position)}
      (rest : Laid ((c.advance gap).advance size) leaves stop) :
      Laid c ((kind, (c.advance gap).rest.take size, (c.advance gap).position) :: leaves) stop

namespace Laid

variable {c middle stop : Cursor} {leaves more : List (Leaf × List Char × Position)}

theorem of_advance {n : Nat} (h : Laid (c.advance n) leaves stop) : Laid c leaves stop := by
  cases h with
  | nil =>
    rw [Cursor.advance_advance]
    exact .nil
  | cons rest =>
    rw [Cursor.advance_advance c] at rest ⊢
    exact .cons rest

theorem append (h : Laid c leaves middle) (hmore : Laid middle more stop) : Laid c (leaves ++ more) stop := by
  induction h with
  | nil => exact hmore.of_advance
  | cons _ ih => exact .cons (ih hmore)

end Laid

theorem leavesOf_append (ts us : List Tree) : Tree.leavesOf (ts ++ us) = Tree.leavesOf ts ++ Tree.leavesOf us := by
  induction ts with
  | nil => rfl
  | cons u ts ih => rw [cons_append, Tree.leavesOf, Tree.leavesOf, ih, append_assoc]

theorem leavesOf_inRole (role : Option Role) (ts : List Tree) : Tree.leavesOf (inRole role ts) = Tree.leavesOf ts := by
  cases ts with
  | nil => rfl
  | cons u ts =>
    cases role with
    | none => rfl
    | some r => cases u <;> simp [inRole, Tree.leavesOf, Tree.withRole, Tree.leaves]

section Laid

variable {t : Table} {shapes : Symbol → Shape}

mutual

/-- The leaves of the trees of a derivation are laid out in the text, whatever the derivation. -/
theorem laid_trees {given : Option Shape} {role : Option Role} {c : Cursor} :
    (d : Derivation) → Laid c (Tree.leavesOf (trees t shapes given role c d).1) (trees t shapes given role c d).2
  | token number gap size extra => by
    rw [trees]
    split
    · exact .cons (.nil (n := 0))
    · dsimp only
      rw [Cursor.advance_advance]
      exact .nil
  | phrase item number gap size weight children => by
    rw [trees]
    split
    · exact .cons (.nil (n := 0))
    · dsimp only
      rw [Tree.leavesOf, Tree.leavesOf, Tree.leaves, append_nil]
      exact laid_treesOf children
    · dsimp only
      rw [leavesOf_inRole]
      exact laid_treesOf children

theorem laid_treesOf {labels : List (Option Shape × Option Role)} {c : Cursor} :
    (ds : List Derivation) → Laid c (Tree.leavesOf (treesOf t shapes labels c ds).1) (treesOf t shapes labels c ds).2
  | [] => by rw [treesOf]; exact .nil (n := 0)
  | d :: ds => by
    rw [treesOf]
    dsimp only
    rw [leavesOf_append]
    exact (laid_trees d).append (laid_treesOf ds)

end

end Laid

end Derivation

end Grammar

end Cartograph
