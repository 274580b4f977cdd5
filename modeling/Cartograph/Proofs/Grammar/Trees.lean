import Cartograph.Proofs.Grammar.Derivations
import Cartograph.Proofs.Source.Strings

/-!
# Trees of derivations

Two ways to say something about all trees of a derivation that holds.

A property of each tree goes from the parts of a phrase to the phrase (`Derivation.Carries`), where the symbols, shapes
and roles of the parts are good ones in a sense that productions keep: `Carries.forall_trees` and, for the steps of one
production, `Carries.forall_treesOf`.

The leaves of all trees are laid out in the text (`Laid`). So each of them is a piece of the text at its position
(`Laid.exists_before`), and leaves that are not empty stand one behind the other (`Laid.ascending`).
-/

namespace Cartograph.Grammar

open List
open Source (Shape Role Tree Leaf Cursor Position)

namespace Derivation

/-! ### Properties of trees -/

section Carries

variable (t : Table) (ways : List (List Production)) (fits : Nat → Cursor → Nat → Prop) (shapes : Symbol → Shape)

/-- What has to be known of a property of trees so that all trees of good derivations have it. A symbol is good together
with the shape and the role that are asked of it. -/
structure Carries (Good : Option Shape → Option Role → Symbol → Prop) (P : Tree → Prop) : Prop where
  /-- Extra tokens are good. -/
  extra (n : Nat) : Good none none (.token n)
  /-- The steps of a phrase that has no tree of its own are good if the phrase is. -/
  hidden {given : Option Shape} {role : Option Role} {n : Nat} {ps : List Production} {q : Production} :
    Good given role (.phrase n) → given.getD (shapes (.phrase n)) = .hidden → ways[n]? = some ps → q ∈ ps →
      ∀ step ∈ q.steps, Good step.shape step.role step.symbol
  /-- The role of such a phrase is that of its first tree. -/
  inRole {given : Option Shape} {r : Role} {n : Nat} {tree : Tree} :
    Good given (some r) (.phrase n) → given.getD (shapes (.phrase n)) = .hidden → P tree → P (tree.withRole r)
  token {given : Option Shape} {role : Option Role} {n : Nat} {kind : Leaf} {text : List Char} {p : Position} :
    Good given role (.token n) → given.getD (shapes (.token n)) = .leaf kind → P (.leaf kind role text p)
  leaf {given : Option Shape} {role : Option Role} {item n gap size : Nat} {weight : Int} {children : List Derivation}
    {kind : Leaf} {c : Cursor} :
    Good given role (.phrase n) → given.getD (shapes (.phrase n)) = .leaf kind →
      Holds t ways fits c (.phrase item n gap size weight children) →
      P (.leaf kind role ((c.advance gap).rest.take size) (c.advance gap).position)
  node {given : Option Shape} {role : Option Role} {item n gap size : Nat} {weight : Int} {children : List Derivation}
    {kind : Source.Kind} {c : Cursor} :
    Good given role (.phrase n) → given.getD (shapes (.phrase n)) = .node kind →
      Holds t ways fits c (.phrase item n gap size weight children) →
      ((∀ ps q, ways[n]? = some ps → q ∈ ps → ∀ step ∈ q.steps, Good step.shape step.role step.symbol) →
        ∀ tree ∈ (treesOf t shapes (t.item item).labels.reverse c children).1, P tree) →
      P (.node kind role (treesOf t shapes (t.item item).labels.reverse c children).1)

end Carries

namespace Carries

variable {t : Table} {ways : List (List Production)} {fits : Nat → Cursor → Nat → Prop} {shapes : Symbol → Shape}
  {Good : Option Shape → Option Role → Symbol → Prop} {P : Tree → Prop} {steps : List Step} {c : Cursor}
  {ds : List Derivation}

/-- The labels of a production are good for its symbols if its steps are. -/
theorem good_of_steps (hsteps : ∀ step ∈ steps, Good step.shape step.role step.symbol) {symbols : List Symbol}
    (hsymbols : symbols = steps.map Step.symbol) (i : Nat) (symbol : Symbol) (hi : symbols[i]? = some symbol) :
    Good ((steps.map Step.label).getD i (none, none)).1 ((steps.map Step.label).getD i (none, none)).2 symbol := by
  rw [hsymbols, getElem?_map, Option.map_eq_some_iff] at hi
  obtain ⟨step, hstep, rfl⟩ := hi
  rw [getD_eq_getElem?_getD, getElem?_map, hstep]
  exact hsteps step (mem_of_getElem? hstep)

theorem inRole_forall (h : Carries t ways fits shapes Good P) {given : Option Shape} {role : Option Role} {n : Nat}
    (hgood : Good given role (.phrase n)) (hshape : given.getD (shapes (.phrase n)) = .hidden) {trees : List Tree}
    (htrees : ∀ tree ∈ trees, P tree) : ∀ tree ∈ Derivation.inRole role trees, P tree := by
  cases trees with
  | nil => exact htrees
  | cons first rest =>
    cases role with
    | none => exact htrees
    | some r =>
      rw [forall_mem_cons] at htrees
      exact forall_mem_cons.2 ⟨h.inRole hgood hshape htrees.1, htrees.2⟩

mutual

/-- **All trees of a good derivation have the property.** -/
theorem forall_trees (h : Carries t ways fits shapes Good P) {given : Option Shape} {role : Option Role} {c : Cursor} :
    (d : Derivation) → Holds t ways fits c d → Good given role d.symbol → ∀ tree ∈ (trees t shapes given role c d).1, P tree
  | .token number gap size extra, _, hgood => by
    rw [trees]
    split
    · next hshape =>
      exact fun tree htree => mem_singleton.1 htree ▸ h.token hgood hshape
    · exact fun tree htree => absurd htree not_mem_nil
  | .phrase item number gap size weight children, hd, hgood => by
    have hmade := hd
    rw [Holds] at hmade
    have hchildren (hsteps : ∀ ps q, ways[number]? = some ps → q ∈ ps →
        ∀ step ∈ q.steps, Good step.shape step.role step.symbol) :
        ∀ tree ∈ (treesOf t shapes (t.item item).labels.reverse c children).1, P tree := by
      obtain ⟨ps, q, hps, hq, hsymbols, hlabels⟩ := hmade.1.production
      rw [hlabels]
      exact forall_treesOf_getD h children hmade.2 (good_of_steps (hsteps ps q hps hq) hsymbols)
    rw [trees]
    split
    · next hshape => exact fun tree htree => mem_singleton.1 htree ▸ h.leaf hgood hshape hd
    · next hshape => exact fun tree htree => mem_singleton.1 htree ▸ h.node hgood hshape hd hchildren
    · next hshape => exact h.inRole_forall hgood hshape (hchildren fun ps q => h.hidden hgood hshape)

theorem forall_treesOf_getD (h : Carries t ways fits shapes Good P) {labels : List (Option Shape × Option Role)}
    {c : Cursor} :
    (ds : List Derivation) → HoldsAll t ways fits c ds →
      (∀ i symbol, (ownSymbols ds)[i]? = some symbol →
        Good (labels.getD i (none, none)).1 (labels.getD i (none, none)).2 symbol) →
      ∀ tree ∈ (treesOf t shapes labels c ds).1, P tree
  | [], _, _ => by
    rw [treesOf]
    exact fun tree htree => absurd htree not_mem_nil
  | d :: ds, hds, hgood => by
    rw [holdsAll_cons] at hds
    rw [treesOf]
    dsimp only
    rw [hds.1.trees_stop]
    intro tree htree
    cases hextra : d.isExtra with
    | true =>
      rw [ownSymbols_cons_of_extra hextra] at hgood
      simp only [hextra, if_true] at htree
      obtain htree | htree := mem_append.1 htree
      · refine forall_trees h d hds.1 ?_ tree htree
        cases d with
        | token number gap size extra => exact h.extra number
        | phrase => cases hextra
      · exact forall_treesOf_getD h ds hds.2 hgood tree htree
    | false =>
      rw [ownSymbols_cons_of_own hextra] at hgood
      simp only [hextra] at htree
      obtain htree | htree := mem_append.1 htree
      · refine forall_trees h d hds.1 ?_ tree htree
        cases labels <;> exact hgood 0 d.symbol rfl
      · refine forall_treesOf_getD h ds hds.2 (fun i symbol hi => ?_) tree htree
        cases labels <;> exact hgood (i + 1) symbol hi

end

/-- All trees of the parts of a production have the property if its steps are good. -/
theorem forall_treesOf (h : Carries t ways fits shapes Good P)
    (hds : HoldsAll t ways fits c ds) (hsymbols : ownSymbols ds = steps.map Step.symbol)
    (hsteps : ∀ step ∈ steps, Good step.shape step.role step.symbol) :
    ∀ tree ∈ (treesOf t shapes (steps.map Step.label) c ds).1, P tree :=
  forall_treesOf_getD h ds hds (good_of_steps hsteps hsymbols)

/-- The same if something may follow, of which nothing is asked. -/
theorem forall_treesOf_of_isPrefix (h : Carries t ways fits shapes Good P) (hnone : ∀ symbol, Good none none symbol)
    (hds : HoldsAll t ways fits c ds)
    (hsymbols : steps.map Step.symbol <+: ownSymbols ds)
    (hsteps : ∀ step ∈ steps, Good step.shape step.role step.symbol) :
    ∀ tree ∈ (treesOf t shapes (steps.map Step.label) c ds).1, P tree := by
  obtain ⟨more, hsymbols⟩ := hsymbols
  refine forall_treesOf_getD h ds hds fun i symbol hi => ?_
  by_cases hlt : i < (steps.map Step.symbol).length
  · rw [← hsymbols, getElem?_append_left hlt] at hi
    exact good_of_steps hsteps rfl i symbol hi
  · rw [getD_eq_getElem?_getD, getElem?_eq_none (by simpa using hlt)]
    exact hnone symbol

end Carries

/-! ### The ends of a phrase -/

/-- A phrase starts with the first and ends with the last symbol of its production. -/
theorem Made.exists_ends {t : Table} {ways : List (List Production)} {item number gap size : Nat}
    {children : List Derivation} (h : Made t ways item number gap size children) {a b : Symbol} {middle : List Symbol}
    (hsymbols : ownSymbols children = a :: (middle ++ [b])) :
    ∃ first inner last, children = first :: (inner ++ [last]) ∧ first.symbol = a ∧ last.symbol = b := by
  have hfirst := h.first_own
  have hlast := h.last_own
  cases children with
  | nil => simp at hsymbols
  | cons first rest =>
    rw [ownSymbols_cons_of_own (hfirst first rfl), List.cons.injEq] at hsymbols
    cases hrest : rest.getLast? with
    | none => simp [getLast?_eq_none_iff.1 hrest] at hsymbols
    | some last =>
      obtain ⟨inner, rfl⟩ := getLast?_eq_some_iff.1 hrest
      have hown : last.isExtra = false := hlast last (by rw [getLast?_cons, hrest]; rfl)
      rw [ownSymbols_append, ownSymbols_cons_of_own hown] at hsymbols
      exact ⟨first, inner, last, rfl, hsymbols.1, singleton_inj.1 (append_inj_right' hsymbols.2 rfl)⟩

/-! ### Leaves in the text -/

namespace Laid

variable {c stop : Cursor} {leaves : List (Leaf × List Char × Position)}

/-- A leaf is a piece of the text, and its position is the one behind all that precedes it. -/
theorem exists_before (h : Laid c leaves stop) {kind : Leaf} {text : List Char} {p : Position}
    (hmem : (kind, text, p) ∈ leaves) :
    ∃ before rest, c.rest = before ++ (text ++ rest) ∧ p = c.position.after before := by
  induction h with
  | nil => exact absurd hmem not_mem_nil
  | @cons c stop _ gap size leaves _ ih =>
    obtain heq | hmem := mem_cons.1 hmem
    · obtain ⟨-, rfl, rfl⟩ := heq
      refine ⟨c.rest.take gap, (c.advance gap).rest.drop size, ?_, ?_⟩
      · rw [take_append_drop, Cursor.advance_rest, take_append_drop]
      · rw [Cursor.advance_eq]
    · obtain ⟨before, rest, hrest, rfl⟩ := ih hmem
      rw [Cursor.advance_advance, Cursor.advance_rest] at hrest
      refine ⟨c.rest.take (gap + size) ++ before, rest, ?_, ?_⟩
      · rw [append_assoc, ← hrest, take_append_drop]
      · rw [Cursor.advance_advance, Cursor.advance_eq, Position.after_append]

/-- Strings that are not empty stand one behind the other. -/
theorem ascending (h : Laid c leaves stop) (hne : ∀ s ∈ Source.strings leaves, s.1 ≠ []) :
    Source.Ascending (Source.strings leaves) := by
  induction h with
  | nil => exact .nil
  | @cons c stop kind gap size leaves hrest ih =>
    rw [Source.strings, filterMap_cons] at hne ⊢
    split at hne
    · exact ih hne
    · next s hsome =>
      rw [forall_mem_cons] at hne
      refine .cons (fun s' hs' => ?_) (ih hne.2)
      obtain ⟨rfl, rfl⟩ : s = (_, _) ∧ kind = .string := Source.string?_eq_some hsome
      obtain ⟨before, -, -, hposition⟩ := hrest.exists_before (Source.mem_of_mem_strings hs')
      rw [hposition, Cursor.advance_eq size, ← Position.after_append]
      exact Position.before_after (append_ne_nil_of_left_ne_nil hne.1 _) _

end Laid

end Derivation

end Cartograph.Grammar
