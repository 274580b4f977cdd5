import Cartograph.Proofs.Grammar.Trees
import Cartograph.Proofs.TypeScript.ImportOrder
import Cartograph.Proofs.TypeScript.Rules
import Cartograph.Proofs.TypeScript.Tokens

/-!
# Trees of modules

What the rules of the grammar say about the trees of a text that is read (`isSound_trees`): strings are quoted, export
statements that name a source have no other imports in them, and only argument lists and templates are the arguments of a
call. That these trees are laid out in the text holds for every grammar (`Grammar.Derivation.laid_trees`).
-/

namespace Cartograph.TypeScript

open List

open Source (Tree Role Shape Kind Cursor)
open Source.Tree (inRole?)
open Grammar (Symbol Table Derivation)
open Grammar.Derivation (Holds Carries treesOf extentOf)

/-! ### Shapes -/

/-- The shapes of the tokens and phrases of a dialect, by their numbers. -/
def shapesOf (d : Dialect) : Symbol → Shape
  | .token n => ((grammar d).tokenList[n]?.map Token.shape).getD .hidden
  | .phrase n => ((grammar d).phraseList[n]?.map Phrase.shape).getD .hidden

theorem shapes_reader (d : Dialect) : d.reader.shapes = shapesOf d := by
  funext symbol
  cases symbol with
  | token n => simp only [Dialect.reader, shapesOf, Array.getD_eq_getD_getElem?, getElem?_toArray, getElem?_map]
  | phrase n => simp only [Dialect.reader, shapesOf, Array.getD_eq_getD_getElem?, getElem?_toArray, getElem?_map]

theorem shapesOf_phrase (d : Dialect) (p : Phrase) : shapesOf d (.phrase p.ctorIdx) = p.shape := by
  rw [shapesOf, getElem?_phraseList.2 rfl]
  rfl

variable {d : Dialect} {n : Nat} {shape own : Shape} {text : List Char} {trees : List Tree}

/-- Only a phrase of the grammar has a tree of its own. -/
theorem exists_phrase (h : shapesOf d (.phrase n) = shape) (hne : shape ≠ .hidden) :
    ∃ p : Phrase, n = p.ctorIdx ∧ p.shape = shape := by
  rw [shapesOf] at h
  cases hp : (grammar d).phraseList[n]? with
  | none =>
    rw [hp] at h
    exact absurd h.symm hne
  | some p =>
    rw [hp] at h
    exact ⟨p, getElem?_phraseList.1 hp, h⟩

theorem token_not_string (t : Token) : t.shape ≠ .leaf .string := by
  cases t <;> simp [Token.shape]
  split <;> simp

theorem shapesOf_token (d : Dialect) (n : Nat) : shapesOf d (.token n) ≠ .leaf .string := by
  rw [shapesOf]
  cases (grammar d).tokenList[n]? with
  | none => simp
  | some t => exact token_not_string t

theorem eq_stringText (h : shapesOf d (.phrase n) = .leaf .string) : n = Phrase.stringText.ctorIdx := by
  obtain ⟨p, rfl, hshape⟩ := exists_phrase h (by simp)
  cases p <;> first | rfl | cases hshape

theorem eq_exportStatement (h : shapesOf d (.phrase n) = .node .exportStatement) :
    n = Phrase.exportStatement.ctorIdx := by
  obtain ⟨p, rfl, hshape⟩ := exists_phrase h (by simp)
  cases p <;> first | rfl | cases hshape

/-- Where a rule asks for no shape but that of a word, all other shapes are those of the symbols. -/
theorem shape_of_isRegular {given : Option Shape} {role : Option Role} {symbol : Symbol}
    (h : isRegular given role symbol = true) (heq : given.getD own = shape) (hne : shape ≠ .leaf .word) :
    own = shape := by
  obtain rfl | rfl := (isRegular_iff.1 h).1
  · exact heq
  · exact absurd heq.symm hne

@[simp] theorem role_withRole (r : Role) (t : Tree) : (t.withRole r).role = some r := by cases t <;> rfl

@[simp] theorem importsIn_withRole (r : Role) (t : Tree) : importsIn (t.withRole r) = importsIn t := by
  cases t with
  | leaf kind role text p => rfl
  | node kind role children => rw [Tree.withRole, importsIn_node, importsIn_node]

section

variable {d : Dialect} {t : Table} {fits : Nat → Cursor → Nat → Prop} {n item gap size : Nat} {c : Cursor}
  {children : List Derivation} {kind : Kind} {quote m : String} {q : Char} {text rest behind : List Char} {weight : Int}
  {given : Option Shape}

/-! ### Sources and quiet phrases -/

theorem not_source_of_hidden (hfrom : n ≠ Phrase.fromClause.ctorIdx) (hshape : shapesOf d (.phrase n) = .hidden) :
    ∀ p ∈ sourcePhrases, p.ctorIdx ≠ n := by
  rintro p hp rfl
  rw [shapesOf_phrase] at hshape
  simp only [sourcePhrases, mem_cons, not_mem_nil, or_false] at hp
  obtain rfl | rfl | rfl | rfl := hp
  · exact hfrom rfl
  · cases hshape
  · cases hshape
  · cases hshape

/-- Where the grammar says nothing about sources, no tree is one. -/
theorem carries_sourceless :
    Carries t (grammar d).productions fits (shapesOf d)
      (fun given role symbol => isRegular given role symbol = true ∧ isSourceless role symbol = true)
      (fun tree => tree.role ≠ some .source) where
  extra n := ⟨rfl, rfl⟩
  hidden := by
    intro given role n ps q hgood hshape hps hq step hstep
    have hfrom : n ≠ Phrase.fromClause.ctorIdx := fun heq => (isSourceless_iff.1 hgood.2).2 (heq ▸ rfl)
    have hchecked := isChecked hps hq
    exact ⟨hchecked.regular step hstep,
      hchecked.sourceless (not_source_of_hidden hfrom (shape_of_isRegular hgood.1 hshape (by simp))) step hstep⟩
  inRole hgood _ _ := by
    rw [role_withRole]
    exact (isSourceless_iff.1 hgood.2).1
  token hgood _ := (isSourceless_iff.1 hgood.2).1
  leaf hgood _ _ := (isSourceless_iff.1 hgood.2).1
  node hgood _ _ _ := (isSourceless_iff.1 hgood.2).1

theorem quiet_shapes :
    ∀ p ∈ quietPhrases, p.shape ≠ .node .importStatement ∧ p.shape ≠ .node .exportStatement ∧ p.shape ≠ .node .call := by
  decide

theorem importsIn_of_quiet (hquiet : isQuiet d (.phrase n) = true)
    (hshape : shapesOf d (.phrase n) = .node kind) (role : Option Role)
    (htrees : ∀ tree ∈ trees, importsIn tree = []) : importsIn (.node kind role trees) = [] := by
  have hall : importsInAll trees = [] := by
    rw [importsInAll_eq_flatMap]
    exact flatMap_eq_nil_iff.2 htrees
  obtain ⟨p, rfl, hkind⟩ := exists_phrase hshape (by simp)
  have hshapes := quiet_shapes p (mem_quietPhrases hquiet)
  rw [hkind] at hshapes
  cases kind with
  | importStatement => exact absurd rfl hshapes.1
  | exportStatement => exact absurd rfl hshapes.2.1
  | call => exact absurd rfl hshapes.2.2
  | _ => exact hall

/-- Nothing is imported where there are only names and strings. -/
theorem carries_quiet :
    Carries t (grammar d).productions fits (shapesOf d)
      (fun given role symbol => isRegular given role symbol = true ∧ isQuiet d symbol = true)
      (fun tree => importsIn tree = []) where
  extra n := ⟨rfl, rfl⟩
  hidden hgood _ hps hq step hstep := ⟨isRegular_step hps hq hstep, isQuiet_step hgood.2 hps hq hstep⟩
  inRole _ _ htree := by rwa [importsIn_withRole]
  token _ _ := rfl
  leaf _ _ _ := rfl
  node hgood hshape _ htrees := importsIn_of_quiet hgood.2 (shape_of_isRegular hgood.1 hshape (by simp)) _
    (htrees fun ps q hps hq step hstep => ⟨isRegular_step hps hq hstep, isQuiet_step hgood.2 hps hq hstep⟩)

/-! ### Strings -/

theorem exists_quote (h : quote ∈ quotes) : ∃ q, (q = '"' ∨ q = '\'') ∧ quote.toList = [q] ∧ quote.length = 1 := by
  rw [quotes, mem_cons, mem_singleton] at h
  obtain rfl | rfl := h
  · exact ⟨'"', .inl rfl, rfl, rfl⟩
  · exact ⟨'\'', .inr rfl, rfl, rfl⟩

theorem eq_cons_of_startsWith (hquote : quote.toList = [q])
    (h : Text.startsWith quote.toList text = true) : ∃ rest, text = q :: rest := by
  rw [hquote] at h
  obtain ⟨rest, hrest⟩ := Option.isSome_iff_exists.1 h
  exact ⟨rest, Text.eq_append_of_dropStart? hrest⟩

/-- A piece of text from one quotation mark to another. -/
theorem isQuoted_take (hq : q = '"' ∨ q = '\'') (hfirst : text = q :: rest)
    (hlast : text.drop (n + 1) = q :: behind) : IsQuoted (text.take (n + 2)) := by
  subst hfirst
  rw [drop_succ_cons] at hlast
  refine ⟨q, rest.take n, hq, ?_⟩
  rw [take_succ_cons, take_add_one, ← head?_drop, hlast]
  rfl

theorem fitsMark_of_symbol {tokens : List Token} {e : Derivation}
    (h : Holds t (grammar d).productions (FitsMark tokens) c e) (hsymbol : e.symbol = .token (tokens.idxOf (.mark m))) :
    Text.startsWith m.toList (c.advance e.gap).rest = true ∧ e.size = m.length := by
  cases e with
  | phrase => cases hsymbol
  | token number gap size extra =>
    exact h m (Symbol.token.inj hsymbol)

/-- A string that is read starts and ends with the same quotation mark. -/
theorem isQuoted_of_holds (hn : n = Phrase.stringText.ctorIdx)
    (h : Holds t (grammar d).productions (FitsMark (grammar d).tokenList) c (.phrase item n gap size weight children)) :
    IsQuoted ((c.advance gap).rest.take size) := by
  obtain ⟨hmade, hall⟩ := h
  obtain ⟨ps, q, hps, hq, hsymbols, -⟩ := hmade.production
  subst hn
  obtain ⟨quote, hquote, middle, hsteps⟩ := quoted_steps hps hq
  obtain ⟨first, inner, last, rfl, hfirst, hlast⟩ := hmade.exists_ends (hsymbols.trans hsteps)
  obtain ⟨mark, hmark, htext, hlength⟩ := exists_quote hquote
  rw [Derivation.holdsAll_cons, Derivation.holdsAll_append] at hall
  obtain ⟨hfirst, hsize⟩ := fitsMark_of_symbol hall.1 hfirst
  obtain ⟨hlast, hsize'⟩ := fitsMark_of_symbol hall.2.2.1 hlast
  obtain ⟨rest, hfirst⟩ := eq_cons_of_startsWith htext hfirst
  obtain ⟨behind, hlast⟩ := eq_cons_of_startsWith htext hlast
  have hgap : gap = first.gap := hmade.gap_eq
  have hextent : gap + size = first.gap + first.size + (extentOf inner + (last.gap + last.size)) := by
    rw [hmade.extent_eq, Derivation.extentOf_cons, Derivation.extentOf_append]
    rfl
  -- both marks are one character long, so all between them is what is left of the size
  obtain rfl : size = extentOf inner + last.gap + 2 := by omega
  rw [hgap]
  refine isQuoted_take hmark hfirst (Eq.trans ?_ hlast)
  have hplace : first.extent + (extentOf inner + last.gap) = first.gap + (extentOf inner + last.gap + 1) := by
    show first.gap + first.size + _ = _
    omega
  rw [Cursor.advance_advance, Cursor.advance_advance, Cursor.advance_rest, Cursor.advance_rest, drop_drop, hplace]

/-! ### Sound trees -/

/-- Only argument lists and templates are arguments, and these are nodes that make no imports. -/
theorem isArguments_node (hgood : isRegular given (some .arguments) (.phrase n) = true)
    (hshape : shapesOf d (.phrase n) = .node kind) (role : Option Role) (trees : List Tree) :
    IsArguments (.node kind role trees) := by
  obtain h | h := (isRegular_iff.1 hgood).2 rfl
  · rw [h, shapesOf_phrase] at hshape
    cases hshape
    rfl
  · rw [h, shapesOf_phrase] at hshape
    cases hshape
    rfl

theorem not_arguments_of_hidden {role : Option Role}
    (hgood : isRegular given role (.phrase n) = true) (hshape : shapesOf d (.phrase n) = .hidden) :
    role ≠ some .arguments := by
  intro hrole
  obtain h | h := (isRegular_iff.1 hgood).2 hrole
  · rw [h, shapesOf_phrase] at hshape
    cases hshape
  · rw [h, shapesOf_phrase] at hshape
    cases hshape

/-- In an export statement that names a source there are only names and strings. -/
theorem importsInAll_of_source (hn : n = Phrase.exportStatement.ctorIdx)
    (h : Holds t (grammar d).productions fits c (.phrase item n gap size weight children))
    (hsource : (inRole? .source (treesOf t (shapesOf d) (t.item item).labels.reverse c children).1).isSome) :
    importsInAll (treesOf t (shapesOf d) (t.item item).labels.reverse c children).1 = [] := by
  obtain ⟨hmade, hall⟩ := h
  obtain ⟨ps, q, hps, hq, hsymbols, hlabels⟩ := hmade.production
  rw [hlabels] at hsource ⊢
  obtain hsteps | hsteps := (isChecked hps hq).exports hn
  · have hnone := carries_sourceless.forall_treesOf hall hsymbols fun step hstep =>
      ⟨isRegular_step hps hq hstep, hsteps step hstep⟩
    obtain ⟨tree, htree⟩ := Option.isSome_iff_exists.1 hsource
    exact absurd (by simpa using find?_some htree) (hnone tree (mem_of_find?_eq_some htree))
  · have hnone := carries_quiet.forall_treesOf hall hsymbols fun step hstep =>
      ⟨isRegular_step hps hq hstep, hsteps step hstep⟩
    rw [importsInAll_eq_flatMap]
    exact flatMap_eq_nil_iff.2 hnone

theorem isSound_withRole {tree : Tree} (h : IsSound tree) (r : Role) : IsSound (tree.withRole r) := by
  cases h with
  | leaf role p hquoted => exact .leaf _ p hquoted
  | node kind role each reexport arguments => exact .node kind _ each reexport arguments

/-- **All trees are sound**, and arguments among them make no imports. -/
theorem carries_isSound :
    Carries t (grammar d).productions (FitsMark (grammar d).tokenList) (shapesOf d)
      (fun given role symbol => isRegular given role symbol = true)
      (fun tree => IsSound tree ∧ (tree.role = some .arguments → IsArguments tree)) where
  extra n := rfl
  hidden _ _ hps hq step hstep := isRegular_step hps hq hstep
  inRole hgood hshape htree := by
    refine ⟨isSound_withRole htree.1 _, fun hrole => ?_⟩
    rw [role_withRole] at hrole
    exact absurd hrole (not_arguments_of_hidden hgood (shape_of_isRegular hgood hshape (by simp)))
  token hgood hshape := by
    refine ⟨.leaf _ _ fun hkind => ?_, fun _ => rfl⟩
    subst hkind
    exact absurd (shape_of_isRegular hgood hshape (by simp)) (shapesOf_token d _)
  leaf hgood hshape h := by
    refine ⟨.leaf _ _ fun hkind => ?_, fun _ => rfl⟩
    subst hkind
    exact isQuoted_of_holds (eq_stringText (shape_of_isRegular hgood hshape (by simp))) h
  node hgood hshape h htrees := by
    have hown := shape_of_isRegular hgood hshape (by simp)
    have hall := htrees fun ps q hps hq step hstep => isRegular_step hps hq hstep
    refine ⟨.node _ _ (fun tree htree => (hall tree htree).1) (fun hkind hsource => ?_)
      fun tree htree => (hall tree htree).2, fun hrole => ?_⟩
    · subst hkind
      exact importsInAll_of_source (eq_exportStatement hown) h hsource
    · obtain rfl : _ = some Role.arguments := hrole
      exact isArguments_node hgood hown _ _

end

/-! ### Texts -/

theorem isFor_reader (d : Dialect) : d.reader.table.IsFor (grammar d).productions := by
  exact Grammar.isFor_table (grammar d)

/-- The trees of a text that is read are sound. Little has to be known of the reader, which is therefore left open. -/
theorem isSound_of_trees {l : Grammar.Reader} (ht : l.table.IsFor (grammar d).productions)
    (hscan : l.Scans (FitsMark (grammar d).tokenList)) (hshapes : l.shapes = shapesOf d)
    (h : l.trees text = .ok trees) : ∀ tree ∈ trees, IsSound tree := by
  unfold Grammar.Reader.trees at h
  split at h
  · next e hread =>
    obtain rfl := Except.ok.inj h
    have hwhole := Grammar.Reader.read_whole ht hscan hread
    cases e with
    | token => exact hwhole.elim
    | phrase item number gap size weight parts =>
      obtain ⟨hall, ps, hps, q, hq, hlabels, hsymbols⟩ := hwhole
      obtain ⟨n, hn⟩ := mem_iff_getElem?.1 hps
      dsimp only [Derivation.children]
      rw [hshapes, hlabels]
      exact fun tree htree => (carries_isSound.forall_treesOf_of_isPrefix isRegular_none hall hsymbols
        (fun step => isRegular_step hn hq) tree htree).1
  · cases h

theorem isSound_trees (h : d.reader.trees text = .ok trees) : ∀ tree ∈ trees, IsSound tree :=
  isSound_of_trees (isFor_reader d) (scans_reader d) (shapes_reader d) h

end Cartograph.TypeScript
