import Cartograph.Proofs.TypeScript.Comments.Imports

/-!
# Comments and exported names

What comments change in the names that a module exports. There are two places again where a comment is taken for
something else:

* in `export * as …` a comment before the name is taken for the name (`hidesName`);
* in `export declare …` a comment is taken for a declaration without a name (`hidesDeclaration`).

Everywhere else comments change nothing (`exportsOf_plainAll`). No step of collecting names takes a name back
(`Exports.Le`), so what a comment adds stays: its text is one of the names (`holds_exportsOf`), or all names are unknown
(`exportsOf_of_hides`).
-/

namespace Cartograph

open Exports List

namespace Exports

variable {a b c : Exports}

/-- Exports that say no less: any names may be among unknown ones. -/
def Le : Exports → Exports → Prop
  | _, unknown => True
  | known a, known b => ∀ name ∈ a.toList, name ∈ b.toList
  | unknown, known _ => False

/-- A name is among the exports, as far as they are known. -/
def Holds (name : String) : Exports → Prop
  | known names => name ∈ names.toList
  | unknown => True

theorem Le.refl : ∀ e : Exports, Le e e
  | known _ => fun _ h => h
  | unknown => trivial

theorem Le.trans (h : Le a b) (h' : Le b c) : Le a c := by
  cases c with
  | unknown => exact trivial
  | known c =>
    cases b with
    | unknown => exact h'.elim
    | known b =>
      cases a with
      | unknown => exact h.elim
      | known a => exact fun name hname => h' name (h name hname)

theorem le_unknown : ∀ e : Exports, Le e unknown
  | known _ => trivial
  | unknown => trivial

theorem le_insert (name : String) : ∀ e : Exports, Le e (e.insert name)
  | known _ => fun _ h => Names.mem_insertInto.2 (.inr h)
  | unknown => trivial

theorem eq_unknown_of_le : ∀ {e : Exports}, Le unknown e → e = unknown
  | known _, h => h.elim
  | unknown, _ => rfl

theorem holds_insert (name : String) : ∀ e : Exports, (e.insert name).Holds name
  | known _ => Names.mem_insertInto.2 (.inl rfl)
  | unknown => trivial

theorem Holds.of_le {name : String} (h : a.Holds name) (hle : Le a b) : b.Holds name := by
  cases b with
  | unknown => exact trivial
  | known b =>
    cases a with
    | unknown => exact hle.elim
    | known a => exact hle name h

end Exports

namespace TypeScript

open Source.Tree
open Source (Tree Role Kind)
open Exports (Le)

/-! ### Names are never taken back -/

variable {f : Exports → Tree → Exports}

theorem le_foldl (hf : ∀ e t, Le e (f e t)) (ts : List Tree) (e : Exports) : Le e (ts.foldl f e) := by
  induction ts generalizing e with
  | nil => exact .refl e
  | cons t ts ih => exact (hf e t).trans (ih (f e t))

theorem le_insertName (e : Exports) (t : Tree) : Le e (insertName e t) := by
  cases t with
  | leaf => exact le_insert _ e
  | node => exact .refl e

theorem le_declaratorNames (e : Exports) (t : Tree) : Le e (declaratorNames e t) := by
  unfold declaratorNames
  split
  · exact le_insert _ e
  · exact le_unknown e

theorem le_specifierNames (e : Exports) (t : Tree) : Le e (specifierNames e t) := by
  unfold specifierNames
  split
  · exact le_insertName e _
  · exact .refl e

mutual

theorem le_declarationNames : ∀ (t : Tree) (e : Exports), Le e (declarationNames e t)
  | .leaf _ _ _ _, e => le_unknown e
  | .node kind role trees, e => by
    cases kind with
    | variableDeclaration => exact le_foldl le_declaratorNames _ e
    | ambientDeclaration => exact le_ambientNames trees e
    | _ =>
      unfold declarationNames
      split
      · exact le_insertName e _
      · exact le_unknown e

theorem le_ambientNames : ∀ (ts : List Tree) (e : Exports), Le e (declarationNames.ambientNames e ts)
  | [], e => .refl e
  | t :: ts, e => by
    rw [declarationNames.ambientNames]
    split
    · exact (le_declarationNames t e).trans (le_ambientNames ts _)
    · exact le_ambientNames ts e

end

theorem le_exportPart (e : Exports) (t : Tree) : Le e (exportPart e t) := by
  unfold exportPart
  split
  · split
    · exact le_unknown e
    · exact .refl e
  · split
    · exact le_insertName e _
    · exact .refl e
  · exact le_foldl le_specifierNames _ e
  · exact .refl e

theorem le_exportStatementNames (e : Exports) (parts : List Tree) : Le e (exportStatementNames e parts) := by
  unfold exportStatementNames
  split
  · exact le_insert _ e
  · split
    · exact le_unknown e
    · split
      · exact le_declarationNames _ e
      · exact le_foldl le_exportPart parts e

variable {trees parts children : List Tree} {role role' : Option Role} {t : Tree}

/-- What one statement adds is in the exports of the module. -/
theorem exists_le_exportsOf (hmem : .node .exportStatement role parts ∈ trees) :
    ∃ e, Le (exportStatementNames e parts) (exportsOf trees) := by
  obtain ⟨before, behind, rfl⟩ := append_of_mem hmem
  unfold exportsOf
  rw [foldl_append]
  refine ⟨_, le_foldl (fun e t => ?_) behind _⟩
  split
  · exact le_exportStatementNames e _
  · exact .refl e

/-! ### Declarations -/

mutual

/-- A comment stands in an ambient declaration, or in one in it. -/
def hidesDeclaration : Tree → Bool
  | .node .ambientDeclaration _ trees => hidesDeclarationAny trees
  | _ => false

/-- One of several trees is a comment, or has one in an ambient declaration. -/
def hidesDeclarationAny : List Tree → Bool
  | [] => false
  | t :: ts => t.isAside || hidesDeclaration t || hidesDeclarationAny ts

end

theorem insertName_plain (e : Exports) (t : Tree) : insertName e t.plain = insertName e t := by
  cases t <;> rfl

theorem declaratorNames_plain (e : Exports) (t : Tree) : declaratorNames e t.plain = declaratorNames e t := by
  unfold declaratorNames
  rw [children_plain, inRole?_plainAll]
  cases inRole? .name t.children with
  | none => rfl
  | some name =>
    cases name with
    | leaf leaf => cases leaf <;> rfl
    | node => rfl

theorem specifierNames_plain (e : Exports) (t : Tree) : specifierNames e t.plain = specifierNames e t := by
  unfold specifierNames
  rw [children_plain, inRole?_plainAll, inRole?_plainAll, ← Option.map_or]
  cases (inRole? .newName t.children).or (inRole? .name t.children) with
  | none => rfl
  | some name => exact insertName_plain e name

/-- Walking over the nodes of one kind finds the same nodes without comments. -/
theorem foldl_filter_plainAll (hplain : ∀ e t, f e t.plain = f e t) (kind : Kind) (trees : List Tree) (e : Exports) :
    ((plainAll trees).filter (·.isNode kind)).foldl f e = (trees.filter (·.isNode kind)).foldl f e := by
  rw [(ignoresAsides_isNode kind).filter_plainAll, foldl_map]
  congr 1
  funext e t
  exact hplain e t

theorem named_plainAll (e : Exports) (trees : List Tree) :
    (match inRole? .name (plainAll trees) with
      | some name => insertName e name
      | none => .unknown) =
      match inRole? .name trees with
      | some name => insertName e name
      | none => .unknown := by
  rw [inRole?_plainAll]
  cases inRole? .name trees with
  | none => rfl
  | some name => exact insertName_plain e name

mutual

theorem declarationNames_plain : ∀ (t : Tree) (e : Exports), hidesDeclaration t = false →
    declarationNames e t.plain = declarationNames e t
  | .leaf _ _ _ _, _, _ => rfl
  | .node kind role trees, e, h => by
    cases kind with
    | variableDeclaration => exact foldl_filter_plainAll declaratorNames_plain .variableDeclarator trees e
    | ambientDeclaration => exact ambientNames_plain trees e h
    | _ => exact named_plainAll e trees

theorem ambientNames_plain : ∀ (ts : List Tree) (e : Exports), hidesDeclarationAny ts = false →
    declarationNames.ambientNames e (plainAll ts) = declarationNames.ambientNames e ts
  | [], _, _ => rfl
  | t :: ts, e, h => by
    rw [hidesDeclarationAny, Bool.or_eq_false_iff, Bool.or_eq_false_iff] at h
    obtain ⟨⟨haside, hdeclaration⟩, hrest⟩ := h
    rw [plainAll_cons haside, declarationNames.ambientNames, declarationNames.ambientNames, isNamed_plain,
      declarationNames_plain t e hdeclaration]
    split
    · exact ambientNames_plain ts _ hrest
    · exact ambientNames_plain ts _ hrest

end

mutual

/-- A comment in an ambient declaration is taken for a declaration without a name. -/
theorem declarationNames_of_hides : ∀ (t : Tree) (e : Exports), hidesDeclaration t = true →
    declarationNames e t = .unknown
  | .leaf _ _ _ _, _, h => by cases h
  | .node kind role trees, e, h => by
    cases kind with
    | ambientDeclaration => exact ambientNames_of_hides trees e h
    | _ => cases h

theorem ambientNames_of_hides : ∀ (ts : List Tree) (e : Exports), hidesDeclarationAny ts = true →
    declarationNames.ambientNames e ts = .unknown
  | [], _, h => by cases h
  | t :: ts, e, h => by
    rw [hidesDeclarationAny, Bool.or_eq_true, Bool.or_eq_true] at h
    rw [declarationNames.ambientNames]
    obtain (haside | hdeclaration) | hrest := h
    · -- the comment itself: a leaf declares nothing that could be known
      rw [if_pos (isNamed_of_isAside haside)]
      obtain ⟨text, p, rfl⟩ := eq_of_isAside haside
      exact eq_unknown_of_le (le_ambientNames ts .unknown)
    · have hnamed : t.isNamed = true := by
        cases t with
        | leaf => cases hdeclaration
        | node => rfl
      rw [if_pos hnamed, declarationNames_of_hides t e hdeclaration]
      exact eq_unknown_of_le (le_ambientNames ts .unknown)
    · split
      · exact ambientNames_of_hides ts _ hrest
      · exact ambientNames_of_hides ts _ hrest

end

/-! ### Export statements -/

/-- An export statement names what it exports part by part: it has no default, no assigned value and no
declaration. -/
def isListing (parts : List Tree) : Bool :=
  !hasMark "default" parts && !hasMark "=" parts && (inRole? .declaration parts).isNone

/-- A comment stands before the name of a namespace. -/
def hidesName : Tree → Bool
  | .node .namespaceExport _ trees => (trees.find? isNamed).any isAside
  | _ => false

/-- An export statement declares names, and a comment is taken for one of the declarations. -/
def hidesDeclared (parts : List Tree) : Bool :=
  !hasMark "default" parts && (inRole? .declaration parts).any hidesDeclaration

/-- A comment hides a name that a statement exports. -/
def hidesExport : Tree → Bool
  | .node .exportStatement _ parts => hidesDeclared parts || (isListing parts && parts.any hidesName)
  | _ => false

theorem exportPart_of_isAside (e : Exports) (h : t.isAside = true) : exportPart e t = e := by
  obtain ⟨text, p, rfl⟩ := eq_of_isAside h
  rfl

theorem exportPart_plain (h : hidesName t = false) (e : Exports) : exportPart e t.plain = exportPart e t := by
  cases t with
  | leaf leaf => cases leaf <;> rfl
  | node kind role trees =>
    cases kind with
    | namespaceExport =>
      rw [plain]
      unfold exportPart
      dsimp only
      rw [find?_isNamed_plainAll h]
      cases trees.find? isNamed with
      | none => rfl
      | some name => exact insertName_plain e name
    | exportClause => exact foldl_filter_plainAll specifierNames_plain .exportSpecifier trees e
    | _ => rfl

theorem exportStatementNames_of_isListing (h : isListing parts = true) (e : Exports) :
    exportStatementNames e parts = parts.foldl exportPart e := by
  rw [isListing, Bool.and_eq_true, Bool.and_eq_true, Bool.not_eq_true', Bool.not_eq_true',
    Option.isNone_iff_eq_none] at h
  obtain ⟨⟨hdefault, hvalue⟩, hdeclaration⟩ := h
  unfold exportStatementNames
  rw [hdefault, hvalue, hdeclaration]
  rfl

theorem isListing_plainAll (parts : List Tree) : isListing (plainAll parts) = isListing parts := by
  rw [isListing, isListing, hasMark_plainAll, hasMark_plainAll, inRole?_plainAll, Option.isNone_map]

theorem exportStatementNames_plainAll (hdeclared : hidesDeclared parts = false)
    (hname : (isListing parts && parts.any hidesName) = false) (e : Exports) :
    exportStatementNames e (plainAll parts) = exportStatementNames e parts := by
  cases hlisting : isListing parts with
  | true =>
    rw [hlisting, Bool.true_and, any_eq_false] at hname
    rw [exportStatementNames_of_isListing hlisting,
      exportStatementNames_of_isListing ((isListing_plainAll parts).trans hlisting)]
    refine foldl_plainAll (fun e t => exportPart_of_isAside e) (fun t ht => exportPart_plain ?_) e
    rw [← Bool.not_eq_true]
    exact hname t ht
  | false =>
    -- a default, an assigned value or a declaration decides alone, the parts are not looked at
    unfold exportStatementNames
    rw [hasMark_plainAll, hasMark_plainAll, inRole?_plainAll]
    unfold hidesDeclared at hdeclared
    unfold isListing at hlisting
    cases hdefault : hasMark "default" parts with
    | true => rfl
    | false =>
      rw [hdefault] at hdeclared hlisting
      cases hvalue : hasMark "=" parts with
      | true => rfl
      | false =>
        rw [hvalue] at hlisting
        cases hdeclaration : inRole? .declaration parts with
        | none => rw [hdeclaration] at hlisting; cases hlisting
        | some declaration =>
          rw [hdeclaration] at hdeclared
          exact declarationNames_plain declaration e hdeclared

/-- **Exported names** are the same with and without comments, if no comment hides one. -/
theorem exportsOf_plainAll (h : trees.any hidesExport = false) : exportsOf (plainAll trees) = exportsOf trees := by
  refine foldl_plainAll (fun e t haside => ?_) (fun t ht e => ?_) empty
  · obtain ⟨text, p, rfl⟩ := eq_of_isAside haside
    rfl
  · have hexport := any_eq_false.1 h t ht
    cases t with
    | leaf => rfl
    | node kind role parts =>
      cases kind with
      | exportStatement =>
        rw [hidesExport, Bool.not_eq_true, Bool.or_eq_false_iff] at hexport
        exact exportStatementNames_plainAll hexport.1 hexport.2 e
      | _ => rfl

/-- A comment in an exported ambient declaration makes the names of the whole module unknown. -/
theorem exportsOf_of_hides (hmem : .node .exportStatement role parts ∈ trees) (h : hidesDeclared parts = true) :
    exportsOf trees = .unknown := by
  rw [hidesDeclared, Bool.and_eq_true, Bool.not_eq_true', Option.any_eq_true] at h
  obtain ⟨hdefault, declaration, hdeclaration, hides⟩ := h
  obtain ⟨e, hle⟩ := exists_le_exportsOf hmem
  have hunknown : exportStatementNames e parts = .unknown := by
    unfold exportStatementNames
    rw [if_neg (by simp [hdefault]), hdeclaration]
    split
    · rfl
    · exact declarationNames_of_hides declaration e hides
  rw [hunknown] at hle
  exact eq_unknown_of_le hle

/-- A comment before the name of an exported namespace is itself one of the names. -/
theorem holds_exportsOf {text : List Char} {p : Source.Position}
    (hmem : .node .exportStatement role parts ∈ trees) (hlisting : isListing parts = true)
    (hpart : .node .namespaceExport role' children ∈ parts)
    (hfirst : children.find? isNamed = some (.leaf .comment none text p)) :
    (exportsOf trees).Holds (nameText text) := by
  obtain ⟨e, hle⟩ := exists_le_exportsOf hmem
  refine Holds.of_le ?_ hle
  rw [exportStatementNames_of_isListing hlisting]
  -- the comment is inserted at its part, and the parts behind it take nothing back
  obtain ⟨before, behind, rfl⟩ := append_of_mem hpart
  rw [foldl_append]
  refine Holds.of_le ?_ (le_foldl le_exportPart behind _)
  unfold exportPart
  dsimp only
  rw [hfirst]
  exact holds_insert _ _

end TypeScript

end Cartograph
