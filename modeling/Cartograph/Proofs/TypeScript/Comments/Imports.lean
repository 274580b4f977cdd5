import Cartograph.TypeScript.Reader
import Cartograph.Proofs.Source.Plain

/-!
# Comments and imports

A reader that looks for the first tree that is more than a mark, or for anything that is no entry of a list, meets a
comment instead in two places:

* the first argument of `import(…)` or `require(…)` is not seen behind a comment (`hidesArgument`);
* a clause whose entries are all marked as types is no longer one with a comment among them (`hidesTypes`).

Everywhere else comments change nothing, and in these places they always do (`shows_importsInAll`). No node has more
imports with comments than without, so what one node loses no other can make up for.
-/

namespace Cartograph

open List

/-- The module that an import names, and how. -/
def Import.reference (i : Import) : String × ImportKind := (i.specifier, i.kind)

namespace TypeScript

open Source.Tree
open Source (Tree Role Kind)

variable {trees : List Tree}

/-- The modules that imports name. -/
def references (imports : List Import) : List (String × ImportKind) := imports.map Import.reference

@[simp] theorem references_append (a b : List Import) : references (a ++ b) = references a ++ references b :=
  map_append

/-! ### Strings, marks and clauses -/

/-- The module that a string names. -/
def specifierOf? : Tree → Option String
  | .leaf .string _ text _ => some (unquoted text)
  | _ => none

/-- A comment stands right in a clause. -/
def isInterrupted (clause : Kind) (trees : List Tree) : Bool :=
  (trees.find? (·.isNode clause)).any (·.children.any isAside)

/-- A statement imports types only because of the entries of its clause, and a comment stands among them. -/
def hidesTypes (clause specifier : Kind) (trees : List Tree) : Bool :=
  ((inRole? .source trees).bind specifierOf?).isSome && !hasMark "type" trees &&
    (allTyped clause specifier (plainAll trees) && isInterrupted clause trees)

/-- A call imports a module, and a comment stands before the argument that names it. -/
def hidesArgument (trees : List Tree) : Bool :=
  !(callImports (plainAll trees)).isEmpty &&
    (inRole? .arguments trees).any fun arguments => (arguments.children.find? isNamed).any isAside

theorem hasMark_plainAll (text : String) (trees : List Tree) : hasMark text (plainAll trees) = hasMark text trees :=
  (ignoresAsides_isMark text.toList).any_plainAll trees

theorem specifierOf?_plain (t : Tree) : specifierOf? t.plain = specifierOf? t := by
  cases t with
  | leaf leaf => cases leaf <;> rfl
  | node => rfl

theorem map_reference_importOf? (kind : ImportKind) (t : Tree) :
    (importOf? kind t).map Import.reference = (specifierOf? t).map (·, kind) := by
  cases t with
  | leaf leaf => cases leaf <;> rfl
  | node => rfl

theorem map_reference_importOf?_plain (kind : ImportKind) (t : Tree) :
    (importOf? kind t.plain).map Import.reference = (importOf? kind t).map Import.reference := by
  rw [map_reference_importOf?, map_reference_importOf?, specifierOf?_plain]

theorem references_toList (i : Option Import) : references i.toList = (i.map Import.reference).toList :=
  Option.toList_map.symm

theorem importOf?_of_isAside (kind : ImportKind) {t : Tree} (h : t.isAside = true) : importOf? kind t = none := by
  obtain ⟨text, p, rfl⟩ := eq_of_isAside h
  rfl

theorem calleeKind?_plain (t : Tree) : calleeKind? t.plain = calleeKind? t := by
  cases t with
  | leaf leaf => cases leaf <;> rfl
  | node => rfl

section Clauses

variable (specifier : Kind) {trees : List Tree}

theorem specifiersOf?_of_isAside (h : trees.any isAside = true) : specifiersOf? specifier trees = none := by
  induction trees with
  | nil => cases h
  | cons t rest ih =>
    rw [any_cons, Bool.or_eq_true] at h
    obtain h | h := h
    · obtain ⟨text, p, rfl⟩ := eq_of_isAside h
      rfl
    · unfold specifiersOf?
      rw [ih h]
      split
      · rfl
      · split
        · rfl
        · split <;> rfl

theorem specifiersOf?_plainAll (h : trees.any isAside = false) :
    specifiersOf? specifier (plainAll trees) = (specifiersOf? specifier trees).map (map plain) := by
  induction trees with
  | nil => rfl
  | cons t rest ih =>
    rw [any_cons, Bool.or_eq_false_iff] at h
    rw [plainAll_cons h.1]
    unfold specifiersOf?
    rw [ih h.2, isNode_plain, isNode_plain, isNamed_plain, children_plain,
      (ignoresAsides_isNode specifier).filter_plainAll]
    split
    · cases specifiersOf? specifier rest <;> simp
    · split
      · cases specifiersOf? specifier rest <;> rfl
      · split <;> rfl

/-- **The entries of a clause are all types** if they are so without comments, and no comment stands among them. -/
theorem allTyped_eq (clause : Kind) (trees : List Tree) :
    allTyped clause specifier trees =
      (allTyped clause specifier (plainAll trees) && !isInterrupted clause trees) := by
  unfold allTyped isInterrupted
  rw [(ignoresAsides_isNode clause).find?_plainAll]
  cases trees.find? (·.isNode clause) with
  | none => rfl
  | some t =>
    simp only [Option.map_some, Option.any_some, children_plain]
    cases haside : t.children.any isAside with
    | true => simp [specifiersOf?_of_isAside specifier haside]
    | false =>
      rw [specifiersOf?_plainAll specifier haside]
      cases specifiersOf? specifier t.children with
      | none => rfl
      | some specifiers => simp [hasMark_plainAll, Function.comp_def]

end Clauses

/-! ### Imports of all nodes -/

/-- Imports with comments against those without: there are no more of them, and they are the same exactly if no
comment hides one. -/
structure Shows (hidden : Bool) (a b : List (String × ImportKind)) : Prop where
  length_le : a.length ≤ b.length
  eq_iff : a = b ↔ hidden = false

namespace Shows

variable {hidden hidden' : Bool} {a a' b b' : List (String × ImportKind)}

theorem of_eq (h : a = b) : Shows false a b := ⟨Nat.le_of_eq (congrArg length h), iff_of_true h rfl⟩

/-- Lists that follow each other are the same only if each of them is, because neither can make up for the other. -/
theorem append (h : Shows hidden a b) (h' : Shows hidden' a' b') : Shows (hidden || hidden') (a ++ a') (b ++ b') := by
  refine ⟨?_, ?_⟩
  · rw [length_append, length_append]
    exact Nat.add_le_add h.length_le h'.length_le
  · rw [Bool.or_eq_false_iff, ← h.eq_iff, ← h'.eq_iff]
    constructor
    · intro heq
      -- neither part is longer with comments, so both are as long as without
      have hlength := congrArg length heq
      rw [length_append, length_append] at hlength
      have hle := h.length_le
      have hle' := h'.length_le
      exact append_inj heq (by omega)
    · rintro ⟨rfl, rfl⟩
      rfl

end Shows

theorem hidesTypes_of_source {clause specifier : Kind} (h : inRole? .source trees = none) :
    hidesTypes clause specifier trees = false := by
  rw [hidesTypes, h]
  rfl

theorem shows_statement {fallback : ImportKind} (hfallback : fallback ≠ .typeOnly) (clause specifier : Kind)
    {source : Tree} (hsource : inRole? .source trees = some source) :
    Shows (hidesTypes clause specifier trees)
      (references (importOf? (if hasMark "type" trees || allTyped clause specifier trees then .typeOnly else fallback)
        source).toList)
      (references (importOf? (if hasMark "type" (plainAll trees) || allTyped clause specifier (plainAll trees) then
        .typeOnly else fallback) source.plain).toList) := by
  rw [references_toList, references_toList, map_reference_importOf?, map_reference_importOf?, specifierOf?_plain,
    hasMark_plainAll, allTyped_eq specifier clause trees, hidesTypes, hsource, Option.bind_some]
  generalize hasMark "type" trees = typeOnly
  generalize allTyped clause specifier (plainAll trees) = typed
  generalize isInterrupted clause trees = interrupted
  cases specifierOf? source with
  | none => exact .of_eq rfl
  | some text =>
    refine ⟨Nat.le_refl 1, ?_⟩
    -- only the kind can differ, and does so if the entries alone make the statement one for types
    cases typeOnly <;> cases typed <;> cases interrupted <;> simp [hfallback]

theorem shows_importStatement (trees : List Tree) :
    Shows (hidesTypes .importClause .importSpecifier trees) (references (importStatementImports trees))
      (references (importStatementImports (plainAll trees))) := by
  unfold importStatementImports
  rw [inRole?_plainAll]
  cases hsource : inRole? .source trees with
  | some source => exact shows_statement (by decide) _ _ hsource
  | none =>
    rw [hidesTypes_of_source hsource]
    refine .of_eq ?_
    -- `import x = require("y")`: the source is a part of the clause, and found there by its role
    dsimp only [Option.map_none]
    rw [hasMark_plainAll, (ignoresAsides_isNode .importRequire).filter_plainAll, filterMap_map, references,
      references, map_filterMap, map_filterMap]
    congr 1
    funext clause
    rw [Function.comp_apply, children_plain, inRole?_plainAll]
    cases inRole? .source clause.children with
    | none => rfl
    | some source => exact (map_reference_importOf?_plain _ source).symm

theorem shows_exportStatement (trees : List Tree) :
    Shows (hidesTypes .exportClause .exportSpecifier trees) (references (exportStatementImports trees))
      (references (exportStatementImports (plainAll trees))) := by
  unfold exportStatementImports
  rw [inRole?_plainAll]
  cases hsource : inRole? .source trees with
  | some source => exact shows_statement (by decide) _ _ hsource
  | none =>
    rw [hidesTypes_of_source hsource]
    exact .of_eq rfl

theorem shows_call (trees : List Tree) :
    Shows (hidesArgument trees) (references (callImports trees)) (references (callImports (plainAll trees))) := by
  have hcallee : (inRole? .callee (plainAll trees)).bind calleeKind? = (inRole? .callee trees).bind calleeKind? := by
    rw [inRole?_plainAll]
    cases inRole? .callee trees with
    | none => rfl
    | some callee => exact calleeKind?_plain callee
  unfold hidesArgument callImports
  rw [hcallee, inRole?_plainAll]
  cases (inRole? .callee trees).bind calleeKind? with
  | none => exact .of_eq rfl
  | some kind =>
    cases inRole? .arguments trees with
    | none => exact .of_eq rfl
    | some arguments =>
      dsimp only [Option.map_some, Option.any_some]
      rw [children_plain]
      cases hfirst : (arguments.children.find? isNamed).any isAside with
      | true =>
        -- the comment is taken for the argument, and names no module
        rw [Option.any_eq_true] at hfirst
        obtain ⟨comment, hcomment, haside⟩ := hfirst
        rw [hcomment, Option.bind_some, importOf?_of_isAside kind haside]
        refine ⟨Nat.zero_le _, ?_⟩
        cases ((plainAll arguments.children).find? isNamed).bind (importOf? kind) <;> simp [references]
      | false =>
        rw [Bool.and_false, find?_isNamed_plainAll hfirst, references_toList, references_toList]
        refine .of_eq ?_
        cases arguments.children.find? isNamed with
        | none => rfl
        | some argument => exact (congrArg _ (map_reference_importOf?_plain kind argument)).symm

/-- The imports that a node makes itself. -/
def ownImports : Kind → List Tree → List Import
  | .importStatement, trees => importStatementImports trees
  | .exportStatement, trees => exportStatementImports trees
  | .call, trees => callImports trees
  | _, _ => []

/-- A comment hides an import that a node makes itself. -/
def hidesOwn : Kind → List Tree → Bool
  | .importStatement, trees => hidesTypes .importClause .importSpecifier trees
  | .exportStatement, trees => hidesTypes .exportClause .exportSpecifier trees
  | .call, trees => hidesArgument trees
  | _, _ => false

mutual

/-- A comment hides an import in a tree. Import statements are not searched further. -/
def hidesImport : Tree → Bool
  | .leaf _ _ _ _ => false
  | .node kind _ trees => hidesOwn kind trees || (kind != .importStatement && hidesImportAny trees)

/-- A comment hides an import in one of several trees. -/
def hidesImportAny : List Tree → Bool
  | [] => false
  | t :: ts => hidesImport t || hidesImportAny ts

end

theorem shows_ownImports (kind : Kind) (trees : List Tree) :
    Shows (hidesOwn kind trees) (references (ownImports kind trees))
      (references (ownImports kind (plainAll trees))) := by
  unfold hidesOwn ownImports
  split
  · exact shows_importStatement trees
  · exact shows_exportStatement trees
  · exact shows_call trees
  · exact .of_eq rfl

theorem importsIn_node (kind : Kind) (role : Option Role) (trees : List Tree) :
    importsIn (.node kind role trees) =
      ownImports kind trees ++ if kind = .importStatement then [] else importsInAll trees := by
  cases kind <;> simp [importsIn, ownImports]

mutual

/-- **Imports in a tree** are the same with and without comments exactly if no comment hides one. -/
theorem shows_importsIn : ∀ t : Tree,
    Shows (hidesImport t) (references (importsIn t)) (references (importsIn t.plain))
  | .leaf _ _ _ _ => .of_eq rfl
  | .node kind role trees => by
    rw [plain, importsIn_node, importsIn_node, references_append, references_append, hidesImport]
    refine (shows_ownImports kind trees).append ?_
    -- an import statement is not searched, so what stands in it hides nothing more
    by_cases hkind : kind = .importStatement
    · subst hkind
      exact .of_eq rfl
    · rw [if_neg hkind, if_neg hkind, bne_iff_ne.2 hkind, Bool.true_and]
      exact shows_importsInAll trees

theorem shows_importsInAll : ∀ ts : List Tree,
    Shows (hidesImportAny ts) (references (importsInAll ts)) (references (importsInAll (plainAll ts)))
  | [] => .of_eq rfl
  | t :: ts => by
    rw [hidesImportAny, importsInAll, references_append]
    cases haside : t.isAside with
    | true =>
      rw [plainAll_cons_of_isAside haside]
      obtain ⟨text, p, rfl⟩ := eq_of_isAside haside
      exact shows_importsInAll ts
    | false =>
      rw [plainAll_cons haside, importsInAll, references_append]
      exact (shows_importsIn t).append (shows_importsInAll ts)

end

end TypeScript

end Cartograph
