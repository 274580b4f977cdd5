import Cartograph.Proofs.TypeScript.Comments.Exports

/-!
# Comments in modules

What a comment between two pieces of a text changes in the module that is read. Whether a module only exports from
others never depends on comments. Its imports and its names do in four places and only there (`moduleOf_commented`):
before the first argument of `import(…)` or `require(…)`, among entries that are all marked as types, before the name in
`export * as …`, and in `export declare …`.

This is about comments that are trees of their own. Inside a dotted name a comment is part of the name's text, and what
is a comment for a reader can depend on what stands before it: in `a / b` one right behind the slash starts with `//`.
-/

namespace Cartograph.TypeScript

open Source.Tree
open Source (Tree Role)

variable {trees : List Tree}

theorem isReexport_plain (t : Tree) : isReexport t.plain = isReexport t := by
  cases t with
  | leaf => rfl
  | node kind role trees =>
    cases kind with
    | exportStatement =>
      rw [plain]
      unfold isReexport
      dsimp only
      rw [inRole?_plainAll, Option.isSome_map]
    | _ => rfl

theorem reexportOnly_plainAll (trees : List Tree) :
    (moduleOf (plainAll trees)).reexportOnly = (moduleOf trees).reexportOnly := by
  have hown : IgnoresAsides fun t => t.isNamed && !t.isComment := by
    refine .intro (fun t h => ?_) fun t => by rw [isNamed_plain, isComment_plain]
    obtain ⟨text, p, rfl⟩ := eq_of_isAside h
    rfl
  unfold moduleOf
  dsimp only
  rw [hown.filter_plainAll, List.isEmpty_map, List.all_map]
  congr 2
  funext t
  exact isReexport_plain t

/-- No comment hides an import or an exported name. -/
structure IsClear (trees : List Tree) : Prop where
  imports : hidesImportAny trees = false
  exports : trees.any hidesExport = false

/-- Two modules say the same, wherever their imports stand. -/
structure Agrees (m m' : Module) : Prop where
  imports : references m.imports = references m'.imports
  exports : m.exports = m'.exports
  reexportOnly : m.reexportOnly = m'.reexportOnly

theorem IsClear.agrees_plainAll (h : IsClear trees) : Agrees (moduleOf trees) (moduleOf (plainAll trees)) where
  imports := (shows_importsInAll trees).eq_iff.2 h.imports
  exports := (exportsOf_plainAll h.exports).symm
  reexportOnly := (reexportOnly_plainAll trees).symm

theorem Agrees.symm {m m' : Module} (h : Agrees m m') : Agrees m' m :=
  ⟨h.imports.symm, h.exports.symm, h.reexportOnly.symm⟩

theorem Agrees.trans {m m' m'' : Module} (h : Agrees m m') (h' : Agrees m' m'') : Agrees m m'' :=
  ⟨h.imports.trans h'.imports, h.exports.trans h'.exports, h.reexportOnly.trans h'.reexportOnly⟩

theorem readModule_of_trees {path source : String}
    (h : (readerFor path).trees source.toList = .ok trees) : readModule path source = .ok (moduleOf trees) := by
  unfold readModule
  rw [h]

/-- **Comments in modules.** A text is read again with more comments in it, and its trees are the same but for the
comments and the places of their pieces. The module says the same if no comment hides an import or an exported name.
The references are the same only if no comment hides an import, and whether the module only exports from others never
changes. A comment that is taken for a declaration makes the exports unknown, and one that is taken for a name is
exported. -/
theorem moduleOf_commented {trees trees' : List Tree} (halike : plainAll trees' = plainAll trees)
    (hclear : IsClear trees) :
    (IsClear trees' → ∀ path source source' : String,
      (readerFor path).trees source.toList = .ok trees → (readerFor path).trees source'.toList = .ok trees' →
        ∃ m m', readModule path source = .ok m ∧ readModule path source' = .ok m' ∧ Agrees m' m) ∧
      (references (moduleOf trees').imports = references (moduleOf trees).imports ↔ hidesImportAny trees' = false) ∧
      (trees'.any hidesExport = false → (moduleOf trees').exports = (moduleOf trees).exports) ∧
      (∀ role parts, .node .exportStatement role parts ∈ trees' → hidesDeclared parts = true →
        (moduleOf trees').exports = .unknown) ∧
      (∀ role parts role' children text p, .node .exportStatement role parts ∈ trees' → isListing parts = true →
        .node .namespaceExport role' children ∈ parts →
          children.find? isNamed = some (.leaf .comment none text p) →
            (moduleOf trees').exports.Holds (nameText text)) ∧
      (moduleOf trees').reexportOnly = (moduleOf trees).reexportOnly := by
  -- both texts are compared with the one module that their plain trees describe
  have hplain : Agrees (moduleOf (plainAll trees')) (moduleOf trees) := halike ▸ hclear.agrees_plainAll.symm
  refine ⟨?_, ?_, ?_, ?_, ?_, ?_⟩
  · intro hclear' path source source' hsource hsource'
    refine ⟨_, _, readModule_of_trees hsource, readModule_of_trees hsource', ?_⟩
    exact hclear'.agrees_plainAll.trans hplain
  · rw [← hplain.imports]
    exact (shows_importsInAll trees').eq_iff
  · intro hexports
    rw [← hplain.exports]
    exact (exportsOf_plainAll hexports).symm
  · exact fun role parts => exportsOf_of_hides
  · exact fun role parts role' children text p => holds_exportsOf
  · rw [← hplain.reexportOnly]
    exact (reexportOnly_plainAll trees').symm

/-! ### Small modules -/

/-- A piece of a small text. -/
def piece (kind : Source.Leaf) (role : Option Role) (text : String) : Tree := .leaf kind role text.toList .start

/-- A comment between two pieces. -/
def comment : Tree := piece .comment none "/* c */"

/-- `export { type A } from "x"; import("y");` with trees between its pieces, where they hide nothing. -/
def reexporting (c : List Tree) : List Tree :=
  c ++ [.node .exportStatement none (piece .mark none "export" :: c ++
      .node .exportClause none [piece .mark none "\x7b",
        .node .exportSpecifier none (piece .mark none "type" :: c ++ [piece .word (some .name) "A"]),
        piece .mark none "\x7d"] ::
      c ++ piece .mark none "from" :: c ++ piece .string (some .source) "\"x\"" :: c ++ [piece .mark none ";"])] ++
    c ++ [.node .group none
      [.node .call none (piece .importWord (some .callee) "import" :: c ++
          [.node .arguments (some .arguments)
            (piece .mark none "(" :: piece .string none "\"y\"" :: c ++ [piece .mark none ")"])]),
        piece .mark none ";"]]

/-- Comments in eight places of a module, none of which hides anything. -/
theorem moduleOf_commented_reexporting :
    spells (reexporting [comment]) "/* c */ export /* c */ \x7b type /* c */ A \x7d /* c */ from /* c */ \"x\" /* c */;
      /* c */ import /* c */ (\"y\" /* c */);" = true ∧
      plainAll (reexporting [comment]) = plainAll (reexporting []) ∧ IsClear (reexporting []) ∧
      IsClear (reexporting [comment]) ∧
      references (moduleOf (reexporting [comment])).imports = [("x", .typeOnly), ("y", .dynamic)] ∧
      (moduleOf (reexporting [comment])).exports = .known (Names.empty.insert "A") ∧
      (moduleOf (reexporting [comment])).reexportOnly = false := by
  have halike : plainAll (reexporting [comment]) = plainAll (reexporting []) := rfl
  have hclear : IsClear (reexporting []) := ⟨by decide, by decide⟩
  have hclear' : IsClear (reexporting [comment]) := ⟨by decide, by decide⟩
  obtain ⟨-, himports, hexports, -, -, hbarrel⟩ := moduleOf_commented halike hclear
  refine ⟨by decide +kernel, halike, hclear, hclear', ?_, ?_, ?_⟩
  · decide
  · decide
  · decide

/-- `require("x");` with trees before the argument. -/
def requiring (c : List Tree) : List Tree :=
  [.node .group none
    [.node .call none [piece .word (some .callee) "require",
        .node .arguments (some .arguments)
          (piece .mark none "(" :: c ++ [piece .string none "\"x\"", piece .mark none ")"])],
      piece .mark none ";"]]

/-- An export statement of the given part from a module. -/
def exporting (part : Tree) : List Tree :=
  [.node .exportStatement none [piece .mark none "export", part, piece .mark none "from",
    piece .string (some .source) "\"x\"", piece .mark none ";"]]

/-- `{ type A }` with trees before its entry. -/
def typeList (c : List Tree) : Tree :=
  .node .exportClause none (piece .mark none "\x7b" :: c ++
    [.node .exportSpecifier none [piece .mark none "type", piece .word (some .name) "A"], piece .mark none "\x7d"])

/-- `* as ns` with trees before the name. -/
def namespaceName (c : List Tree) : Tree :=
  .node .namespaceExport none (piece .mark none "*" :: piece .mark none "as" :: c ++ [piece .word none "ns"])

/-- `export declare const v;` with trees before the declaration. -/
def declaring (c : List Tree) : List Tree :=
  [.node .exportStatement none [piece .mark none "export",
    .node .ambientDeclaration (some .declaration) (piece .mark none "declare" :: c ++
      [.node .variableDeclaration none [piece .mark none "const",
        .node .variableDeclarator none [piece .word (some .name) "v"], piece .mark none ";"]])]]

/-- **Comments can change a module.** One before the argument of a call hides the import, one in a list of types
makes it a list of values, one before the name of a namespace becomes the name, and one in an ambient declaration
makes all names unknown. -/
theorem moduleOf_comment_hides :
    (spells (requiring [comment]) "require(/* c */ \"x\");" &&
      spells (exporting (typeList [comment])) "export \x7b /* c */ type A \x7d from \"x\";" &&
      spells (exporting (namespaceName [comment])) "export * as /* c */ ns from \"x\";" &&
      spells (declaring [comment]) "export declare /* c */ const v;") = true ∧
    (references (moduleOf (requiring [])).imports = [("x", .static)] ∧
      references (moduleOf (requiring [comment])).imports = []) ∧
    (references (moduleOf (exporting (typeList []))).imports = [("x", .typeOnly)] ∧
      references (moduleOf (exporting (typeList [comment]))).imports = [("x", .reExport)]) ∧
    ((moduleOf (exporting (namespaceName []))).exports = .known (Names.empty.insert "ns") ∧
      (moduleOf (exporting (namespaceName [comment]))).exports = .known (Names.empty.insert "/* c */")) ∧
    ((moduleOf (declaring [])).exports = .known (Names.empty.insert "v") ∧
      (moduleOf (declaring [comment])).exports = .unknown) := by
  decide

end Cartograph.TypeScript
