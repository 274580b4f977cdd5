import Cartograph.Proofs.TypeScript.Trees

/-!
# Where imports stand

The imports that are read from a text and their positions in it.

* `importsRead_quoted` — each import stands where its specifier does, in quotes, and no two stand at the same place;
* `sorted_importsRead_iff` — imports come in the order of the text unless one stands before the arguments of a call that
  makes another, as in `import<typeof import("a")>("b")`.
-/

namespace Cartograph.TypeScript

open List

open Source (Tree Position Cursor)
open Source.Tree (stringsOf)
open Grammar.Derivation (Laid)

/-- The imports of the module in a file. There are none if it cannot be read. -/
def importsRead (path source : String) : List Import :=
  match readModule path source with
  | .ok m => m.imports
  | .error _ => []

/-- Whether no call in a file has imports before its arguments if it makes one itself. This is so in a file that cannot be
read. -/
def isInOrderRead (path source : String) : Bool :=
  match (readerFor path).trees source.toList with
  | .ok trees => isInOrderAll trees
  | .error _ => true

/-! ### Files -/

theorem exists_dialect (path : String) : ∃ d : Dialect, readerFor path = d.reader := by
  unfold readerFor
  split
  · exact ⟨.assertions, rfl⟩
  · exact ⟨.assertions, rfl⟩
  · exact ⟨.assertions, rfl⟩
  · exact ⟨.elements, rfl⟩

variable {trees : List Tree} {s : List Char × Position} {stop c : Cursor} {source path : String} {i : Import}

theorem laid_of_trees {l : Grammar.Reader} {text : List Char} (h : l.trees text = .ok trees) :
    ∃ stop, Laid (.ofText text) (Tree.leavesOf trees) stop := by
  unfold Grammar.Reader.trees at h
  split at h
  · obtain rfl := Except.ok.inj h
    exact ⟨_, Grammar.Derivation.laid_treesOf _⟩
  · cases h

/-- A file cannot be read, or its imports are found in sound trees that are laid out in the text. -/
theorem importsRead_cases (path source : String) :
    (importsRead path source = [] ∧ isInOrderRead path source = true) ∨
    ∃ trees stop, importsRead path source = importsInAll trees ∧ isInOrderRead path source = isInOrderAll trees ∧
      (∀ tree ∈ trees, IsSound tree) ∧ Laid (.ofText source.toList) (Tree.leavesOf trees) stop := by
  unfold importsRead readModule isInOrderRead
  obtain ⟨d, hd⟩ := exists_dialect path
  cases htrees : (readerFor path).trees source.toList with
  | error p => exact .inl ⟨rfl, rfl⟩
  | ok trees =>
    obtain ⟨stop, hlaid⟩ := laid_of_trees htrees
    rw [hd] at htrees
    exact .inr ⟨trees, stop, rfl, rfl, isSound_trees htrees, hlaid⟩

theorem quoted_of_mem (hsound : ∀ tree ∈ trees, IsSound tree) (hs : s ∈ stringsOf trees) : IsQuoted s.1 := by
  obtain ⟨tree, htree, hs⟩ := exists_of_mem_stringsOf hs
  exact (hsound tree htree).quoted s hs

theorem ascending_of_laid (hsound : ∀ tree ∈ trees, IsSound tree)
    (hlaid : Laid c (Tree.leavesOf trees) stop) : Source.Ascending (stringsOf trees) := by
  refine hlaid.ascending fun s hs => ?_
  obtain ⟨q, middle, -, htext⟩ := quoted_of_mem hsound hs
  simp [htext]

/-- How the imports of a file lie in its text. -/
theorem arranged_importsRead (path source : String) :
    Arranged (isInOrderRead path source) (importsRead path source) := by
  obtain ⟨hnone, horder⟩ | ⟨trees, stop, himports, horder, hsound, hlaid⟩ := importsRead_cases path source
  · rw [hnone, horder]
    exact arranged_of_sorted .nil
  · rw [himports, horder]
    exact arranged_importsInAll hsound (ascending_of_laid hsound hlaid)

/-! ### Positions -/

/-- The specifier of an import stands in quotes in a text, at the line and column of the import. Lines end with a line feed,
and columns count bytes. -/
def IsQuotedAt (source : String) (i : Import) : Prop :=
  ∃ before q behind, (q = '"' ∨ q = '\'') ∧ source.toList = before ++ q :: (i.specifier.toList ++ q :: behind) ∧
    i.line = before.count '\n' + 1 ∧ i.column = (String.ofList (Position.lastLine before)).utf8ByteSize + 1

theorem isQuotedAt_of_names (hlaid : Laid (.ofText source.toList) (Tree.leavesOf trees) stop) (hs : s ∈ stringsOf trees)
    (hquoted : IsQuoted s.1) (h : Names s i) : IsQuotedAt source i := by
  obtain ⟨before, behind, hsource, hposition⟩ := hlaid.exists_before (Source.mem_of_mem_strings hs)
  obtain ⟨q, middle, hq, htext⟩ := hquoted
  have hspecifier : i.specifier.toList = middle := by
    rw [h.specifier, unquoted, htext, drop_one, tail_cons, dropLast_concat, String.toList_ofList]
  have hposition : i.position = Position.start.after before := h.position.trans hposition
  rw [Position.after_start] at hposition
  refine ⟨before, q, behind, hq, ?_, congrArg Position.line hposition, congrArg Position.column hposition⟩
  calc source.toList
    _ = before ++ (s.1 ++ behind) := hsource
    _ = before ++ q :: (i.specifier.toList ++ q :: behind) := by
      rw [htext, hspecifier, cons_append, append_assoc, singleton_append]

theorem isQuotedAt_of_mem (hi : i ∈ importsRead path source) : IsQuotedAt source i := by
  obtain h | ⟨trees, stop, himports, h⟩ := importsRead_cases path source
  · rw [h.1] at hi
    exact absurd hi not_mem_nil
  · rw [himports] at hi
    obtain ⟨s, hs, hnames⟩ := named_importsInAll trees i hi
    exact isQuotedAt_of_names h.2.2 hs (quoted_of_mem h.2.1 hs) hnames

/-- **Imports stand where their specifiers do**, in quotes, and at different places. -/
theorem importsRead_quoted (path source : String) :
    (importsRead path source).Forall (IsQuotedAt source) ∧
      (importsRead path source).Pairwise fun i j => (i.line, i.column) ≠ (j.line, j.column) := by
  refine ⟨?_, (arranged_importsRead path source).distinct.imp fun {i j} hne heq => ?_⟩
  · rw [forall_iff_forall_mem]
    exact fun i => isQuotedAt_of_mem
  · obtain ⟨hline, hcolumn⟩ := Prod.mk.inj heq
    exact hne (by rw [Import.position, Import.position, hline, hcolumn])

/-! ### Order -/

/-- **Imports come in the order of the text** if and only if no call that makes an import has imports before its
arguments. -/
theorem sorted_importsRead_iff (path source : String) :
    Sorted (importsRead path source) ↔ isInOrderRead path source = true := (arranged_importsRead path source).sorted_iff

/-- The trees of `import<typeof import("a")>("b");`. -/
def typedImport : List Tree :=
  let mark (text : String) (column : Nat) : Tree := .leaf .mark none text.toList ⟨1, column⟩
  let callee (column : Nat) : Tree := .leaf .importWord (some .callee) "import".toList ⟨1, column⟩
  let arguments (text : String) (column : Nat) : Tree := .node .arguments (some .arguments)
    [mark "(" column, .leaf .string none text.toList ⟨1, column + 1⟩, mark ")" (column + 4)]
  [.node .group none
    [.node .call none [callee 1,
        .node .group none [mark "<" 7,
          .node .group none [mark "typeof" 8, .node .call none [callee 15, arguments "\"a\"" 21]],
          mark ">" 26],
        arguments "\"b\"" 27],
      mark ";" 32]]

/-- **Imports can come out of order.** The import that a call makes comes before the one in its type arguments, which stand
to the left of it. -/
theorem typedImport_not_sorted :
    Tree.spells typedImport "import<typeof import(\"a\")>(\"b\");" = true ∧
      (moduleOf typedImport).imports = [⟨"b", .dynamic, 1, 28⟩, ⟨"a", .dynamic, 1, 22⟩] ∧
      ¬ Sorted (moduleOf typedImport).imports ∧ isInOrderAll typedImport = false := by
  have himports : (moduleOf typedImport).imports = [⟨"b", .dynamic, 1, 28⟩, ⟨"a", .dynamic, 1, 22⟩] := by decide
  rw [Sorted]
  decide

end Cartograph.TypeScript
