import Cartograph.Module
import Cartograph.Path.Spelling
import Cartograph.TypeScript.Grammar
import Cartograph.TypeScript.Scan

/-!
# Reading TypeScript and JavaScript modules

From a text to its imports and exports, in two steps: the text is read by the grammar, and its source
trees are searched.

* `importsIn` — every import statement, re-export, `require` and `import()` call, outer ones first;
* `exportsOf` — the names that top-level export statements introduce;
* `readModule` — both, for a file with a given path.

Files ending in `.ts`, `.mts` and `.cts` have type assertions in angle brackets, all others have
elements.
-/

namespace Cartograph.TypeScript

open Source (Tree Kind)

/-! ### Readers -/

def Dialect.reader (d : Dialect) : Grammar.Reader :=
  let g := grammar d
  let tokens := g.tokenList
  let tokenShapes := (tokens.map Token.shape).toArray
  let phraseShapes := (g.phraseList.map Phrase.shape).toArray
  let lexicon := Lexicon.ofTokens tokens
  { table := g.table
    shapes := fun
      | .token n => tokenShapes.getD n .hidden
      | .phrase n => phraseShapes.getD n .hidden
    word := lexicon.identifier
    scan := lexicon.scan
    space := fun c => Lexeme.run Lexeme.isSpace c.rest }

def assertionReader : Grammar.Reader := Dialect.assertions.reader

def elementReader : Grammar.Reader := Dialect.elements.reader

/-- The reader of files with the given path, by what follows the last dot of its name. -/
def readerFor (path : String) : Grammar.Reader :=
  match (Path.Spelling.name? path).bind Path.extension? with
  | some "ts" => assertionReader
  | some "mts" => assertionReader
  | some "cts" => assertionReader
  | _ => elementReader

/-! ### Imports -/

def unquoted (text : List Char) : String := String.ofList (text.drop 1).dropLast

def importOf? (kind : ImportKind) : Tree → Option Import
  | .leaf .string _ text p => some ⟨unquoted text, kind, p.line, p.column⟩
  | _ => none

def hasMark (text : String) (trees : List Tree) : Bool := trees.any (·.isMark text.toList)

/-- The entries of a clause, or `none` when it holds anything else of its own. -/
def specifiersOf? (specifier : Kind) : List Tree → Option (List Tree)
  | [] => some []
  | t :: rest =>
    if t.isNode .namedImports then
      (specifiersOf? specifier rest).map (t.children.filter (·.isNode specifier) ++ ·)
    else if t.isNode specifier then (specifiersOf? specifier rest).map (t :: ·)
    else if t.isNamed then none
    else specifiersOf? specifier rest

def allTyped (clause specifier : Kind) (trees : List Tree) : Bool :=
  match trees.find? (·.isNode clause) with
  | none => false
  | some t =>
    match specifiersOf? specifier t.children with
    | none => false
    | some specifiers => !specifiers.isEmpty && specifiers.all (hasMark "type" ·.children)

def importStatementImports (trees : List Tree) : List Import :=
  let typeOnly := hasMark "type" trees
  match Tree.inRole? .source trees with
  | some source =>
    let kind :=
      if typeOnly || allTyped .importClause .importSpecifier trees then ImportKind.typeOnly
      else .static
    (importOf? kind source).toList
  | none =>
    (trees.filter (·.isNode .importRequire)).filterMap fun clause =>
      (Tree.inRole? .source clause.children).bind (importOf? (if typeOnly then .typeOnly else .static))

def exportStatementImports (trees : List Tree) : List Import :=
  match Tree.inRole? .source trees with
  | some source =>
    let kind :=
      if hasMark "type" trees || allTyped .exportClause .exportSpecifier trees then
        ImportKind.typeOnly
      else .reExport
    (importOf? kind source).toList
  | none => []

def calleeKind? : Tree → Option ImportKind
  | .leaf .importWord _ _ _ => some .dynamic
  | .leaf .word _ text _ => if text = "require".toList then some .static else none
  | _ => none

/-- The import that a call makes when `import` or `require` is called: the first argument, if it is a
string. A comment before it counts as the first argument. -/
def callImports (trees : List Tree) : List Import :=
  match (Tree.inRole? .callee trees).bind calleeKind?, Tree.inRole? .arguments trees with
  | some kind, some arguments =>
    ((arguments.children.find? Tree.isNamed).bind (importOf? kind)).toList
  | _, _ => []

mutual

/-- The imports in a tree, those of an outer node before those of the nodes in it. Import statements
are not searched further. -/
def importsIn : Tree → List Import
  | .leaf _ _ _ _ => []
  | .node .importStatement _ trees => importStatementImports trees
  | .node .exportStatement _ trees => exportStatementImports trees ++ importsInAll trees
  | .node .call _ trees => callImports trees ++ importsInAll trees
  | .node _ _ trees => importsInAll trees

def importsInAll : List Tree → List Import
  | [] => []
  | t :: ts => importsIn t ++ importsInAll ts

end

/-! ### Exports -/

def nameText (text : List Char) : String :=
  String.ofList (Text.trimBoth (fun c => c == '"' || c == '\'') text)

def insertName (exports : Exports) : Tree → Exports
  | .leaf _ _ text _ => exports.insert (nameText text)
  | .node _ _ _ => exports

def declaratorNames (exports : Exports) (declarator : Tree) : Exports :=
  match Tree.inRole? .name declarator.children with
  | some (.leaf .word _ text _) => exports.insert (String.ofList text)
  | _ => .unknown

/-- Adds the names of a declaration; one without a name makes the set unknown. -/
def declarationNames (exports : Exports) : Tree → Exports
  | .leaf _ _ _ _ => .unknown
  | .node .variableDeclaration _ trees =>
    (trees.filter (·.isNode .variableDeclarator)).foldl declaratorNames exports
  | .node .ambientDeclaration _ trees => ambientNames exports trees
  | .node _ _ trees =>
    match Tree.inRole? .name trees with
    | some name => insertName exports name
    | none => .unknown
where
  /-- Adds the names of everything that an ambient declaration holds. -/
  ambientNames (exports : Exports) : List Tree → Exports
    | [] => exports
    | t :: rest =>
      if t.isNamed then ambientNames (declarationNames exports t) rest
      else ambientNames exports rest

def specifierNames (exports : Exports) (specifier : Tree) : Exports :=
  match (Tree.inRole? .newName specifier.children).or (Tree.inRole? .name specifier.children) with
  | some name => insertName exports name
  | none => exports

def exportPart (exports : Exports) (part : Tree) : Exports :=
  match part with
  | .leaf .mark _ text _ => if text = ['*'] then .unknown else exports
  | .node .namespaceExport _ trees =>
    match trees.find? Tree.isNamed with
    | some name => insertName exports name
    | none => exports
  | .node .exportClause _ trees =>
    (trees.filter (·.isNode .exportSpecifier)).foldl specifierNames exports
  | _ => exports

def exportStatementNames (exports : Exports) (trees : List Tree) : Exports :=
  if hasMark "default" trees then exports.insert "default"
  else if hasMark "=" trees then .unknown
  else
    match Tree.inRole? .declaration trees with
    | some declaration => declarationNames exports declaration
    | none => trees.foldl exportPart exports

def exportsOf (trees : List Tree) : Exports :=
  trees.foldl (fun exports t =>
    match t with
    | .node .exportStatement _ parts => exportStatementNames exports parts
    | _ => exports) .empty

/-! ### Modules -/

def isReexport : Tree → Bool
  | .node .exportStatement _ trees => (Tree.inRole? .source trees).isSome
  | _ => false

/-- The module that top-level statements describe. Comments are no statements, and neither are marks
that stand alone. -/
def moduleOf (trees : List Tree) : Module :=
  let own := trees.filter fun t => t.isNamed && !t.isComment
  { imports := importsInAll trees
    exports := exportsOf trees
    reexportOnly := !own.isEmpty && own.all isReexport }

def readModule (path source : String) : Except ReadFailure Module :=
  match (readerFor path).trees source.toList with
  | .ok trees => .ok (moduleOf trees)
  | .error p => .error (.malformed p.line p.column)

end Cartograph.TypeScript
