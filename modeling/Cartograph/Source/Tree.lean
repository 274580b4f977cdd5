import Cartograph.Source.Cursor

/-!
# Source trees

The shape of a module's text. Leaves are pieces of text with their place, comments among them; nodes
group them. Only the groups that say something about imports and exports have a kind of their own,
all others are `Kind.group`. A tree also says what it is to the node that holds it, its `Role`.

`Shape` is what a part of a text becomes in a tree: nothing of its own, a leaf or a node.
-/

namespace Cartograph.Source

/-- What a piece of text is. Marks, which are punctuation and keywords, are the only ones without
content. -/
inductive Leaf where
  | mark
  | word
  | string
  | text
  | comment
  | importWord
  deriving DecidableEq, Hashable, Repr

inductive Kind where
  | importStatement
  | importClause
  | namedImports
  | importSpecifier
  | importRequire
  | exportStatement
  | exportClause
  | exportSpecifier
  | namespaceExport
  | variableDeclaration
  | variableDeclarator
  | ambientDeclaration
  | call
  | arguments
  | group
  deriving DecidableEq, Hashable, Repr

inductive Role where
  | source
  | declaration
  | name
  | newName
  | callee
  | arguments
  deriving DecidableEq, Hashable, Repr

/-- What a part of a text becomes in a tree. The parts of a hidden part belong to what holds it. -/
inductive Shape where
  | hidden
  | leaf (kind : Leaf)
  | node (kind : Kind)
  deriving DecidableEq, Hashable, Repr

inductive Tree where
  | leaf (kind : Leaf) (role : Option Role) (text : List Char) (position : Position)
  | node (kind : Kind) (role : Option Role) (children : List Tree)
  deriving Repr

namespace Tree

def role : Tree → Option Role
  | leaf _ role _ _ => role
  | node _ role _ => role

def withRole (role : Role) : Tree → Tree
  | leaf kind _ text position => leaf kind (some role) text position
  | node kind _ children => node kind (some role) children

def isComment : Tree → Bool
  | leaf .comment _ _ _ => true
  | _ => false

def isNamed : Tree → Bool
  | leaf .mark _ _ _ => false
  | _ => true

def isNode (k : Kind) : Tree → Bool
  | node kind _ _ => kind == k
  | _ => false

def isMark (text : List Char) : Tree → Bool
  | leaf .mark _ t _ => t == text
  | _ => false

def children : Tree → List Tree
  | leaf _ _ _ _ => []
  | node _ _ children => children

def inRole? (r : Role) (trees : List Tree) : Option Tree := trees.find? (·.role == some r)

mutual

def leaves : Tree → List (Leaf × List Char × Position)
  | leaf kind _ text position => [(kind, text, position)]
  | node _ _ children => leavesOf children

def leavesOf : List Tree → List (Leaf × List Char × Position)
  | [] => []
  | t :: ts => t.leaves ++ leavesOf ts

end

end Tree

end Cartograph.Source
