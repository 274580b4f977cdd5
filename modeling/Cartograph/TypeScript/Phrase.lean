import Cartograph.Grammar.Rule
import Cartograph.TypeScript.Token

/-!
# Phrases

What a text in TypeScript or JavaScript is made of, and the words in which its grammar is written. A
rule may name phrases, tokens and fixed texts as they are.

There are two dialects. They differ in what angle brackets before an expression mean.
-/

namespace Cartograph.TypeScript

open Source (Shape)

/-- What angle brackets before an expression mean: an assertion of its type, or an element. -/
inductive Dialect where
  | assertions
  | elements
  deriving DecidableEq, Repr

inductive Phrase where
  -- modules
  | program | exportStatement | namespaceExport | exportClause | exportSpecifier | exportName
  | declaration | importWord | importStatement | importClause | fromClause | namespaceImport
  | namedImports | importSpecifier | importAttribute
  -- statements
  | statement | expressionStatement | variableDeclaration | lexicalDeclaration | variableDeclarator
  | statementBlock | elseClause | ifStatement | switchStatement | forStatement | forInStatement
  | forHeader | whileStatement | doStatement | tryStatement | withStatement | breakStatement
  | continueStatement | debuggerStatement | returnStatement | throwStatement | emptyStatement
  | labeledStatement | switchBody | switchCase | switchDefault | catchClause | finallyClause
  -- expressions
  | parenthesizedExpression | anyExpression | expression | primaryExpression | yieldExpression
  | objectLiteral | objectPattern | assignmentPattern | objectAssignmentPattern | arrayLiteral
  | arrayPattern
  -- elements
  | element | elementExpression | elementChild | openingTag | elementIdentifier | nestedIdentifier
  | prefixedName | tagName | closingTag | selfClosingTag | attributePart | attributeName
  | elementAttribute | attributeString | attributeValue | anyElement
  -- functions and classes
  | classExpression | classDeclaration | classHeritage | functionExpression | functionDeclaration
  | generatorFunction | generatorFunctionDeclaration | arrowFunction | signature | parameter
  -- operations
  | optionalChain | callExpression | newExpression | awaitExpression | memberExpression
  | subscriptExpression | assignable | assignmentExpression | augmentable
  | augmentedAssignmentExpression | initializer | destructuring | spreadElement | ternaryExpression
  | binaryExpression | unaryExpression | updateExpression | sequenceExpression
  -- literals
  | stringText | templateString | templateSubstitution | regexLiteral | plainIdentifier
  | metaProperty | callArguments
  -- members
  | decorator | decoratorMemberExpression | decoratorCallExpression | classBody | parameters
  | classStaticBlock | anyPattern | restPattern | methodDefinition | pair | pairPattern
  | propertyName | computedPropertyName | reservedWord | semicolon
  -- declarations
  | publicFieldDefinition | tagStart | importedName | nonNullExpression | methodSignature
  | abstractMethodSignature | functionSignature | decoratorParenthesizedExpression | angleAssertion
  | asExpression | satisfiesExpression | instantiationExpression | importRequire | extendsClause
  | extended | implementsClause | ambientDeclaration | abstractClassDeclaration | moduleDeclaration
  | namespaceDeclaration | moduleBody | importEquals | nestedTypeIdentifier | interfaceDeclaration
  | extendsTypeClause | enumDeclaration | enumBody | enumAssignment | typeDeclaration
  | accessibilityModifier | overrideModifier | requiredParameter | optionalParameter | parameterName
  -- annotations
  | omittingTypeMark | addingTypeMark | optingTypeMark | typeMark | importedMember | importedCall
  | assertion | assertionMark | anyType | tupleParameter | optionalTupleParameter | optionalType
  | restType | tupleMember | constructorType
  -- types
  | primaryType | templateType | templateLiteralType | inferType | conditionalType | genericType
  | typePredicate | predicateMark | queriedMember | queriedSubscript | queriedCall
  | queriedInstantiation | typeQuery | indexTypeQuery | lookupType | mappedTypeClause | literalType
  | signedNumber | starType | maybeType | parenthesizedType
  -- signatures
  | predefinedType | typeArguments | objectType | callSignature | propertySignature | typeParameters
  | typeParameter | defaultType | typeConstraint | constructSignature | indexSignature | arrayType
  | tupleType | readonlyType | unionType | intersectionType | functionType | typeName
  deriving DecidableEq, Repr

namespace Phrase

/-- What a phrase is in a source tree. Strings and dotted names are pieces of text, and phrases that
only stand for others have no node of their own. -/
def shape : Phrase → Shape
  | importStatement => .node .importStatement
  | importClause => .node .importClause
  | namedImports => .node .namedImports
  | importSpecifier => .node .importSpecifier
  | importRequire => .node .importRequire
  | exportStatement => .node .exportStatement
  | exportClause => .node .exportClause
  | exportSpecifier => .node .exportSpecifier
  | namespaceExport => .node .namespaceExport
  | variableDeclaration | lexicalDeclaration => .node .variableDeclaration
  | variableDeclarator => .node .variableDeclarator
  | ambientDeclaration => .node .ambientDeclaration
  | callExpression | decoratorCallExpression | importedCall | queriedCall => .node .call
  | callArguments => .node .arguments
  | importWord => .leaf .importWord
  | stringText => .leaf .string
  | nestedIdentifier => .leaf .text
  | statement | declaration | expression | primaryExpression | anyPattern => .hidden
  | anyType | primaryType | tupleMember => .hidden
  | exportName | fromClause | importedName | forHeader | signature | parameter => .hidden
  | augmentable | initializer | destructuring | propertyName | extended => .hidden
  | moduleBody | parameterName => .hidden
  | _ => .node .group

end Phrase

/-- How strongly the parts of a phrase hold together. The order is that of `orders`. -/
inductive Strength where
  | member | templateCall | creation | call | unaryOperator | power | times | plus | shift | relation
  | equality | bitAnd | bitXor | bitOr | conjunction | disjunction | conditional | assignment
  | declaration | literal | object | instantiation | unary | cast | inheritance
  deriving DecidableEq, Repr

/-! ### Writing rules -/

abbrev Rule := Grammar.Rule Phrase Token

instance : Coe Phrase Rule := ⟨.phrase⟩

instance : Coe Token Rule := ⟨.token⟩

instance : Coe String Rule := ⟨fun text => .token (.literal text)⟩

namespace Rules

open Grammar.Rule

def list1 (item : Rule) : Rule := separated "," item

def list (item : Rule) : Rule := opt (list1 item)

def bound (s : Strength) (rule : Rule) : Rule := ranked (.named s.ctorIdx) none rule

def boundLeft (s : Strength) (rule : Rule) : Rule := ranked (.named s.ctorIdx) (some .left) rule

def boundRight (s : Strength) (rule : Rule) : Rule := ranked (.named s.ctorIdx) (some .right) rule

def left (rule : Rule) : Rule := ranked (.level 0) (some .left) rule

def right (rule : Rule) : Rule := ranked (.level 0) (some .right) rule

def asWord (rule : Rule) : Rule := shaped (.leaf .word) rule

def angled : Dialect → Phrase
  | .assertions => .angleAssertion
  | .elements => .anyElement

end Rules

end Cartograph.TypeScript
