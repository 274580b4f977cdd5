import Cartograph.Grammar.Table
import Cartograph.TypeScript.Grammar.Annotations
import Cartograph.TypeScript.Grammar.Declarations
import Cartograph.TypeScript.Grammar.Elements
import Cartograph.TypeScript.Grammar.Expressions
import Cartograph.TypeScript.Grammar.Functions
import Cartograph.TypeScript.Grammar.Literals
import Cartograph.TypeScript.Grammar.Members
import Cartograph.TypeScript.Grammar.Modules
import Cartograph.TypeScript.Grammar.Operations
import Cartograph.TypeScript.Grammar.Signatures
import Cartograph.TypeScript.Grammar.Statements
import Cartograph.TypeScript.Grammar.Types

/-!
# The grammar of TypeScript and JavaScript

The rules of all phrases, and the orders that decide where the next token leaves a reading open. A
name, a pair of parentheses or a pair of braces can be the start of several things; what the orders
do not decide is read both ways until one of them fails.
-/

namespace Cartograph.TypeScript

open Grammar (Standing)

instance : Coe Phrase (Standing Phrase) := ⟨.phrase⟩

instance : Coe Strength (Standing Phrase) := ⟨fun s => .rank s.ctorIdx⟩

namespace Rules

open Phrase

def all (d : Dialect) : List (Phrase × Rule) :=
  modules ++ statements ++ expressions d ++ elements ++ functions ++ operations ++ literals ++
    members ++ declarations ++ annotations ++ types ++ signatures

def inlined : List Phrase :=
  [anyExpression, semicolon, plainIdentifier, reservedWord, attributePart, tagName, elementChild,
   anyElement, attributeName, attributeValue, elementIdentifier, assignable, typeName, tagStart]

def operators : List (Standing Phrase) :=
  [Strength.member, Strength.templateCall, Strength.call, updateExpression, Strength.unaryOperator,
   Strength.power, Strength.times, Strength.plus, Strength.shift, Strength.relation,
   Strength.equality, Strength.bitAnd, Strength.bitXor, Strength.bitOr, Strength.conjunction,
   Strength.disjunction, Strength.conditional, sequenceExpression, arrowFunction]

def expressionOrders : List (List (Standing Phrase)) :=
  [operators,
   [Strength.assignment, primaryExpression],
   [Strength.member, Strength.templateCall, Strength.creation, Strength.call, expression],
   [Strength.declaration, Strength.literal],
   [primaryExpression, statementBlock, Strength.object],
   [metaProperty, importWord],
   [importStatement, importWord],
   [exportStatement, primaryExpression],
   [lexicalDeclaration, primaryExpression],
   [Strength.call, Strength.instantiation, Strength.unary, Strength.cast, awaitExpression, arrowFunction],
   [Strength.inheritance, Strength.instantiation]]

def typeOrders : List (List (Standing Phrase)) :=
  [[intersectionType, unionType, conditionalType, functionType, Strength.cast, typePredicate,
    readonlyType],
   [mappedTypeClause, primaryExpression],
   [accessibilityModifier, primaryExpression],
   [Strength.unaryOperator, expression],
   [extendsClause, primaryExpression],
   [Strength.unary, Strength.assignment],
   [Strength.declaration, expression],
   [predefinedType, unaryExpression],
   [anyType, maybeType],
   [tupleType, arrayType, anyPattern, anyType],
   [readonlyType, anyPattern],
   [readonlyType, primaryExpression],
   [typeQuery, subscriptExpression, expression],
   [typeQuery, queriedSubscript]]

/-- The orders among the kinds of types, and between types that start like expressions and
expressions. -/
def kindOrders : List (List (Standing Phrase)) :=
  [[nestedTypeIdentifier, genericType, primaryType, lookupType, indexTypeQuery, anyType],
   [asExpression, satisfiesExpression, primaryType],
   [queriedMember, memberExpression],
   [memberExpression, importedMember],
   [queriedMember, primaryExpression],
   [queriedSubscript, subscriptExpression],
   [queriedSubscript, primaryExpression],
   [queriedCall, primaryExpression],
   [queriedInstantiation, primaryExpression],
   [typeQuery, primaryExpression],
   [overrideModifier, primaryExpression],
   [decoratorCallExpression, decorator],
   [literalType, anyPattern],
   [predefinedType, anyPattern],
   [callExpression, queriedCall],
   [callExpression, importedCall],
   [newExpression, primaryExpression],
   [metaProperty, primaryExpression],
   [constructSignature, propertyName]]

end Rules

def grammar (d : Dialect) : Grammar Phrase Token where
  start := .program
  rules := Rules.all d
  inlined := Rules.inlined
  finish := .finish
  word := .identifier
  extras := [.comment, .htmlComment]
  orders := Rules.expressionOrders ++ Rules.typeOrders ++ Rules.kindOrders

end Cartograph.TypeScript
