import Cartograph.Source.Tree

/-!
# Tokens

The pieces that the grammar of TypeScript and JavaScript is written in. Most are fixed texts:
punctuation, operators and keywords. The others are classes of texts, such as identifiers and
numbers, and three are no text at all: the end of the whole text, and the ends of statements and
signatures that a line end stands for.

A keyword is spelled like an identifier, and is one wherever the grammar has no use for the keyword.
A few words are never taken for identifiers where they fit (`fixedWords`); these are marks, like
punctuation.
-/

namespace Cartograph.TypeScript

open Source (Shape)

inductive Token where
  | finish
  | word (text : String)
  /-- Punctuation, an operator or a fixed word. -/
  | mark (text : String)
  | identifier
  /-- `#` and an identifier. -/
  | privateName
  | number
  | comment
  /-- A comment from `<!--` or `-->` to the end of the line. -/
  | htmlComment
  /-- The line that tells the system how to run the file. -/
  | interpreterLine
  /-- Text of a string in double quotes. -/
  | doubleText
  /-- Text of a string in single quotes. -/
  | singleText
  /-- A backslash and what it stands before. -/
  | escape
  | templateText
  | regexBody
  /-- The slash behind a regular expression. -/
  | regexEnd
  | regexFlags
  /-- A name of an element or attribute with a hyphen in it. -/
  | elementName
  /-- A named or numbered character, such as `&amp;`. -/
  | reference
  /-- Text of an attribute in double quotes. -/
  | doubleValue
  /-- Text of an attribute in single quotes. -/
  | singleValue
  /-- Text between elements. -/
  | elementText
  /-- The end of a statement that has no semicolon. -/
  | lineEnd
  /-- The end of a signature that has neither a body nor a semicolon. -/
  | signatureEnd
  /-- The question mark of a conditional expression. -/
  | question
  deriving DecidableEq, Hashable, Repr

namespace Token

/-- The words that are taken as they stand wherever they fit, even right before other letters. -/
def fixedWords : List String := ["in", "instanceof", "as", "satisfies", "implements", "of"]

def valueWords : List String := ["this", "super", "true", "false", "null", "undefined"]

def literal (text : String) : Token :=
  if text.toList.all Char.isAlpha && !fixedWords.contains text then word text else mark text

def shape : Token → Shape
  | finish => .hidden
  | lineEnd => .hidden
  | signatureEnd => .hidden
  | word text => .leaf (if valueWords.contains text then .text else .mark)
  | mark _ => .leaf .mark
  | question => .leaf .mark
  | regexEnd => .leaf .mark
  | identifier => .leaf .word
  | comment => .leaf .comment
  | _ => .leaf .text

end Token

end Cartograph.TypeScript
