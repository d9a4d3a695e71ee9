import AnnotatedGrammar.Source.Position
import AnnotatedGrammar.Text.Quoted

/-!
# Tokens of the grammar notation

Every operator of the notation is a token of its own. A name is always an identifier: the notation
has no keywords. Blanks, line breaks and comments are tokens too, so that a token list covers its
text without gaps; they form the layout, which has no meaning.
-/

namespace AnnotatedGrammar

/-- The classes of words that a grammar can ask for without spelling them out. -/
inductive Pattern
  | identifier
  | number
  | quotedString
  | instanceReference
deriving DecidableEq, Repr, Inhabited, Hashable

namespace Pattern

/-- All patterns, in the order in which they are listed to users. -/
def all : List Pattern := [identifier, number, quotedString, instanceReference]

/-- The name of a pattern as it is written between angle brackets. -/
def name : Pattern → String
  | identifier => "identifier"
  | number => "number"
  | quotedString => "string"
  | instanceReference => "reference"

/-- The pattern of a name. -/
def ofName? (name : String) : Option Pattern :=
  all.find? fun pattern => pattern.name == name

/-- The rule name under which the pattern is available without brackets. -/
def builtinName : Pattern → String
  | identifier => "Identifier"
  | number => "Number"
  | quotedString => "String"
  | instanceReference => "Reference"

/-- The pattern as a grammar writes it. -/
def display (pattern : Pattern) : String := "<" ++ pattern.name ++ ">"

end Pattern

/-- A token of the notation. -/
inductive Token
  /-- The name of a rule, a class, a directive or a marker. -/
  | identifier (name : String)
  /-- A quoted terminal, with its escapes resolved. -/
  | literal (text : String)
  | pattern (pattern : Pattern)
  | equals
  | pipe
  | semicolon
  | leftParen
  | rightParen
  | question
  | star
  | plus
  | atSign
  | percent
  | blank
  | lineBreak
  | comment (text : String)
  /-- The end of the text. -/
  | endOfInput
deriving DecidableEq, Repr, Inhabited

/-- Groups of tokens that the statistics tell apart. -/
inductive TokenClass
  | identifier
  | terminal
  | quantifier
  | punctuation
  | whitespace
  | special
deriving DecidableEq, Repr, Inhabited

namespace Token

/-- Layout: tokens that stand between others without meaning. -/
def isLayout : Token → Bool
  | blank | lineBreak | comment _ => true
  | _ => false

/-- Tokens that the grammar notation gives a meaning to. -/
def isSignificant (token : Token) : Bool := !token.isLayout

/-- The operators that repeat an element or make it optional. -/
def isQuantifier : Token → Bool
  | question | star | plus => true
  | _ => false

/-- Tokens with which an element of a sequence can begin. -/
def startsElement : Token → Bool
  | identifier _ | literal _ | pattern _ | leftParen | atSign => true
  | _ => false

/-- The name, if the token is one. -/
def name? : Token → Option String
  | identifier name => some name
  | _ => none

/-- The token of a one-character operator. -/
def ofSymbol? (c : Char) : Option Token :=
  if c = '=' then some equals
  else if c = '|' then some pipe
  else if c = ';' then some semicolon
  else if c = '(' then some leftParen
  else if c = ')' then some rightParen
  else if c = '?' then some question
  else if c = '*' then some star
  else if c = '+' then some plus
  else if c = '@' then some atSign
  else if c = '%' then some percent
  else none

/-- The token as text. -/
def display : Token → String
  | identifier name => name
  | literal text => Text.quoted text
  | pattern p => p.display
  | equals => "="
  | pipe => "|"
  | semicolon => ";"
  | leftParen => "("
  | rightParen => ")"
  | question => "?"
  | star => "*"
  | plus => "+"
  | atSign => "@"
  | percent => "%"
  | blank => " "
  | lineBreak => "\n"
  | comment text => "//" ++ text
  | endOfInput => "<EOF>"

/-- The token as messages speak of it. -/
def describe : Token → String
  | identifier name => "identifier `" ++ name ++ "`"
  | literal text => "literal " ++ Text.quoted text
  | pattern p => "pattern `" ++ p.display ++ "`"
  | comment _ => "comment"
  | blank | lineBreak => "whitespace"
  | endOfInput => "end of input"
  | token => "`" ++ token.display ++ "`"

/-- The group a token is counted in. -/
def tokenClass : Token → TokenClass
  | identifier _ => .identifier
  | literal _ | pattern _ => .terminal
  | question | star | plus => .quantifier
  | equals | pipe | semicolon | leftParen | rightParen | atSign | percent => .punctuation
  | blank | lineBreak => .whitespace
  | comment _ | endOfInput => .special

/-- Numbers the kinds of tokens; the text of a token plays no part. -/
def kindIndex : Token → Nat
  | identifier _ => 0
  | literal _ => 1
  | pattern _ => 2
  | equals => 3
  | pipe => 4
  | semicolon => 5
  | leftParen => 6
  | rightParen => 7
  | question => 8
  | star => 9
  | plus => 10
  | atSign => 11
  | percent => 12
  | blank => 13
  | lineBreak => 14
  | comment _ => 15
  | endOfInput => 16

/-- Whether two tokens are of one kind, whatever their texts. -/
def sameKind (a b : Token) : Bool := a.kindIndex == b.kindIndex

end Token
end AnnotatedGrammar
