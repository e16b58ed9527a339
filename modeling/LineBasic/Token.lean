import LineBasic.Text.Quoted
import LineBasic.Text.Upper

/-!
# Tokens

A source line is a sequence of tokens: a text, its class, and the column where the text starts.  A
quoted token's text is what stands between the quotes.
-/

set_option autoImplicit false
namespace LineBasic

/-- The classes of tokens. -/
inductive TokenClass where
  | literal
  | number
  | quoted
  | operator
  | paren
  | separator
  | boolean
  | sequence
deriving DecidableEq, Repr

/-- The short name of a class. -/
def TokenClass.tag : TokenClass → String
  | .literal => "lit"
  | .number => "num"
  | .quoted => "qot"
  | .operator => "op"
  | .paren => "paren"
  | .separator => "sep"
  | .boolean => "bool"
  | .sequence => "seq"

/-- The full name of a class. -/
def TokenClass.name : TokenClass → String
  | .literal => "LITERAL"
  | .number => "NUMBER"
  | .quoted => "QUOTED"
  | .operator => "OPERATOR"
  | .paren => "PAREN"
  | .separator => "SEPARATOR"
  | .boolean => "BOOLEAN"
  | .sequence => "SEQUENCE"

/-- A token of a source line. -/
structure Token where
  text : String
  cls : TokenClass
  column : Nat
deriving DecidableEq, Repr

namespace Token

/-- Whether the token is the given word, in any case of letters; the word is in upper case. -/
def isWord (t : Token) (word : String) : Bool :=
  t.cls == .literal && Text.upper t.text == word

/-- A token with all its parts, for inspection. -/
def describe (t : Token) : String :=
  "TBASToken(" ++ t.cls.name ++ ", " ++ Text.quoted t.text ++ ", col=" ++ toString t.column ++ ")"

end Token

/-- The texts of a run of tokens, separated by spaces. -/
def joinTexts (tokens : List Token) : String :=
  " ".intercalate (tokens.map Token.text)

/-- The line that a diagnostic about source text refers to: its number, if it has one, and its
text. -/
structure Source where
  line : Option Int
  text : String

end LineBasic
