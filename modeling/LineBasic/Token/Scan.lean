import LineBasic.Fault
import LineBasic.Token

/-!
# Scanning a source line

A line is cut into pieces from left to right, each as long as its class allows: blanks, which are
dropped, quoted text, single brackets, separators and operator characters, numbers, and literals,
which are whatever else stands between those.

A number is digits and underscores, optionally followed by one of `.`, `x` or `b` and a run of
hexadecimal digits and underscores.  Whether such a text is a numeral is decided later.

* `nextPiece` — the first piece of a text.
* `scan` — the tokens of a line.
-/

set_option autoImplicit false
namespace LineBasic

/-! ## Character classes -/

def isOperatorChar (c : Char) : Bool :=
  "!~#<=>*+-/^:$.@\\%|`".toList.contains c

def isBracketChar (c : Char) : Bool :=
  "()[]\x7b\x7d".toList.contains c

def isSeparatorChar (c : Char) : Bool :=
  c == ',' || c == ';'

def isSpaceChar (c : Char) : Bool :=
  c == ' ' || c == '\t'

def isNumberChar (c : Char) : Bool :=
  c.isDigit || c == '_'

/-- The characters that lead from the digits of a number to its second run. -/
def isNumericSeparator (c : Char) : Bool :=
  ".BXbx".toList.contains c

def isSuffixChar (c : Char) : Bool :=
  isNumberChar c || "ABCDEFabcdef".toList.contains c

/-- The characters that end a literal. -/
def endsLiteral (c : Char) : Bool :=
  c == '"' || isSpaceChar c || isBracketChar c || isSeparatorChar c || isOperatorChar c

/-! ## Pieces -/

/-- The first piece of a text: a token, or nothing for blanks. -/
structure Piece where
  /-- The class and the text of the token. -/
  token? : Option (TokenClass × List Char)
  /-- How far into the piece the token's text starts. -/
  lead : Nat
  /-- The number of characters of the piece after its first. -/
  more : Nat

/-- A piece whose token is all of it. -/
def Piece.whole (cls : TokenClass) (first : Char) (more : List Char) : Piece :=
  ⟨some (cls, first :: more), 0, more.length⟩

/-- A quoted text that is not closed. -/
def unterminated (source : Source) (body : List Char) : Fault :=
  { kind := .syntaxError, message := "Unterminated string literal", line := source.line
    received := some ("\"" ++ String.ofList body)
    suggestion := some "Close the string with a double quote (\")"
    context := some source.text }

/-- A numeric separator at the end of the line. -/
def danglingSeparator (source : Source) (number : List Char) : Fault :=
  { kind := .numberFormat, message := "'" ++ String.ofList number ++ "'", line := source.line
    expected := some "a digit run after the numeric separator", context := some source.text }

/-- A numeric separator followed by something else than a digit. -/
def badSuffix (source : Source) (number : List Char) (c : Char) : Fault :=
  { kind := .numberFormat, message := "'" ++ String.ofList (number ++ [c]) ++ "'"
    line := source.line
    received := some ("'" ++ String.singleton c ++ "' after numeric separator")
    expected := some "a digit run after '.', 'x' or 'b'", context := some source.text }

/-- The piece that starts with the digit `c`. -/
def numberPiece (source : Source) (c : Char) (cs : List Char) : Except Fault Piece :=
  let digits := cs.takeWhile isNumberChar
  match cs.dropWhile isNumberChar with
  | [] => .ok (Piece.whole .number c digits)
  | s :: suffix =>
    if isNumericSeparator s then
      match suffix with
      | [] => .error (danglingSeparator source (c :: digits ++ [s]))
      | d :: _ =>
        if isSuffixChar d then
          .ok (Piece.whole .number c (digits ++ s :: suffix.takeWhile isSuffixChar))
        else .error (badSuffix source (c :: digits ++ [s]) d)
    else .ok (Piece.whole .number c digits)

/-- The first piece of the text `c :: cs`. -/
def nextPiece (source : Source) (c : Char) (cs : List Char) : Except Fault Piece :=
  if c == '"' then
    let body := cs.takeWhile (· != '"')
    if body.length < cs.length then .ok ⟨some (.quoted, body), 1, body.length + 1⟩
    else .error (unterminated source body)
  else if isSpaceChar c then .ok ⟨none, 0, 0⟩
  else if isBracketChar c then .ok (Piece.whole .paren c [])
  else if isSeparatorChar c then .ok (Piece.whole .separator c [])
  else if isOperatorChar c then .ok (Piece.whole .operator c [])
  else if c.isDigit then numberPiece source c cs
  else .ok (Piece.whole .literal c (cs.takeWhile (!endsLiteral ·)))

/-- The token of a piece that starts at the given column. -/
def Piece.tokens (piece : Piece) (column : Nat) : List Token :=
  match piece.token? with
  | some (cls, text) => [⟨String.ofList text, cls, column + piece.lead⟩]
  | none => []

/-! ## Lines -/

/-- The tokens of the rest of a line that starts at the given column. -/
def scanFrom (source : Source) (column : Nat) : List Char → Except Fault (List Token)
  | [] => .ok []
  | c :: cs => do
    let piece ← nextPiece source c cs
    let tokens ← scanFrom source (column + 1 + piece.more) (cs.drop piece.more)
    return piece.tokens column ++ tokens
termination_by cs => cs.length
decreasing_by
  simp only [List.length_drop, List.length_cons]
  omega

/-- The tokens of a line; the line number is for diagnostics. -/
def scan (line : Option Int) (text : String) : Except Fault (List Token) :=
  scanFrom ⟨line, text⟩ 0 text.toList

end LineBasic
