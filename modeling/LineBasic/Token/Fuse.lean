import LineBasic.Fault
import LineBasic.Numeral
import LineBasic.Operator
import LineBasic.Token

/-!
# Settling the classes of tokens

Scanning leaves three things open, which are settled here.

* A number token that is no numeral is a literal, and a binary numeral is written in decimal.
* A literal that is the name of an operator is that operator, and `TRUE` and `FALSE` are booleans.
* Neighbouring operator tokens whose texts make up a longer operator are one token; three are tried
  before two, from the left.  A colon that is left over separates statements.
-/

set_option autoImplicit false
namespace LineBasic.Token

/-- Settles the class of a single token. -/
def settle (t : Token) : Except Number.Mishap Token := do
  match t.cls with
  | .number =>
    if Numeral.isNumeral t.text then
      match ← Numeral.decimalOfBinary? t.text with
      | some text => return { t with text }
      | none => return t
    else return { t with cls := .literal }
  | .literal =>
    let text := Text.upper t.text
    if (Operator.ofText? text).isSome then return { t with text, cls := .operator }
    else if text == "TRUE" || text == "FALSE" then return { t with text, cls := .boolean }
    else return t
  | _ => return t

/-- The operator that a group of operator tokens makes up. -/
def fused? (group : List Token) : Option String :=
  if group.all (·.cls == .operator) then
    (Operator.ofText? (String.join (group.map text))).map Operator.text
  else none

/-- The class of an operator token that is not fused with others. -/
def alone (t : Token) : Token :=
  if t.cls == .operator && t.text == ":" then { t with cls := .sequence } else t

/-- Fuses neighbouring operator tokens. -/
def fuse : List Token → List Token
  | a :: b :: c :: rest =>
    match fused? [a, b, c] with
    | some text => { a with text } :: fuse rest
    | none => match fused? [a, b] with
      | some text => { a with text } :: fuse (c :: rest)
      | none => a.alone :: fuse (b :: c :: rest)
  | [a, b] =>
    match fused? [a, b] with
    | some text => [{ a with text }]
    | none => [a.alone, b.alone]
  | [a] => [a.alone]
  | [] => []

/-- Settles the tokens of a line. -/
def settleAll (tokens : List Token) : Except Number.Mishap (List Token) :=
  return fuse (← tokens.mapM settle)

end LineBasic.Token
