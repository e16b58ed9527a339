import LineBasic.Number.Layout
import LineBasic.Table

/-!
# JSON values

The values that a settings file holds, and how they are written: indented by four spaces a level,
in ASCII, with integers and floats told apart.

* `Json.render` — the text of a value.
* `Json.quoted` — a text between quotes, everything outside printable ASCII escaped.
-/

set_option autoImplicit false
namespace LineBasic

/-- A JSON value.  The members of an object keep the order in which they were first entered. -/
inductive Json where
  | null
  | boolean (b : Bool)
  | integer (n : Int)
  | float (x : Float)
  | string (s : String)
  | array (elements : List Json)
  | object (members : List (String × Json))

instance : Inhabited Json := ⟨.null⟩

namespace Json

/-! ## Texts -/

/-- A hexadecimal digit, in lower case. -/
def hexDigit (n : Nat) : Char :=
  if n < 10 then Char.ofNat ('0'.toNat + n) else Char.ofNat ('a'.toNat + (n - 10))

/-- A code unit of sixteen bits as an escape. -/
def unitEscape (n : Nat) : List Char :=
  ['\\', 'u', hexDigit (n / 4096 % 16), hexDigit (n / 256 % 16), hexDigit (n / 16 % 16),
   hexDigit (n % 16)]

/-- A character inside a quoted text. -/
def escaped (c : Char) : List Char :=
  match c with
  | '"' => ['\\', '"']
  | '\\' => ['\\', '\\']
  | '\n' => ['\\', 'n']
  | '\r' => ['\\', 'r']
  | '\t' => ['\\', 't']
  | '\x08' => ['\\', 'b']
  | '\x0c' => ['\\', 'f']
  | c =>
    let n := c.toNat
    if 0x20 ≤ n ∧ n ≤ 0x7E then [c]
    else if n < 0x10000 then unitEscape n
    else
      let rest := n - 0x10000
      unitEscape (0xD800 + rest / 0x400) ++ unitEscape (0xDC00 + rest % 0x400)

/-- A text between quotes. -/
def quoted (s : String) : String :=
  String.ofList ('"' :: s.toList.flatMap escaped ++ ['"'])

/-- The text of a float; the values that are not finite have names. -/
def floatText (x : Float) : String :=
  if x.isNaN then "NaN"
  else if x.isInf then (if Number.isNegative x then "-Infinity" else "Infinity")
  else Number.exactText x

/-! ## Layout -/

/-- A new line at a level of nesting. -/
def newLine (level : Nat) : String :=
  String.ofList ('\n' :: List.replicate (4 * level) ' ')

/-- Items between brackets, each on a line of its own; without items, the brackets alone. -/
def bracketed (opening closing : String) (level : Nat) : List String → String
  | [] => opening ++ closing
  | items =>
    opening ++ newLine (level + 1) ++ ("," ++ newLine (level + 1)).intercalate items
      ++ newLine level ++ closing

mutual

/-- The text of a value at a level of nesting. -/
def renderAt (level : Nat) : Json → String
  | null => "null"
  | boolean b => if b then "true" else "false"
  | integer n => toString n
  | float x => floatText x
  | string s => quoted s
  | array elements => bracketed "[" "]" level (renderElements (level + 1) elements)
  | object members => bracketed "\x7b" "\x7d" level (renderMembers (level + 1) members)

/-- The texts of the elements of an array. -/
def renderElements (level : Nat) : List Json → List String
  | [] => []
  | v :: vs => renderAt level v :: renderElements level vs

/-- The texts of the members of an object. -/
def renderMembers (level : Nat) : List (String × Json) → List String
  | [] => []
  | (key, v) :: ms => (quoted key ++ ": " ++ renderAt level v) :: renderMembers level ms

end

/-- The text of a value. -/
def render (v : Json) : String :=
  renderAt 0 v

end Json

end LineBasic
