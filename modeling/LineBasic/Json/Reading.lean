import LineBasic.Json
import LineBasic.Number.Reading
import LineBasic.Numeral

/-!
# Reading JSON

A text is cut into lexemes, and the lexemes are fed one by one to a machine that keeps the brackets
still open.  Besides the standard's values, `NaN`, `Infinity` and `-Infinity` are read as floats.
Of members with the same key the last one counts.
-/

set_option autoImplicit false
namespace LineBasic.Json

/-- Why a text is not read. -/
inductive Refusal where
  | malformed
  /-- An integer has more digits than can be read. -/
  | tooManyDigits
deriving DecidableEq, Repr

/-! ## Lexemes -/

/-- The units that a JSON text consists of. -/
inductive Lexeme where
  | openArray
  | closeArray
  | openObject
  | closeObject
  | comma
  | colon
  | value (v : Json)
  | refused (why : Refusal)

/-- The blanks of JSON. -/
def isBlank (c : Char) : Bool :=
  c == ' ' || c == '\t' || c == '\n' || c == '\r'

/-- The value of a hexadecimal digit. -/
def hexValue? (c : Char) : Option Nat :=
  if c.isDigit then some (c.toNat - '0'.toNat)
  else if 'a' ≤ c ∧ c ≤ 'f' then some (c.toNat - 'a'.toNat + 10)
  else if 'A' ≤ c ∧ c ≤ 'F' then some (c.toNat - 'A'.toNat + 10)
  else none

/-- Reads four hexadecimal digits. -/
def hexUnit? : List Char → Option (Nat × List Char)
  | a :: b :: c :: d :: rest => do
    let n := (← hexValue? a) * 4096 + (← hexValue? b) * 256 + (← hexValue? c) * 16
      + (← hexValue? d)
    return (n, rest)
  | _ => none

/-- Reads the second half of a character written as two units, if it is there. -/
def lowSurrogate? (cs : List Char) : Option (Nat × List Char) :=
  match cs with
  | '\\' :: 'u' :: rest =>
    match hexUnit? rest with
    | some (n, rest) => if 0xDC00 ≤ n ∧ n ≤ 0xDFFF then some (n, rest) else none
    | none => none
  | _ => none

/-- Reads a character escape after its backslash. -/
def escape? (cs : List Char) : Option (Char × List Char) :=
  match cs with
  | '"' :: rest => some ('"', rest)
  | '\\' :: rest => some ('\\', rest)
  | '/' :: rest => some ('/', rest)
  | 'b' :: rest => some ('\x08', rest)
  | 'f' :: rest => some ('\x0c', rest)
  | 'n' :: rest => some ('\n', rest)
  | 'r' :: rest => some ('\r', rest)
  | 't' :: rest => some ('\t', rest)
  | 'u' :: rest => do
    let (n, rest) ← hexUnit? rest
    if 0xD800 ≤ n ∧ n ≤ 0xDBFF then
      match lowSurrogate? rest with
      | some (low, rest) =>
        some (Char.ofNat (0x10000 + (n - 0xD800) * 0x400 + (low - 0xDC00)), rest)
      | none => some ('\uFFFD', rest)
    else if 0xDC00 ≤ n ∧ n ≤ 0xDFFF then some ('\uFFFD', rest)
    else some (Char.ofNat n, rest)
  | _ => none

/-- Reads a text after its opening quote, in as many rounds as there are characters at most. -/
def text? : Nat → List Char → List Char → Option (String × List Char)
  | 0, _, _ => none
  | rounds + 1, reversed, cs =>
    match cs with
    | '"' :: rest => some (String.ofList reversed.reverse, rest)
    | '\\' :: rest => match escape? rest with
      | some (c, rest) => text? rounds (c :: reversed) rest
      | none => none
    | c :: rest => if c.toNat < 0x20 then none else text? rounds (c :: reversed) rest
    | [] => none

/-- Splits off a run of ASCII digits. -/
def digits (cs : List Char) : List Char × List Char :=
  (cs.takeWhile Char.isDigit, cs.dropWhile Char.isDigit)

/-- Splits off a fraction: a point with digits after it. -/
def fraction : List Char → List Char × List Char
  | '.' :: cs => match digits cs with
    | ([], _) => ([], '.' :: cs)
    | (ds, rest) => ('.' :: ds, rest)
  | cs => ([], cs)

/-- Splits off an exponent: its letter, a sign, and digits. -/
def exponent : List Char → List Char × List Char
  | [] => ([], [])
  | e :: cs =>
    if e == 'e' || e == 'E' then
      let sign := (cs.take 1).filter fun c ↦ c == '+' || c == '-'
      match digits (cs.drop sign.length) with
      | ([], _) => ([], e :: cs)
      | (ds, rest) => (e :: sign ++ ds, rest)
    else ([], e :: cs)

/-- The lexeme of a number whose integer part is the given digits. -/
def numberLexeme (negative : Bool) (whole : List Char) (cs : List Char) : Lexeme × List Char :=
  let (point, cs) := fraction cs
  let (power, cs) := exponent cs
  if point.isEmpty && power.isEmpty then
    if Numeral.digitLimit < whole.length then (.refused .tooManyDigits, cs)
    else
      let n : Int := Number.digitsNumber (whole.map fun c ↦ c.toNat - '0'.toNat)
      (.value (.integer (if negative then -n else n)), cs)
  else
    match Number.decimal? false (whole ++ point ++ power) with
    | some x => (.value (.float (if negative then -x else x)), cs)
    | none => (.refused .malformed, cs)

/-- The lexeme that a number starts with; an integer part has no leading zeros. -/
def number (negative : Bool) (cs : List Char) : Lexeme × List Char :=
  match cs with
  | '0' :: rest => numberLexeme negative ['0'] rest
  | c :: rest =>
    if c.isDigit then
      let (ds, rest) := digits (c :: rest)
      numberLexeme negative ds rest
    else (.refused .malformed, c :: rest)
  | [] => (.refused .malformed, [])

/-- The names of values. -/
def names : List (String × Json) :=
  [("null", .null), ("true", .boolean true), ("false", .boolean false), ("NaN", .float Number.nan),
   ("Infinity", .float Number.infinity), ("-Infinity", .float (-Number.infinity))]

/-- The first lexeme of a text that does not start with a blank. -/
def lexeme (c : Char) (cs : List Char) : Lexeme × List Char :=
  match c with
  | '[' => (.openArray, cs)
  | ']' => (.closeArray, cs)
  | '\x7b' => (.openObject, cs)
  | '\x7d' => (.closeObject, cs)
  | ',' => (.comma, cs)
  | ':' => (.colon, cs)
  | '"' => match text? (cs.length + 1) [] cs with
    | some (s, rest) => (.value (.string s), rest)
    | none => (.refused .malformed, cs)
  | c =>
    match names.find? fun n ↦ n.1.toList.isPrefixOf (c :: cs) with
    | some (name, v) => (.value v, (c :: cs).drop name.length)
    | none => if c == '-' then number true cs else number false (c :: cs)

/-- The lexemes of a text, up to the first that is refused.  Every lexeme takes a character at
least, so as many rounds as there are characters are enough. -/
def lexemes : Nat → List Char → List Lexeme
  | 0, _ => []
  | rounds + 1, cs =>
    match cs.dropWhile isBlank with
    | [] => []
    | c :: cs => match lexeme c cs with
      | (.refused why, _) => [.refused why]
      | (l, rest) => l :: lexemes rounds rest

/-! ## The machine -/

/-- A bracket that is still open, with what was read in it: elements, the last first, or members and
the key whose value is being read. -/
inductive Open where
  | array (reversed : List Json)
  | object (members : Table String Json) (key : String)

/-- What has to come next. -/
inductive Awaits where
  | element
  | elementOrClose
  | key (members : Table String Json)
  | keyOrClose
  | colon (members : Table String Json) (key : String)
  | separator
  | nothing (v : Json)

/-- The state of reading: the open brackets, innermost first, and what has to come next. -/
structure Reader where
  stack : List Open := []
  awaits : Awaits := .element

/-- Takes in a finished value. -/
def Reader.finish (v : Json) : List Open → Reader
  | [] => ⟨[], .nothing v⟩
  | .array reversed :: stack => ⟨.array (v :: reversed) :: stack, .separator⟩
  | .object members key :: stack => ⟨.object (members.insert key v) "" :: stack, .separator⟩

/-- Takes in a lexeme that starts an element. -/
def Reader.start (l : Lexeme) (stack : List Open) : Except Refusal Reader :=
  match l with
  | .openArray => .ok ⟨.array [] :: stack, .elementOrClose⟩
  | .openObject => .ok ⟨stack, .keyOrClose⟩
  | .value v => .ok (finish v stack)
  | .refused why => .error why
  | _ => .error .malformed

/-- Takes in a lexeme. -/
def Reader.step (r : Reader) (l : Lexeme) : Except Refusal Reader :=
  match r.awaits, l, r.stack with
  | .element, l, stack => start l stack
  | .elementOrClose, .closeArray, .array _ :: stack => .ok (finish (.array []) stack)
  | .elementOrClose, l, stack => start l stack
  | .keyOrClose, .closeObject, stack => .ok (finish (.object []) stack)
  | .keyOrClose, .value (.string key), stack => .ok ⟨stack, .colon {} key⟩
  | .key members, .value (.string key), stack => .ok ⟨stack, .colon members key⟩
  | .colon members key, .colon, stack => .ok ⟨.object members key :: stack, .element⟩
  | .separator, .comma, .array reversed :: stack => .ok ⟨.array reversed :: stack, .element⟩
  | .separator, .closeArray, .array reversed :: stack =>
    .ok (finish (.array reversed.reverse) stack)
  | .separator, .comma, .object members _ :: stack => .ok ⟨stack, .key members⟩
  | .separator, .closeObject, .object members _ :: stack =>
    .ok (finish (.object members.entries) stack)
  | _, _, _ => .error .malformed

/-- Reads a text that holds one value. -/
def ofText (s : String) : Except Refusal Json := do
  let r ← (lexemes (s.length + 1) s.toList).foldlM Reader.step {}
  match r.awaits with
  | .nothing v => return v
  | _ => throw .malformed

end LineBasic.Json
