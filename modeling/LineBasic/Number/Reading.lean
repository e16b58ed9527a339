import LineBasic.Number.Binary
import LineBasic.Text.Blank
import LineBasic.Text.Digit

/-!
# Reading numbers from text

A number is an optional sign, digits with an optional point among them, and an optional exponent.
Digits may be of any script.  Where a text is compared with a number, blanks around it, single
underscores between digits, and the words `inf`, `infinity` and `nan` are read as well; typed input
takes the plain form only.
-/

set_option autoImplicit false
namespace LineBasic.Number

open Text

/-! ## From decimals to floats -/

/-- The float nearest to `digits * 10 ^ exponent`.  Exponents far out of range are settled without
computing the power. -/
def ofDecimal (digits : Nat) (exponent : Int) : Float :=
  let size := (toString digits).length + exponent
  if digits = 0 ∨ size < -400 then nearest 0 1
  else if 400 < size then infinity
  else nearest (digits * tenTo exponent.toNat) (tenTo (-exponent).toNat)

/-! ## The grammar -/

/-- Splits off a run of decimal digits.  With `joined`, a single underscore between two digits is
passed over. -/
def digitRun (joined : Bool) : List Char → List Nat × List Char
  | [] => ([], [])
  | '_' :: cs => ([], '_' :: cs)
  | [c] => match digitValue? c with
    | some d => ([d], [])
    | none => ([], [c])
  | c :: '_' :: c' :: cs => match digitValue? c with
    | some d =>
      if joined && isDecimalDigit c' then
        let (ds, rest) := digitRun joined (c' :: cs)
        (d :: ds, rest)
      else ([d], '_' :: c' :: cs)
    | none => ([], c :: '_' :: c' :: cs)
  | c :: cs => match digitValue? c with
    | some d =>
      let (ds, rest) := digitRun joined cs
      (d :: ds, rest)
    | none => ([], c :: cs)

/-- The number that a run of digits stands for. -/
def digitsNumber (ds : List Nat) : Nat :=
  ds.foldl (fun n d ↦ n * 10 + d) 0

/-- Splits off a sign: whether it is negative, and the rest. -/
def takeSign : List Char → Bool × List Char
  | '-' :: cs => (true, cs)
  | '+' :: cs => (false, cs)
  | cs => (false, cs)

/-- Reads an exponent, if one is written, up to the end of the text. -/
def exponent? (joined : Bool) : List Char → Option Int
  | [] => some 0
  | c :: cs =>
    if c == 'e' || c == 'E' then
      let (negative, cs) := takeSign cs
      match digitRun joined cs with
      | ([], _) => none
      | (ds, []) =>
        let n := digitsNumber ds
        some (if negative then -(n : Int) else n)
      | (_, _ :: _) => none
    else none

/-- Reads an unsigned decimal up to the end of the text. -/
def decimal? (joined : Bool) (cs : List Char) : Option Float := do
  let (whole, rest) := digitRun joined cs
  let (fraction, rest) := match rest with
    | '.' :: rest => digitRun joined rest
    | rest => ([], rest)
  if whole.isEmpty && fraction.isEmpty then none
  else
    let e ← exponent? joined rest
    return ofDecimal (digitsNumber (whole ++ fraction)) (e - fraction.length)

/-- Reads a number in the plain form. -/
def plain? (s : String) : Option Float :=
  let (negative, cs) := takeSign s.toList
  (decimal? false cs).map fun x ↦ if negative then -x else x

/-- The blanks that may surround a number: all but the information separators. -/
def isOuterBlank (c : Char) : Bool :=
  isBlank c && !(0x1C ≤ c.toNat && c.toNat ≤ 0x1F)

/-- Reads a number in the generous form. -/
def ofText? (s : String) : Option Float :=
  let (negative, cs) := takeSign (trim isOuterBlank s.toList)
  let word := String.ofList (cs.map Char.toLower)
  let value :=
    if word == "inf" || word == "infinity" then some infinity
    else if word == "nan" then some nan
    else decimal? true cs
  value.map fun x ↦ if negative then -x else x

end LineBasic.Number
