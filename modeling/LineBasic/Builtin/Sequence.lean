import LineBasic.Builtin.Argument

/-!
# Texts and lists

Parts of texts, new arrays, the ends of sequences, and sequences put together.  Every array that a
builtin gives is a new one.
-/

set_option autoImplicit false
namespace LineBasic.Builtin

/-! ## Parts of texts -/

/-- The part of a text from an offset on, of a length at most. -/
def slice (s : String) (offset length : Nat) : String :=
  String.ofList ((s.toList.drop offset).take length)

/-- The start of a text. -/
def leftOf (b : Builtin) (v n : Value) : Action Value := do
  let s ← b.text v
  let count ← b.integer n
  return .string (slice s 0 count.toNat)

/-- The rest of a text from an offset on; a negative offset counts from the end of the text, and one
before its start is its start. -/
def restFrom (s : String) (offset : Int) : String :=
  let fromStart := if offset < 0 then offset + s.length else offset
  String.ofList (s.toList.drop fromStart.toNat)

/-- The end of a text.  It starts where a text of the wanted length would have to; if that is before
the start of the text, the offset is negative and counts from the end. -/
def rightOf (b : Builtin) (v n : Value) : Action Value := do
  let s ← b.text v
  let count := (← b.integer n).toNat
  return .string (if count = 0 then "" else restFrom s (s.length - count))

/-- The middle of a text, from a position counted from the index base. -/
def midOf (b : Builtin) (v start length : Value) : Action Value := do
  let s ← b.text v
  let start ← Action.ofStop (Quantity.sub (← b.integer start) (← get).indexBase)
  let length ← b.integer length
  return .string (slice s (← Action.ofStop start.start) length.toNat)

/-- Integers from this one on are no lengths of texts. -/
def lengthLimit : Int := Number.twoTo 63

/-- A run of spaces. -/
def spacesOf (b : Builtin) (n : Value) : Action Value := do
  let count ← b.integer n
  if lengthLimit ≤ count then
    throw (.mishap (.overflow "cannot fit 'int' into an index-sized integer"))
  else return .string (String.ofList (List.replicate count.toNat ' '))

/-- Why a number is not the code of a character. -/
inductive NoCharacter where
  | outOfRange
  | farOutOfRange

/-- The character of a code; codes that stand for half a character give the replacement
character. -/
def characterOf (code : Int) : Except NoCharacter Char :=
  if code < -(Number.twoTo 31) ∨ Number.twoTo 31 ≤ code then .error .farOutOfRange
  else if code < 0 ∨ 0x110000 ≤ code then .error .outOfRange
  else if 0xD800 ≤ code ∧ code < 0xE000 then .ok '\uFFFD'
  else .ok (Char.ofNat code.toNat)

/-- What a code far outside the range of characters comes to. -/
def codeOverflow : Stop :=
  .mishap (.overflow "Python int too large to convert to C int")

/-- The text of one character. -/
def chrOf (b : Builtin) (n : Value) : Action Value := do
  let code ← b.integer n
  match characterOf code with
  | .ok c => return .string (String.singleton c)
  | .error .outOfRange =>
    Action.fail (.badCall ("CHR code " ++ toString code ++ " is out of range"))
  | .error .farOutOfRange => throw codeOverflow

/-! ## New arrays -/

/-- The results of an action that is done a number of times. -/
def timesM {α : Type} (act : Action α) : Nat → Action (List α)
  | 0 => return []
  | count + 1 => do
    let a ← act
    return a :: (← timesM act count)

/-- A new array of the given number of elements: zeros, or arrays if there are more dimensions. -/
def zeros (count : Nat) : List Nat → Action Value
  | [] => Action.newArray (List.replicate count (.number 0))
  | size :: sizes => do Action.newArray (← timesM (zeros size sizes) count)

/-- A list of integers in a diagnostic. -/
def integersText (ns : List Int) : String :=
  "[" ++ ", ".intercalate (ns.map toString) ++ "]"

/-- A new array with zeros in it. -/
def dimOf (b : Builtin) (sizes : List Value) : Action Value := do
  let sizes ← sizes.mapM b.integer
  match sizes with
  | size :: more =>
    if sizes.any (· < 0) then refuse sizes else zeros size.toNat (more.map Int.toNat)
  | [] => refuse sizes
where
  refuse (sizes : List Int) : Action Value :=
    Action.fail (.badCallOn "DIM needs non-negative dimensions" (integersText sizes))

/-! ## Ends of sequences -/

/-- The number of characters or items. -/
def lenOf (b : Builtin) (v : Value) : Action Value := do
  match v with
  | .string s => return .number (Number.ofNat s.length)
  | v => return .number (Number.ofNat (← b.items v).length)

/-- The end of a sequence if it has one. -/
def someEnd (b : Builtin) : Option Value → Action Value
  | some v => return v
  | none => Action.fail (.badCall (b.name ++ " of an empty list"))

/-- The end of a sequence that has one, given how to find it in a list. -/
def endOf (b : Builtin) (find : {α : Type} → List α → Option α) (v : Value) : Action Value := do
  match v with
  | .string s => b.someEnd ((find s.toList).map fun c ↦ .string (String.singleton c))
  | v => b.someEnd (find (← b.items v))

/-- A sequence with some of it cut off, given how to do that to a list. -/
def cutOf (b : Builtin) (cut : {α : Type} → List α → List α) (v : Value) : Action Value := do
  match v with
  | .string s => return .string (String.ofList (cut s.toList))
  | v => Action.newArray (cut (← b.items v))

/-! ## Putting sequences together -/

/-- A list with an item put at its start. -/
def consOf (v list : Value) : Action Value := do
  match list with
  | .listMonad elements => return .listMonad (v :: elements)
  | .array place => Action.newArray (v :: (← Action.elements place))
  | list => Action.fail (.typeMismatch (← Action.typed list) "an array after '!'")

/-- A list with an item put at its end. -/
def snocOf (list v : Value) : Action Value := do
  match list with
  | .listMonad elements => return .listMonad (elements ++ [v])
  | .array place => Action.newArray ((← Action.elements place) ++ [v])
  | list => Action.fail (.typeMismatch (← Action.typed list) "an array before '~'")

/-- Two lists of the same kind, one after the other. -/
def concatOf (v w : Value) : Action Value := do
  match v, w with
  | .listMonad first, .listMonad second => return .listMonad (first ++ second)
  | .array p, .array q =>
    let first ← Action.elements p
    Action.newArray (first ++ (← Action.elements q))
  | _, _ =>
    let left ← Action.typed v
    Action.fail (.typeMismatch (left ++ " # " ++ (← Action.typed w))
      "two arrays or two list monads")

end LineBasic.Builtin
