import LineBasic.Number.Whole

/-!
# Faults

What can go wrong in a program, as a record that a diagnostic is written from: the kind of fault, a
message, the place it is attributed to, and hints.

* `Fault.report` — the full text, one line per detail.
* `Fault.summary` — the one-line diagnostic of the prompt.
* `Fault.locate` — attributes a fault to a place, unless it has one.
* `Stop` — every reason why evaluation ends early; only some of them are faults of the program.
-/

set_option autoImplicit false
namespace LineBasic

/-- The kinds of faults. -/
inductive FaultKind where
  | general
  | syntaxError
  | formMismatch
  | numberFormat
  | typeMismatch
  | divisionByZero
  | unresolvedReference
  | subscriptOutOfRange
  | outOfData
  | nextWithoutFor
  | noGosubToReturn
  | duplicateDefinition
  | assignmentToConstant
  | outOfMemory
  | badFunctionCall
  | recursionLimit
  | noSuchFile
  | missingOperand
deriving DecidableEq, Repr

/-- A fault of a program, with all that its diagnostic tells. -/
structure Fault where
  kind : FaultKind
  /-- What is wrong. -/
  message : String
  /-- The program line it is attributed to. -/
  line : Option Int := none
  /-- The statement on that line, counted from zero. -/
  statement : Option Int := none
  /-- Where it came up. -/
  context : Option String := none
  /-- What would have been right. -/
  expected : Option String := none
  /-- What was found instead. -/
  received : Option String := none
  /-- How to mend it. -/
  suggestion : Option String := none
deriving DecidableEq, Repr

namespace Fault

/-- One line of a report; a missing or empty detail has none. -/
def detail (label : String) : Option String → List String
  | some text => if text.isEmpty then [] else [label ++ ": " ++ text]
  | none => []

/-- The place, if there is one: the line, and the statement after a colon. -/
def place (f : Fault) : List String :=
  match f.line, f.statement with
  | some l, some s => ["Line: " ++ toString l ++ ":" ++ toString s]
  | some l, none => ["Line: " ++ toString l]
  | none, _ => []

/-- The full text of a fault. -/
def report (f : Fault) : String :=
  "\n".intercalate
    (["Error: " ++ f.message] ++ f.place ++ detail "Received" f.received
      ++ detail "Expected" f.expected ++ detail "Context" f.context
      ++ detail "Suggestion" f.suggestion)

/-- The one-line text of a fault. -/
def summary (f : Fault) : String :=
  let place := match f.line with
    | some l => " in " ++ toString l
    | none => ""
  match f.kind with
  | .syntaxError | .formMismatch =>
    "Syntax error" ++ place ++ if f.message.isEmpty then "" else ": " ++ f.message
  | .numberFormat => "Illegal number format" ++ place ++ ": " ++ f.message
  | .badFunctionCall => "Illegal function call" ++ place ++ ": " ++ f.message
  | _ => f.message ++ place

/-- Attributes a fault to a place.  A fault keeps the first place it gets, and a negative line
stands for a typed line, which is no place. -/
def locate (f : Fault) (line : Int) (statement : Option Int) : Fault :=
  if f.line = none ∧ 0 ≤ line then { f with line := some line, statement } else f

/-! ## Common faults -/

/-- A value of the wrong type. -/
def typeMismatch (received expected : String) : Fault :=
  { kind := .typeMismatch, message := "Type mismatch", received := some received,
    expected := some expected }

/-- A division by zero, or arithmetic without a finite answer. -/
def divisionByZero (context : String) : Fault :=
  { kind := .divisionByZero, message := "Division by zero", context := some context }

/-- A call of a function in a way that it does not allow. -/
def badCall (message : String) : Fault :=
  { kind := .badFunctionCall, message }

/-- A call of a function on a value that it does not allow. -/
def badCallOn (message received : String) : Fault :=
  { kind := .badFunctionCall, message, received := some received }

/-- A malformed statement. -/
def malformed (message : String) : Fault :=
  { kind := .syntaxError, message }

/-- A subscript outside an array. -/
def subscript (name : String) (index : Int) (size : Int) : Fault :=
  { kind := .subscriptOutOfRange
    message := "Subscript out of range for \"" ++ name ++ "\" (index: " ++ toString index
      ++ ", len: " ++ toString size ++ ")"
    received := some ("index " ++ toString index)
    expected := some ("an index within an array of length " ++ toString size) }

end Fault

/-- Why evaluation ended before it had a value. -/
inductive Stop where
  /-- The program is at fault. -/
  | fault (fault : Fault)
  /-- Arithmetic without an answer, before it is attributed to a statement. -/
  | mishap (mishap : Number.Mishap)
  /-- An array that contains itself was to be walked through. -/
  | endlessNesting
  /-- A line of input was wanted and there is none. -/
  | endOfInput
  /-- An element handle leads through a value that is no longer an array. -/
  | staleArray
  /-- An element handle's subscript is outside the array now at its place. -/
  | staleSubscript
  /-- A setting has a value that does not fit what it is needed for. -/
  | misfit
  /-- The allowance of steps was used up. -/
  | outOfFuel
deriving DecidableEq, Repr

end LineBasic
