import LineBasic.Number.Random
import LineBasic.Program
import LineBasic.Session.Binders
import LineBasic.Session.Bus
import LineBasic.Session.Console
import LineBasic.Session.Variables
import LineBasic.Settings
import LineBasic.Value.Text

/-!
# Sessions

A session is all that statements can read and change: the variables and the heap of arrays, the
stored program, open loops and subroutines, labels and data, options, and the devices.  An `Action`
is a computation on a session that may stop early; what it changed before it stopped stays changed.
-/

set_option autoImplicit false
namespace LineBasic

/-- Where a statement stands: its line, and its position on the line. -/
structure Site where
  line : Int
  statement : Nat
deriving DecidableEq, Repr

/-- The line number of a line that is typed without one. -/
def typedLine : Int := -1

/-- The statement after another. -/
def Site.next (site : Site) : Site :=
  { site with statement := site.statement + 1 }

/-- What a loop runs over. -/
inductive LoopSource where
  | range (g : Generator)
  /-- The values that the loop variable has yet to take. -/
  | rest (values : List Value)

/-- A loop that was entered and not left. -/
structure Loop where
  /-- The loop variable. -/
  name : String
  source : LoopSource
  /-- Where the statement stands that entered the loop. -/
  head : Site

/-- The state that statements work on. -/
structure Session where
  settings : Settings
  program : Program := .empty
  heap : Heap := .initial
  vars : Variables := {}
  binders : Binders.Stack
  /-- Where subroutines return to, the innermost first. -/
  returns : List Site := []
  /-- The open loops, the innermost first. -/
  loops : List Loop := []
  /-- The lines that labels stand on. -/
  labels : Table String Int := {}
  /-- The values that data statements give. -/
  data : List Value := []
  /-- How many of them were read. -/
  cursor : Nat := 0
  /-- The subscript of the first element of an array. -/
  indexBase : Quantity
  isDebugging : Bool
  isTracing : Bool
  isProduction : Bool
  /-- Whether labels and data are being collected. -/
  isCollecting : Bool := false
  console : Console := {}
  bus : Bus := .unavailable
  random : Number.Random
  /-- The lines that were traced, the latest first. -/
  traced : List Int := []

namespace Session

/-- A session at its start. -/
def start (settings : Settings) (console : Console) (bus : Bus) (seed : UInt64) : Session where
  settings := settings
  binders := .outermost settings.maxDepth
  indexBase := settings.indexBase
  isDebugging := settings.debug
  isTracing := settings.trace
  isProduction := settings.production
  console := console
  bus := bus
  random := .ofSeed seed

/-- The session with no loops, subroutines and calls under way. -/
def unwind (s : Session) : Session :=
  { s with binders := s.binders.reset, returns := [], loops := [] }

/-- The session without variables, labels and data, and with the index base that it started with.
No value is left that could refer to an array, so the heap is that of the start. -/
def reset (s : Session) : Session :=
  { s.unwind with
    heap := .initial
    vars := .empty
    labels := {}
    data := []
    cursor := 0
    indexBase := s.settings.indexBase }

/-- The memory that variables and the program take. -/
def memoryUsed (s : Session) : Int :=
  s.vars.footprint s.heap + s.program.footprint

/-- The memory that is left. -/
def memoryFree (s : Session) : Except Stop Quantity :=
  s.settings.memorySize.sub s.memoryUsed

end Session

/-! ## Actions -/

/-- A computation on a session. -/
abbrev Action (α : Type) : Type := EStateM Stop Session α

namespace Action

variable {α : Type}

/-- Stops with a fault. -/
def fail (f : Fault) : Action α :=
  throw (.fault f)

/-- A result that may be a stop. -/
def ofStop : Except Stop α → Action α
  | .ok a => pure a
  | .error stop => throw stop

/-- A result that may be a fault. -/
def ofFault : Except Fault α → Action α
  | .ok a => pure a
  | .error f => fail f

/-- A result that may have no answer. -/
def ofNumber : Except Number.Mishap α → Action α
  | .ok a => pure a
  | .error mishap => throw (.mishap mishap)

/-- The text of a value. -/
def describe (v : Value) : Action String := do
  ofStop ((← get).heap.describe v)

/-- A value in a diagnostic. -/
def typed (v : Value) : Action String := do
  ofStop ((← get).heap.typed v)

/-- The elements of an array. -/
def elements (place : Nat) : Action (List Value) :=
  return ((← get).heap.elements place).toList

/-- A new array. -/
def newArray (elements : List Value) : Action Value := do
  let s ← get
  let (place, heap) := s.heap.alloc elements.toArray
  set { s with heap }
  return .array place

/-- What a number that is counted from the index base selects from a list of the given size. -/
def position (n : Int) (size : Nat) : Action Quantity.Position := do
  return (← ofStop (Quantity.sub n (← get).indexBase)).position size

/-- Prints a text. -/
def print (text : String) : Action Unit :=
  modify fun s ↦ { s with console := s.console.print text }

/-- Reads a line of input. -/
def readLine : Action String := do
  let s ← get
  match s.console.readLine? with
  | some (line, console) =>
    set { s with console }
    return line
  | none => throw .endOfInput

end Action

end LineBasic
