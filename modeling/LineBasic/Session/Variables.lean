import LineBasic.Fault
import LineBasic.Heap
import LineBasic.Table
import LineBasic.Text.Upper

/-!
# Variables and constants

Names are kept in upper case.  The constants can be read like variables and never assigned.  Values
count against the memory of a session: a number takes eight bytes, a text one for each character,
an array eight for each element, and everything else one.
-/

set_option autoImplicit false
namespace LineBasic

/-- The memory that a value takes. -/
def Heap.footprint (h : Heap) : Value → Int
  | .number _ => 8
  | .string s => s.length
  | .array place => 8 * (h.elements place).size
  | _ => 1

/-- The place in the heap of the array that the constant `NIL` is. -/
def nilPlace : Nat := 0

/-- The heap that a session starts with: the empty array of `NIL`. -/
def Heap.initial : Heap := ⟨#[#[]]⟩

/-- The circle number. -/
def pi : Float := Float.ofBits 0x400921FB54442D18

/-- The constants. -/
def constants : List (String × Value) :=
  [("NIL", .array nilPlace), ("PI", .number pi), ("TAU", .number (2 * pi)),
   ("EULER", .number (Float.ofBits 0x4005BF0A8B145769)),
   ("ID", .closure (.mk 1 (.parameter 0 0) [] "ID")), ("UNDEFINED", .null),
   ("TRUE", .boolean true), ("FALSE", .boolean false)]

/-- The value of a constant, by its name in upper case. -/
def constant? (key : String) : Option Value :=
  (constants.find? fun c ↦ c.1 == key).map Prod.snd

/-- The variables of a session. -/
structure Variables where
  table : Table String Value := {}

namespace Variables

/-- No variables. -/
def empty : Variables := {}

/-- Whether a name is that of a constant. -/
def isConstant (name : String) : Bool :=
  (constant? (Text.upper name)).isSome

/-- The value of a constant or variable. -/
def lookup? (vars : Variables) (name : String) : Option Value :=
  let key := Text.upper name
  constant? key <|> vars.table.get? key

/-- Gives a variable a value; a constant has its value for good. -/
def define (vars : Variables) (name : String) (v : Value) : Except Fault Variables :=
  let key := Text.upper name
  if (constant? key).isSome then
    .error
      { kind := .assignmentToConstant
        message := "Trying to modify constant \"" ++ key ++ "\"" }
  else .ok ⟨vars.table.insert key v⟩

/-- The names of the constants and the variables. -/
def names (vars : Variables) : List String :=
  constants.map Prod.fst ++ vars.table.keys

/-- The memory that all variables take. -/
def footprint (h : Heap) (vars : Variables) : Int :=
  vars.table.values.foldr (h.footprint · + ·) 0

/-- The memory that all variables would take if a name had a value. -/
def footprintWith (h : Heap) (vars : Variables) (name : String) (v : Value) : Int :=
  let total := vars.footprint h + h.footprint v
  match vars.table.get? (Text.upper name) with
  | some current => total - h.footprint current
  | none => total

/-- The number of variables, for inspection. -/
def describe (vars : Variables) : String :=
  "TBASVariableTable(variables=" ++ toString vars.table.entries.length ++ ")"

end Variables

end LineBasic
