import LineBasic.Session.Names

/-!
# Operands

Evaluating a tree gives an operand, which need not be a value yet: a name is looked up, and an
element of an array read, only when a builtin asks for the value.  So builtins that write can be
given the place to write to.

An element is kept as the array that the subscripts started from and the subscripts, so it is found
anew whenever it is read or written.  If an array on the way was replaced in the meantime, the
subscripts may lead nowhere.
-/

set_option autoImplicit false
namespace LineBasic

/-- What a tree evaluates to. -/
inductive Operand where
  | value (v : Value)
  /-- A name, not looked up. -/
  | reference (name : String)
  /-- An element: the array to start from, the subscripts of the arrays on the way, the subscript of
  the element, and the name that all started with. -/
  | element (base : Nat) (way : List Nat) (index : Nat) (name : String)
  /-- Something in an array that is no element, because its subscript is no integer.  It can be
  neither read nor written. -/
  | inexact (base : Nat) (way : List Nat) (name : String)
  /-- An assignment that was made, or is to be made by a loop. -/
  | assignment (name : String) (v : Value)
  /-- A jump that the statement ends with. -/
  | jump (target : Site)

namespace Heap

/-- Follows subscripts from array to array. -/
def follow (h : Heap) (place : Nat) : List Nat → Except Stop Nat
  | [] => .ok place
  | index :: way => match (h.elements place)[index]? with
    | none => .error .staleSubscript
    | some (.array inner) => h.follow inner way
    | some _ => .error .staleArray

/-- Reads an element. -/
def readElement (h : Heap) (base : Nat) (way : List Nat) (index : Nat) : Except Stop Value := do
  let place ← h.follow base way
  match (h.elements place)[index]? with
  | some v => return v
  | none => throw .staleSubscript

/-- Writes an element. -/
def writeElement (h : Heap) (base : Nat) (way : List Nat) (index : Nat) (v : Value) :
    Except Stop Heap := do
  let place ← h.follow base way
  if index < (h.elements place).size then return h.set place index v else throw .staleSubscript

end Heap

namespace Operand

/-- An access to something in an array that is no element. -/
def miss {α : Type} (base : Nat) (way : List Nat) : Action α := do
  let _ ← Action.ofStop ((← get).heap.follow base way)
  throw .misfit

/-- The value of an operand. -/
def resolve : Operand → Action Value
  | value v => return v
  | reference name => Action.lookup name
  | element base way index _ => do Action.ofStop ((← get).heap.readElement base way index)
  | inexact base way _ => miss base way
  | assignment _ v => return v
  | jump _ => return .null

/-- The values of several operands. -/
def resolveAll (operands : List Operand) : Action (List Value) :=
  operands.mapM resolve

/-- An operand in a diagnostic. -/
def typed : Operand → Action String
  | value v => Action.typed v
  | reference _ => return "TBASReference"
  | element .. | inexact .. => return "TBASArrayIndexRef"
  | assignment .. => return "TBASAssignment"
  | jump _ => return "TBASJump"

/-- Writes a value to a variable or an element, and tells the name that was written to. -/
def store (target : Operand) (v : Value) (statement : String) : Action String := do
  match target with
  | reference name =>
    Action.assign name v
    return name
  | element base way index name =>
    let s ← get
    set { s with heap := ← Action.ofStop (s.heap.writeElement base way index v) }
    return name
  | inexact base way _ => miss base way
  | target =>
    Action.fail
      { kind := .syntaxError, message := "Cannot assign to " ++ (← target.typed)
        expected := some ("a variable or array element on the left of " ++ statement) }

end Operand

end LineBasic
