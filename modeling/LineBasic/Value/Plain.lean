import LineBasic.Fault
import LineBasic.Heap

/-!
# Plain data

A value as a host program sees it: texts, numbers, truth values, nothing, and lists of these.
Sequences of every kind become lists, and functions stay what they are.
-/

set_option autoImplicit false
namespace LineBasic

/-- What a host program receives. -/
inductive Plain where
  | nothing
  | truth (b : Bool)
  | number (x : Float)
  | text (s : String)
  | list (elements : List Plain)
  | function (v : Value)

section
variable (array : Nat → Except Stop Plain)

mutual

/-- A value as plain data, given the arrays as plain data. -/
def plainValue : Value → Except Stop Plain
  | .number x => .ok (.number x)
  | .string s => .ok (.text s)
  | .boolean b => .ok (.truth b)
  | .null => .ok .nothing
  | .array place => array place
  | .generator g => .ok (.list (g.numbers.map Plain.number))
  | .closure c => .ok (.function (.closure c))
  | .listMonad elements => return .list (← plainValues elements)
  | .memoMonad held => plainValue held
  | .composed functions => .ok (.function (.composed functions))

/-- Several values as plain data. -/
def plainValues : List Value → Except Stop (List Plain)
  | [] => .ok []
  | v :: vs => do
    let p ← plainValue v
    return p :: (← plainValues vs)

end

end

namespace Heap

/-- The array at a place as plain data, entering at most as many arrays as allowed. -/
def plainArray (h : Heap) : Nat → Nat → Except Stop Plain
  | 0, _ => .error .endlessNesting
  | allowed + 1, place =>
    return .list (← plainValues (plainArray h allowed) (h.elements place).toList)

/-- A value as plain data. -/
def plain (h : Heap) (v : Value) : Except Stop Plain :=
  plainValue (h.plainArray (h.size + 1)) v

end Heap

end LineBasic
