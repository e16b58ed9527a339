import LineBasic.Value

/-!
# Fixing the first parameter

A function of one parameter fewer is made by putting a value in the place of the first parameter.
References to the other parameters of the function move down by one; references to parameters of
functions inside the body, and to captured frames, stay as they are.
-/

set_option autoImplicit false
namespace LineBasic

namespace Tree

mutual

/-- Puts a value in the place of the first parameter of the function `level` functions out. -/
def substitute (v : Value) (level : Nat) : Tree → Tree
  | .parameter depth index =>
    if depth = level then
      match index with
      | 0 => .value v
      | index + 1 => .parameter depth index
    else .parameter depth index
  | .unary op operand => .unary op (substitute v level operand)
  | .binary op left right => .binary op (substitute v level left) (substitute v level right)
  | .call name args separators => .call name (substituteAll v level args) separators
  | .apply callee args separators =>
    .apply (substitute v level callee) (substituteAll v level args) separators
  | .array elements => .array (substituteAll v level elements)
  | .lambda names body => .lambda names (substitute v (level + 1) body)
  | .branch condition yes no =>
    .branch (substitute v level condition) (substitute v level yes) (substituteElse v level no)
  | .select kind test targets =>
    .select kind (substitute v level test) (substituteAll v level targets)
  | t => t

/-- Puts the value into several trees. -/
def substituteAll (v : Value) (level : Nat) : List Tree → List Tree
  | [] => []
  | t :: ts => substitute v level t :: substituteAll v level ts

/-- Puts the value into the other branch of a conditional. -/
def substituteElse (v : Value) (level : Nat) : Option Tree → Option Tree
  | none => none
  | some t => some (substitute v level t)

end

end Tree

/-- The function with its first parameter fixed; one without parameters has none to fix. -/
def Closure.curry? (c : Closure) (v : Value) : Option Closure :=
  match c with
  | .mk 0 _ _ _ => none
  | .mk (arity + 1) body captured name => some (.mk arity (body.substitute v 0) captured name)

end LineBasic
