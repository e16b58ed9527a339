import LineBasic.Operand

/-!
# Arguments of builtins

Builtins ask for arguments of the types that they work on; a value of another type is a fault of the
call, told with the name of the builtin.
-/

set_option autoImplicit false
namespace LineBasic

/-- A function that can be called: one function, or several that are called one after the other. -/
inductive Callable where
  | single (c : Closure)
  | chain (cs : List Closure)

namespace Callable

/-- The functions that a call goes through, the first first. -/
def functions : Callable → List Closure
  | single c => [c]
  | chain cs => cs

/-- Calls a function.  A chain passes on one argument; without any, it starts from nothing. -/
def call (enter : Closure → List Value → Action Value) (args : List Value) :
    Callable → Action Value
  | single c => enter c args
  | chain cs => cs.foldlM (fun v c ↦ enter c [v]) (args.headD .null)

end Callable

/-- The function that a value is, if it is one. -/
def Value.callable? : Value → Option Callable
  | .closure c => some (.single c)
  | .composed cs => some (.chain cs)
  | _ => none

namespace Builtin

/-- An argument of the wrong type. -/
def mistyped {α : Type} (b : Builtin) (v : Value) (wanted : String) : Action α := do
  Action.fail (.typeMismatch (← Action.typed v) (wanted ++ " for " ++ b.name))

/-- A number. -/
def number (b : Builtin) (v : Value) : Action Float :=
  match v with
  | .number x => return x
  | v => b.mistyped v "a number"

/-- The integer part of a number. -/
def integer (b : Builtin) (v : Value) : Action Int := do
  Action.ofNumber (Number.truncate (← b.number v))

/-- A text. -/
def text (b : Builtin) (v : Value) : Action String :=
  match v with
  | .string s => return s
  | v => b.mistyped v "a string"

/-- A truth value. -/
def truth (b : Builtin) (v : Value) : Action Bool :=
  match v with
  | .boolean x => return x
  | v => b.mistyped v "a boolean"

/-- The items of an array, a range or a list monad. -/
def items (b : Builtin) (v : Value) : Action (List Value) :=
  match v with
  | .array place => Action.elements place
  | .generator g => return g.numbers.map Value.number
  | .listMonad elements => return elements
  | v => b.mistyped v "an array or generator"

/-- A function. -/
def function (b : Builtin) (v : Value) : Action Callable := do
  match v.callable? with
  | some f => return f
  | none =>
    Action.fail
      { Fault.badCallOn (b.name ++ " needs a function") (← Action.typed v) with
        expected := some "a function, e.g. [X] ~> X * 2" }

end Builtin

end LineBasic
