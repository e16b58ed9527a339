import LineBasic.Builtin.Argument
import LineBasic.Tree.Curry

/-!
# Functions and monads

Builtins that call functions, combine them, and work on monads.  How a function is entered is given
to them from outside.
-/

set_option autoImplicit false
namespace LineBasic.Builtin

variable (enter : Closure → List Value → Action Value)

/-! ## Calling functions on sequences -/

/-- The results of a function on all items. -/
def mapOf (b : Builtin) (f list : Value) : Action Value := do
  let f ← b.function f
  let items ← b.items list
  Action.newArray (← items.mapM fun v ↦ f.call enter [v])

/-- The result of a function applied to what was found so far and each item in turn. -/
def foldOf (b : Builtin) (f start list : Value) : Action Value := do
  let f ← b.function f
  (← b.items list).foldlM (fun found v ↦ f.call enter [found, v]) start

/-- The items for which a function gives something true. -/
def filterOf (b : Builtin) (f list : Value) : Action Value := do
  let f ← b.function f
  let items ← b.items list
  Action.newArray (← items.filterM fun v ↦ return (← f.call enter [v]).isTruthy)

/-- The result of a function on one argument. -/
def applyOf (b : Builtin) (f v : Value) : Action Value := do
  (← b.function f).call enter [v]

/-! ## Combining functions -/

/-- Two functions as one that calls the second first. -/
def composeOf (b : Builtin) (outer inner : Value) : Action Value := do
  let first ← b.function inner
  let second ← b.function outer
  return .composed (first.functions ++ second.functions)

/-- A function with its first argument fixed. -/
def curryOf (f v : Value) : Action Value := do
  match f with
  | .closure c => match c.curry? v with
    | some c => return .closure c
    | none =>
      Action.fail (.badCallOn "cannot curry a function with no parameters" (← Action.describe f))
  | f => Action.fail (.badCallOn "'~<' needs a function on its left" (← Action.typed f))

/-- A value that has to be a function. -/
def reduceOf (b : Builtin) (f : Value) : Action Value := do
  let _ ← b.function f
  return f

/-! ## Monads -/

/-- What a monad holds, if the value is one: its value, or an array of its items. -/
def unwrap? (v : Value) : Option (Action Value) :=
  match v with
  | .memoMonad held => some (return held)
  | .listMonad elements => some (Action.newArray elements)
  | .composed cs => some (Action.newArray (cs.map Value.closure))
  | _ => none

/-- Whether a value is a monad. -/
def isMonad (v : Value) : Bool :=
  (unwrap? v).isSome

/-- The monad of the items of a value; what has no items is the only one. -/
def listMonadOf (b : Builtin) (v : Value) : Action Value := do
  match v with
  | .array _ | .generator _ => return .listMonad (← b.items v)
  | v => return .listMonad [v]

/-- What a monad holds. -/
def joinOf (v : Value) : Action Value := do
  match unwrap? v with
  | some held => held
  | none => Action.fail (.typeMismatch (← Action.typed v) "a monad")

/-- The monad that a function makes of what a monad holds. -/
def bindOf (v f : Value) : Action Value := do
  match unwrap? v, f.callable? with
  | none, _ =>
    Action.fail (.badCallOn "left-hand side of '>>=' is not a monad" (← Action.typed v))
  | _, none =>
    Action.fail (.badCallOn "right-hand side of '>>=' is not a function" (← Action.typed f))
  | some held, some f =>
    let result ← f.call enter [← held]
    if isMonad result then return result
    else
      Action.fail (.badCallOn "right-hand function did not return a monad" (← Action.typed result))

/-- The second of two monads. -/
def thenOf (v w : Value) : Action Value := do
  if !isMonad v then refuse v
  if !isMonad w then refuse w
  return w
where
  refuse (v : Value) : Action Unit := do
    Action.fail (.badCallOn "'>>~' needs a monad on both sides" (← Action.typed v))

end LineBasic.Builtin
