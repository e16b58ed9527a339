import LineBasic.Builtin.Arithmetic
import LineBasic.Builtin.Data
import LineBasic.Builtin.Device
import LineBasic.Builtin.Function
import LineBasic.Builtin.Jump
import LineBasic.Builtin.Loop
import LineBasic.Builtin.Sequence

/-!
# Calling builtins

What each builtin does with its arguments.  Builtins that write, loop or jump get their operands as
they are, all others get the values.
-/

set_option autoImplicit false
namespace LineBasic.Builtin

/-- A call with the wrong number of arguments. -/
def miscount (b : Builtin) (given : Nat) : Fault :=
  let wanted := b.arity.getD 0
  .malformed (b.name ++ " takes " ++ toString wanted ++ " argument"
    ++ (if wanted = 1 then "" else "s") ++ ", got " ++ toString given)

/-- Whether a builtin can be called with a number of arguments. -/
def accepts (b : Builtin) (given : Nat) : Bool :=
  match b.arity with
  | some wanted => given == wanted
  | none => true

section
variable (enter : Closure → List Value → Action Value)

/-- Calls an operator or a function of two arguments. -/
def performTwo? (b : Builtin) (v w : Value) : Option (Action Value) :=
  match b with
  | .plus => some (plusOf v w)
  | .minus => some (b.arithmetic (· - ·) v w)
  | .times => some (b.arithmetic (· * ·) v w)
  | .divide => some (b.divideOf v w)
  | .quotient => some (b.quotientOf v w)
  | .modulo => some (b.moduloOf v w)
  | .power => some (b.powerOf v w)
  | .equal => some (return .boolean (← areEqual v w))
  | .unequal | .unlike => some (return .boolean (!(← areEqual v w)))
  | .less => some (b.compared (· < ·) (· < ·) v w)
  | .greater => some (b.compared (· > ·) (· > ·) v w)
  | .lessEq | .eqLess => some (b.compared (· ≤ ·) (· ≤ ·) v w)
  | .greaterEq | .eqGreater => some (b.compared (· ≥ ·) (· ≥ ·) v w)
  | .shiftLeft => some (b.shift Number.shiftLeft v w)
  | .shiftRight => some (b.shift Number.shiftRight v w)
  | .bitAnd => some (b.bitwise Number.bitAnd v w)
  | .bitOr => some (b.bitwise Number.bitOr v w)
  | .bitXor => some (b.bitwise Number.bitXor v w)
  | .and => some (b.logical (· && ·) v w)
  | .or => some (b.logical (· || ·) v w)
  | .min => some (b.arithmetic (fun x y ↦ if y < x then y else x) v w)
  | .max => some (b.arithmetic (fun x y ↦ if x < y then y else x) v w)
  | .to => some (b.rangeOf v w)
  | .step => some (b.stepOf v w)
  | .cons => some (consOf v w)
  | .snoc => some (snocOf v w)
  | .concat => some (concatOf v w)
  | .compose => some (b.composeOf v w)
  | .apply => some (b.applyOf enter v w)
  | .curry => some (curryOf v w)
  | .bind => some (bindOf enter v w)
  | .andThen => some (thenOf v w)
  | .left => some (b.leftOf v w)
  | .right => some (b.rightOf v w)
  | .map => some (b.mapOf enter v w)
  | .filter => some (b.filterOf enter v w)
  | .moveCursor => some (b.moveCursorOf v w)
  | .poke => some (b.pokeOf v w)
  | _ => none

/-- Calls a function of one argument. -/
def performOne? (b : Builtin) (site : Site) (v : Value) : Option (Action Value) :=
  match b with
  | .negate => some do return .number (-(← b.number v))
  | .positive => some do return .number (← b.number v)
  | .not => some (return .boolean (!v.isTruthy))
  | .bitNot => some (b.bitNotOf v)
  | .ret => some (return .memoMonad v)
  | .join => some (joinOf v)
  | .random => some (b.randomOf v)
  | .spaces => some (b.spacesOf v)
  | .chr => some (b.chrOf v)
  | .len => some (b.lenOf v)
  | .head => some (b.endOf List.head? v)
  | .last => some (b.endOf List.getLast? v)
  | .tail => some (b.cutOf List.tail v)
  | .init => some (b.cutOf List.dropLast v)
  | .reduce => some (b.reduceOf v)
  | .listOf => some (b.listMonadOf v)
  | .typeOf => some (return .string v.typeName)
  | .test => some (return v)
  | .optionBase => some (b.optionBaseOf v)
  | .optionDebug => some (b.optionDebugOf v)
  | .optionTrace => some (b.optionTraceOf v)
  | .textFore => some (b.textForeOf v)
  | .textBack => some (b.textBackOf v)
  | .peek => some (b.peekOf v)
  | .printMonad => some (printMonadOf v)
  | .resolve => some (resolveOf site v)
  | b => (elementary? b).map fun f ↦ b.elementaryOf f v

/-- Calls a function of no arguments. -/
def performNone? (b : Builtin) : Option (Action Value) :=
  match b with
  | .takeData => some nextDatum
  | .restore => some restoreOf
  | .clear => some clearOf
  | .readText => some readTextOf
  | .clearScreen => some clearScreenOf
  | .keysDown => some keysDownOf
  | _ => none

/-- Calls a builtin that takes any number of arguments. -/
def performAny? (b : Builtin) (separators : List Separator) (vs : List Value) :
    Option (Action Value) :=
  match b with
  | .dim => some (b.dimOf vs)
  | .sequence => some (return vs.getLastD .null)
  | .data => some (dataOf vs)
  | .print => some (printOf false separators vs)
  | .emit => some (printOf true separators vs)
  | _ => none

/-- Calls a builtin on values, if it takes as many and is not one for operands. -/
def perform? (b : Builtin) (site : Site) (separators : List Separator) (vs : List Value) :
    Option (Action Value) :=
  performAny? b separators vs <|>
    match b, vs with
    | .finish, [] | .comeBack, [] => none
    | .mid, [s, start, length] => some (b.midOf s start length)
    | .fold, [f, start, list] => some (b.foldOf enter f start list)
    | .plot, [x, y, v] => some (b.plotOf x y v)
    | b, [] => performNone? b
    | b, [v] => performOne? b site v
    | b, [v, w] => performTwo? enter b v w
    | _, _ => none

end

/-- Calls a builtin on operands, if it is one for operands, or one that jumps. -/
def performRaw? (b : Builtin) (site : Site) (operands : List Operand) : Option (Action Operand) :=
  match b, operands with
  | .assign, [target, operand] => some (b.assignOf target operand)
  | .member, [target, operand] => some (memberOf target operand)
  | .loop, [operand] => some (b.loopOf site operand)
  | .loopOver, [operand] => some (b.loopOverOf site operand)
  | .next, operands => some (b.nextOf operands)
  | .goto, [operand] => some (b.gotoOf operand)
  | .gosub, [operand] => some (b.gosubOf site operand)
  | .comeBack, [] => some comeBackOf
  | .finish, [] => some (return finishOf)
  | .read, [target] => some (b.readOf target)
  | .label, [operand] => some (labelOf site operand)
  | .input, [target] => some (b.inputOf target)
  | .resolveVar, [operand] => some (resolveVarOf operand)
  | _, _ => none

/-- Calls a builtin on operands, which are resolved from left to right where it works on values. -/
def invoke (enter : Closure → List Value → Action Value) (b : Builtin) (site : Site)
    (separators : List Separator) (operands : List Operand) : Action Operand := do
  if !b.accepts operands.length then Action.fail (b.miscount operands.length)
  else match b.performRaw? site operands with
    | some action => action
    | none =>
      let vs ← Operand.resolveAll operands
      match b.perform? enter site separators vs with
      | some action => return .value (← action)
      | none => Action.fail (b.miscount operands.length)

end LineBasic.Builtin
