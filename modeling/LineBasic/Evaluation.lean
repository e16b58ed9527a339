import LineBasic.Evaluation.Perform
import LineBasic.Evaluation.Subscript

/-!
# Evaluation

Trees are evaluated on a session.  Operands are evaluated from left to right before a builtin gets
them; of a conditional only the condition and one branch are evaluated.

Calls of functions can nest as deep as the settings allow.  Evaluation is by recursion on the tree,
given how functions are entered, and entering a function is by recursion on the depth that is left,
so that evaluation always ends.

* `eval` — evaluates a tree.
* `callWithin` — calls a function with a limited depth of calls inside.
* `evaluate` — evaluates a tree with the depth that the session allows.
-/

set_option autoImplicit false
namespace LineBasic

/-- The builtin that an operator calls; some operators only stand before an operand. -/
def Builtin.ofOperator? (op : Operator) : Option Builtin :=
  ofKey? op.text

/-- The builtin that a computed jump calls. -/
def JumpKind.builtin : JumpKind → Builtin
  | .goto => .goto
  | .gosub => .gosub

/-- An action inside a call: with the arguments on top of the frames of the function, and with the
frames and calls from before put back in the end, however the action ends. -/
def Action.inCall {α : Type} (c : Closure) (args : Frame) (act : Action α) : Action α := fun s ↦
  match s.binders.enter? c args with
  | .error f => .error (.fault f) s
  | .ok inner => match act { s with binders := inner } with
    | .ok a s' => .ok a { s' with binders := s.binders }
    | .error stop s' => .error stop { s' with binders := s.binders }

section
variable (enter : Closure → List Value → Action Value) (site : Site)

/-- Applies a value to arguments: functions are called, arrays give elements, and monads what they
hold.  Other values can be applied only to no arguments, and are left as they are. -/
def applyValue (v : Value) (args : List Value) (name : String) : Action Operand := do
  match v.callable?, v, args with
  | some f, _, args => return .value (← f.call enter args)
  | none, .array place, arg :: args => Operand.subscripted place [] name (arg :: args)
  | none, v, args => match Builtin.unwrap? v, args with
    | some held, _ => return .value (← held)
    | none, [] => return .value v
    | none, _ =>
      let wanted := "a function or array" ++ if name.isEmpty then "" else " to call " ++ name
      Action.fail (.typeMismatch (← Action.typed v) wanted)

/-- Applies an operand to arguments.  An element that is an array is applied by way of the array
that it is an element of. -/
def applyOperand (callee : Operand) (args : List Value) (name : String) : Action Operand := do
  match callee, ← callee.resolve with
  | .element base way index _, .array _ => Operand.subscripted base (way ++ [index]) name args
  | _, v => applyValue enter v args name

/-- The name that an operand is applied under: that of an element, or else the callee's text. -/
def calleeName (callee : Operand) (t : Tree) : Action String := do
  match callee with
  | .element _ _ _ name | .inexact _ _ name => return name
  | _ => Action.ofStop ((← get).heap.describeTree t)

/-- Calls a builtin, once it is known to be enabled, on operands that are evaluated then. -/
def callBuiltin (b : Builtin) (separators : List Separator) (operands : Action (List Operand)) :
    Action Operand := do
  Action.ofFault ((← get).checkEnabled b)
  b.invoke enter site separators (← operands)

/-- The position that a number selects from a list of targets, if there is such a target. -/
def selected (kind : JumpKind) (count : Nat) (v : Value) : Action (Option Nat) := do
  match v with
  | .number x =>
    let n ← Action.ofNumber (Number.truncate x)
    match ← Action.position n count with
    | .element k => return some k
    | .inexact => throw .misfit
    | .outside => return none
  | v =>
    Action.fail (.typeMismatch (← Action.typed v) ("a number for ON ... " ++ kind.text))

mutual

/-- Evaluates a tree. -/
def eval : Tree → Action Operand
  | .null => return .value .null
  | .number x => return .value (.number x)
  | .string s => return .value (.string s)
  | .boolean b => return .value (.boolean b)
  | .value v => return .value v
  | .ident name => return .reference name
  | .parameter depth index => do
    return .value (← Action.ofFault ((← get).binders.lookup depth index))
  | .lambda names body => do
    return .value (.closure (.mk names.length body (← get).binders.frames ""))
  | .params names =>
    let text := "[" ++ ", ".intercalate names ++ "]"
    Action.fail { Fault.malformed "Parameter list without a function body" with
      received := some text, expected := some (text ++ " ~> expression") }
  | .array elements => do return .value (← Action.newArray (← evalValues elements))
  | .branch condition yes no => do
    if (← (← eval condition).resolve).isTruthy then eval yes else evalElse no
  | .select kind test targets => do
    match ← selected kind targets.length (← (← eval test).resolve) with
    | some position =>
      kind.builtin.invoke enter site [] (← evalAt targets position)
    | none => return .value .null
  | .unary op operand => callBuiltin enter site (.ofUnary op) [] (return [← eval operand])
  | .binary op left right => match Builtin.ofOperator? op with
    | some b => callBuiltin enter site b [] do
      let left ← eval left
      return [left, ← eval right]
    | none => Action.fail (.malformed ("Unknown operator '" ++ op.text ++ "'"))
  | .call name args separators => match Builtin.ofName? name with
    | some b => callBuiltin enter site b separators (evalAll args)
    | none => do applyOperand enter (.reference name) (← evalValues args) name
  | .apply callee args _ => do
    let f ← eval callee
    let name ← calleeName f callee
    applyOperand enter f (← evalValues args) name
  | .define name names body => do
    let text ← Action.ofStop ((← get).heap.describeTree (.define name names body))
    Action.fail { Fault.malformed "Cannot evaluate a definition" with received := some text }

/-- Evaluates several trees. -/
def evalAll : List Tree → Action (List Operand)
  | [] => return []
  | t :: ts => do
    let operand ← eval t
    return operand :: (← evalAll ts)

/-- The values of several trees, each resolved before the next tree is evaluated. -/
def evalValues : List Tree → Action (List Value)
  | [] => return []
  | t :: ts => do
    let v ← (← eval t).resolve
    return v :: (← evalValues ts)

/-- Evaluates one of several trees. -/
def evalAt : List Tree → Nat → Action (List Operand)
  | [], _ => return []
  | t :: _, 0 => return [← eval t]
  | _ :: ts, n + 1 => evalAt ts n

/-- Evaluates the other branch of a conditional, if there is one. -/
def evalElse : Option Tree → Action Operand
  | some t => eval t
  | none => return .value .null

end

end

/-- Calls a function, with a limited depth of calls: its own, and those inside it. -/
def callWithin (site : Site) : Nat → Closure → List Value → Action Value
  | 0, _, _ => do Action.fail (← get).binders.tooDeep
  | room + 1, c, args => Action.inCall c args do
    (← eval (callWithin site room) site c.body).resolve

/-- A depth of calls that no host has room for. -/
def boundlessDepth : Nat := Number.tenTo 15

/-- The depth of calls that is left.  Where the limit is no integer, no more is allowed than can be
entered. -/
def Session.room (s : Session) : Nat :=
  match s.binders.limit.whole? with
  | some limit => (limit - s.binders.depth).toNat
  | none => boundlessDepth

/-- Evaluates a tree of a statement. -/
def evaluate (site : Site) (t : Tree) : Action Operand := do
  eval (callWithin site (← get).room) site t

end LineBasic
