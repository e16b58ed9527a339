import LineBasic.Builtin.Argument

/-!
# Assignments and loops

A loop is entered by the assignment of its first value, and stays open until its last value was
taken.  Every statement that steps a loop on jumps to the statement after the one that entered it.
-/

set_option autoImplicit false
namespace LineBasic.Builtin

/-! ## Assignments -/

/-- A function gets the name of the variable it is first assigned to. -/
def nameFunction (target : Operand) (v : Value) : Value :=
  match target, v with
  | .reference name, .closure c => .closure (if c.name.isEmpty then c.rename name else c)
  | _, v => v

/-- Assigns a value to a variable or an element. -/
def assignOf (b : Builtin) (target operand : Operand) : Action Operand := do
  let v := nameFunction target (← operand.resolve)
  return .assignment (← target.store v b.name) v

/-- Pairs a loop variable with what the loop runs over. -/
def memberOf (target operand : Operand) : Action Operand := do
  match target with
  | .reference name => return .assignment name (← operand.resolve)
  | target =>
    Action.fail { Fault.malformed "IN needs a variable name on its left" with
      received := some (← target.typed) }

/-! ## Loops -/

/-- The loop variable and what the loop runs over. -/
def loopHead (b : Builtin) (operand : Operand) : Action (String × Value) :=
  match operand with
  | .assignment name v => return (name, v)
  | _ =>
    Action.fail { Fault.malformed ("Malformed " ++ b.name) with
      expected := some "FOR I = 1 TO 10 or FOREACH X IN A" }

/-- Assigns the first value of a loop and opens the loop. -/
def enterLoop (name : String) (first : Value) (source : LoopSource) (site : Site) :
    Action Operand := do
  Action.assign name first
  modify fun s ↦ { s with loops := ⟨name, source, site⟩ :: s.loops }
  return .value .null

/-- Enters a loop over a range. -/
def loopOf (b : Builtin) (site : Site) (operand : Operand) : Action Operand := do
  let (name, v) ← b.loopHead operand
  match v with
  | .generator g =>
    enterLoop name (.number g.start) (.range (.fresh g.start g.stop g.step)) site
  | v => Action.fail (.typeMismatch (← Action.typed v) "a range, e.g. FOR I = 1 TO 10")

/-- Enters a loop over the items of a sequence, as they are now. -/
def loopOverOf (b : Builtin) (site : Site) (operand : Operand) : Action Operand := do
  let (name, v) ← b.loopHead operand
  let items ← b.items v
  enterLoop name (items.headD .null) (.rest items.tail) site

/-- A step of a loop that is not the innermost one. -/
def wrongLoop (named : Operand) (inner : Loop) : Action Unit := do
  let name ← match named with
    | .reference name => pure name
    | named => named.typed
  Action.fail
    { kind := .nextWithoutFor, message := "NEXT '" ++ name ++ "' without FOR"
      context := some ("the innermost loop is over " ++ inner.name) }

/-- Whether an argument that names a loop names another than the given one. -/
def namesOther (named : Operand) (inner : Loop) : Bool :=
  match named with
  | .value .null => false
  | .reference name => name != inner.name
  | _ => true

/-- Goes on with a loop: at the statement after the one that entered it. -/
def continueAt (inner : Loop) : Operand :=
  .jump inner.head.next

/-- Refuses the step of a loop that is named and is not the innermost one. -/
def checkNamed (inner : Loop) : List Operand → Action Unit
  | [] => return ()
  | named :: _ => if namesOther named inner then wrongLoop named inner else return ()

/-- Leaves the innermost loop. -/
def leaveLoop (outer : List Loop) : Action Operand := do
  modify fun s ↦ { s with loops := outer }
  return .value .null

/-- Steps a loop on, or leaves it.  A range is stepped on from the value that the loop variable has
now. -/
def stepLoop (b : Builtin) (inner : Loop) (outer : List Loop) : Action Operand := do
  match inner.source with
  | .range g =>
    let current ← Action.lookup inner.name
    let (g, following) := g.advance (← b.number current)
    modify fun s ↦ { s with loops := { inner with source := .range g } :: outer }
    match following with
    | some x =>
      Action.assign inner.name (.number x)
      return continueAt inner
    | none =>
      Action.assign inner.name (.number g.current)
      leaveLoop outer
  | .rest (v :: more) =>
    modify fun s ↦ { s with loops := { inner with source := .rest more } :: outer }
    Action.assign inner.name v
    return continueAt inner
  | .rest [] => leaveLoop outer

/-- Steps the innermost loop on, or leaves it. -/
def nextOf (b : Builtin) (operands : List Operand) : Action Operand := do
  match (← get).loops with
  | [] => Action.fail { kind := .nextWithoutFor, message := "NEXT without FOR" }
  | inner :: outer =>
    checkNamed inner operands
    b.stepLoop inner outer

end LineBasic.Builtin
