import LineBasic.Builtin.Argument

/-!
# Jumps

A jump goes to the first statement of a line, given by number or label.  A jump to a subroutine also
notes the statement after it, which the subroutine returns to.
-/

set_option autoImplicit false
namespace LineBasic.Builtin

/-- The line that an operand means: that of a label, or the integer part of a number. -/
def targetLine (b : Builtin) (operand : Operand) : Action Int := do
  let labels := (← get).labels
  let labelled := match operand with
    | .reference name => labels.get? name
    | _ => none
  match labelled with
  | some line => return line
  | none =>
    match ← operand.resolve with
    | .number x =>
      let line ← Action.ofNumber (Number.truncate x)
      if line < 0 then
        Action.fail (.malformed (b.name ++ " to negative line " ++ toString line))
      else return line
    | v =>
      Action.fail (.typeMismatch (← Action.typed v) ("a line number or label for " ++ b.name))

/-- Jumps to a line. -/
def gotoOf (b : Builtin) (operand : Operand) : Action Operand := do
  return .jump ⟨← b.targetLine operand, 0⟩

/-- Jumps to a subroutine. -/
def gosubOf (b : Builtin) (site : Site) (operand : Operand) : Action Operand := do
  let line ← b.targetLine operand
  modify fun s ↦ { s with returns := site.next :: s.returns }
  return .jump ⟨line, 0⟩

/-- Returns from a subroutine. -/
def comeBackOf : Action Operand := do
  match (← get).returns with
  | [] => Action.fail { kind := .noGosubToReturn, message := "RETURN without GOSUB" }
  | site :: outer =>
    modify fun s ↦ { s with returns := outer }
    return .jump site

/-- A line number that ends the program, unless it has lines beyond. -/
def lastLine : Int := Number.twoTo 63 - 1

/-- Ends the program. -/
def finishOf : Operand :=
  .jump ⟨lastLine, 0⟩

end LineBasic.Builtin
