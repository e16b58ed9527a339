import LineBasic.Builtin.Argument

/-!
# Data, labels and options

Before a program runs, its data and labels are collected.  The values of all data statements make
one sequence, which is read from a cursor on.
-/

set_option autoImplicit false
namespace LineBasic.Builtin

/-! ## Data and labels -/

/-- Adds values to the data while they are collected. -/
def dataOf (values : List Value) : Action Value := do
  if (← get).isCollecting then
    modify fun s ↦ { s with data := s.data ++ values }
  return .null

/-- The next value of the data. -/
def nextDatum : Action Value := do
  let s ← get
  match s.data[s.cursor]? with
  | some v =>
    set { s with cursor := s.cursor + 1 }
    return v
  | none =>
    Action.fail
      { kind := .outOfData, message := "Out of DATA"
        context := some (toString s.data.length ++ " DATA values were read") }

/-- Reads the next value of the data into a variable or an element. -/
def readOf (b : Builtin) (target : Operand) : Action Operand := do
  let v ← nextDatum
  return .assignment (← target.store v b.name) v

/-- Goes back to the start of the data. -/
def restoreOf : Action Value := do
  modify fun s ↦ { s with cursor := 0 }
  return .null

/-- Notes the line of a label while labels are collected. -/
def labelOf (site : Site) (operand : Operand) : Action Operand := do
  let s ← get
  if s.isCollecting then
    match operand with
    | .reference name => match s.labels.get? name with
      | some line =>
        Action.fail
          { kind := .duplicateDefinition, message := "Duplicate definition on " ++ name
            context := some ("label already defined on line " ++ toString line) }
      | none => set { s with labels := s.labels.insert name site.line }
    | _ => Action.fail { Fault.malformed "empty LABEL" with expected := some "LABEL name" }
  return .value .null

/-- Forgets all variables. -/
def clearOf : Action Value := do
  modify fun s ↦ { s with vars := .empty }
  return .null

/-! ## Options -/

/-- A number that has to be zero or one. -/
def flag (b : Builtin) (v : Value) : Action Bool := do
  let n ← b.integer v
  if n = 0 then return false
  else if n = 1 then return true
  else
    Action.fail { Fault.malformed (b.name ++ " must be 0 or 1") with received := some (toString n) }

/-- Sets the subscript of the first element of an array. -/
def optionBaseOf (b : Builtin) (v : Value) : Action Value := do
  let isOne ← b.flag v
  modify fun s ↦ { s with indexBase := if isOne then 1 else 0 }
  return .null

/-- Turns debugging on or off. -/
def optionDebugOf (b : Builtin) (v : Value) : Action Value := do
  let isOn ← b.flag v
  modify fun s ↦ { s with isDebugging := isOn }
  return .null

/-- Turns tracing on or off. -/
def optionTraceOf (b : Builtin) (v : Value) : Action Value := do
  let isOn ← b.flag v
  modify fun s ↦ { s with isTracing := isOn }
  return .null

end LineBasic.Builtin
