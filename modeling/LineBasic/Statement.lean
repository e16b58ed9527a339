import LineBasic.Evaluation
import LineBasic.Tree.Line

/-!
# Statements

Executing a statement gives its value and tells where to go on.  A fault is attributed to the
statement that it came up in, and what arithmetic or printing could not do becomes a fault there.
The end of input, and elements that are no longer where they were, are not the statement's fault and
end it as they are.
-/

set_option autoImplicit false
namespace LineBasic

/-- An array that contains itself was walked through.  No call is under way any more when this is
told. -/
def Fault.endless : Fault :=
  { kind := .recursionLimit, message := "Recursion limit exceeded"
    context := some ((Binders.Stack.outermost 0).trace Binders.Stack.traceLength)
    suggestion := some "Check that the recursion has a base case" }

/-- A stop as the statement at a site ends with it. -/
def Stop.settle (site : Site) : Stop → Stop
  | .fault f => located f
  | .mishap (.overflow text) => located (.divisionByZero text)
  | .mishap (.undefined text) => located (.badCall text)
  | .endlessNesting => located .endless
  | stop => stop
where
  located (f : Fault) : Stop := .fault (f.locate site.line (some site.statement))

/-- An action with its stops settled at a site. -/
def Action.settled {α : Type} (site : Site) (act : Action α) : Action α := fun s ↦
  match act s with
  | .ok a s => .ok a s
  | .error stop s => .error (stop.settle site) s

/-- What a statement at a site comes to: its value, and where to go on. -/
def Operand.outcome (site : Site) : Operand → Action (Value × Site)
  | jump target => return (.null, target)
  | operand => return (← operand.resolve, site.next)

/-- Executes a statement: its value, and where to go on. -/
def execute (site : Site) (t : Tree) : Action (Value × Site) :=
  Action.settled site do (← evaluate site t).outcome site

/-- The statements of a source line.  While debugging, they have to be such that they can be
written out. -/
def Action.parse (line : Option Int) (text : String) : Action (List (Option Tree)) := do
  let statements ← Action.ofStop (parseLine Builtin.isName line text)
  if (← get).isDebugging then
    for statement in statements do
      if let some t := statement then
        let _ ← Action.ofStop ((← get).heap.describeTree t)
  return statements

end LineBasic
