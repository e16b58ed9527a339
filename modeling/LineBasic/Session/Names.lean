import LineBasic.Builtin
import LineBasic.Session
import LineBasic.Text.Similar

/-!
# Names

A name means a constant, else a builtin function, else a variable.  A builtin can be used as a value
unless it takes any number of arguments: it is then a function that calls the builtin with its own
parameters.
-/

set_option autoImplicit false
namespace LineBasic

/-- A builtin that the modes in force keep from being called. -/
def Session.checkEnabled (s : Session) (b : Builtin) : Except Fault Unit :=
  if b.isDebugOnly && !s.isDebugging then
    .error (.malformed (b.name ++ " is only available with OPTIONDEBUG 1"))
  else if b.isNotForProduction && s.isProduction then
    .error (.malformed (b.name ++ " is not available in production mode"))
  else .ok ()

/-- The function that calls a builtin of a fixed number of arguments. -/
def Builtin.closure (b : Builtin) (arity : Nat) : Closure :=
  .mk arity (.call b.name ((List.range arity).map (Tree.parameter 0)) []) [] b.name

/-- A builtin as a value. -/
def Session.builtinValue (s : Session) (b : Builtin) : Except Fault Value := do
  s.checkEnabled b
  match b.arity with
  | some arity => return .closure (b.closure arity)
  | none =>
    .error
      { kind := .typeMismatch
        message := b.name ++ " takes a variable number of arguments and cannot be used as a value" }

/-- A name that means nothing. -/
def Session.unresolved (s : Session) (key : String) : Fault :=
  { kind := .unresolvedReference, message := "Unresolved reference " ++ key, received := some key
    suggestion := Text.didYouMean key (s.vars.names ++ Builtin.keywords) }

/-- What a name means. -/
def Session.lookup (s : Session) (name : String) : Except Fault Value :=
  let key := Text.upper name
  if Variables.isConstant key then
    .ok ((s.vars.lookup? key).getD .null)
  else match Builtin.ofName? key with
    | some b => s.builtinValue b
    | none => match s.vars.lookup? key with
      | some v => .ok v
      | none => .error (s.unresolved key)

/-- Gives a variable a value, if there is memory for it. -/
def Session.assign (s : Session) (name : String) (v : Value) : Except Stop Session := do
  let used : Int := s.vars.footprintWith s.heap name v + s.program.footprint
  if ← s.settings.memorySize.isBelow used then
    throw (.fault
      { kind := .outOfMemory, message := "Out of memory"
        received := some (toString used ++ " bytes needed")
        expected := some ("at most " ++ s.settings.memorySize.text ++ " bytes") })
  else return { s with vars := ← (s.vars.define name v).mapError .fault }

/-- What a name means. -/
def Action.lookup (name : String) : Action Value := do
  Action.ofFault ((← get).lookup name)

/-- Gives a variable a value. -/
def Action.assign (name : String) (v : Value) : Action Unit := do
  set (← Action.ofStop ((← get).assign name v))

end LineBasic
