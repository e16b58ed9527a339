import LineBasic.Settings.Quantity
import LineBasic.Value

/-!
# Frames of arguments

While a function runs, its parameters are looked up in a stack of frames: the arguments of the call
on top of the frames that the function captured when it was made.  The stack before the call comes
back when the call ends.  The names of the calls under way are kept for diagnostics, and their
number is limited.

All lists here have the innermost first.
-/

set_option autoImplicit false
namespace LineBasic

/-- The arguments of one call. -/
abbrev Frame : Type := List Value

/-- The frames in force and the calls under way. -/
structure Binders.Stack where
  /-- The most calls that may be under way at once. -/
  limit : Quantity
  frames : List Frame := []
  calls : List String := []

namespace Binders.Stack

/-- The stack outside of all calls. -/
def outermost (limit : Quantity) : Stack := { limit }

/-- The number of calls under way. -/
def depth (s : Stack) : Nat := s.calls.length

/-- The calls under way, outermost first, each indented under the one that made it; of more than
`shown` calls, only the innermost. -/
def trace (s : Stack) (shown : Int) : String :=
  if s.calls.isEmpty then "  (no function calls)"
  else
    let calls := s.calls.reverse
    let visible :=
      if 0 < shown then calls.drop (calls.length - shown.toNat) else calls.drop (-shown).toNat
    let hidden :=
      if shown < calls.length then
        ["  ... (" ++ toString ((calls.length : Int) - shown) ++ " more calls)"]
      else []
    let indented := visible.mapIdx fun i name ↦
      "  " ++ String.join (List.replicate i "  ") ++ name
    "\n".intercalate (hidden ++ indented)

/-- The number of calls that a diagnostic shows. -/
def traceLength : Int := 10

/-- A call beyond the limit. -/
def tooDeep (s : Stack) : Fault :=
  { kind := .recursionLimit
    message := "Recursion limit of " ++ s.limit.text ++ " nested calls exceeded"
    context := some (s.trace traceLength)
    suggestion := some "Check that the recursion has a base case" }

/-- The name under which a function shows in a trace. -/
def callName (c : Closure) : String :=
  if c.name.isEmpty then "usrdefun" else c.name

/-- The stack inside a call. -/
def enter (s : Stack) (c : Closure) (args : Frame) : Stack :=
  { s with frames := args :: c.captured, calls := callName c :: s.calls }

/-- Whether one more call would be beyond the limit.  A limit that is no number is none. -/
def isFull (s : Stack) : Bool :=
  match s.limit.whole?, s.limit with
  | some n, _ => decide (n ≤ s.depth)
  | none, .real x => decide (x ≤ Number.ofNat s.depth)
  | none, _ => false

/-- Enters a call, if one more is allowed. -/
def enter? (s : Stack) (c : Closure) (args : Frame) : Except Fault Stack :=
  if s.isFull then .error s.tooDeep else .ok (s.enter c args)

/-- A parameter that has no argument. -/
def unbound (depth index : Int) (context : String) : Fault :=
  { kind := .unresolvedReference, message := "Unresolved reference"
    received := some ("parameter reference $" ++ toString depth ++ "_" ++ toString index)
    context := some context }

/-- The argument for a parameter, by the number of functions between and its position. -/
def lookup (s : Stack) (depth index : Int) : Except Fault Value :=
  let frame? := if depth < 0 then none else s.frames[depth.toNat]?
  match frame? with
  | none => .error (unbound depth index
      ("only " ++ toString s.frames.length ++ " enclosing parameter frames are active"))
  | some frame =>
    let value? := if index < 0 then none else frame[index.toNat]?
    match value? with
    | none => .error (unbound depth index
        ("the function was given " ++ toString frame.length ++ " arguments"))
    | some v => .ok v

/-- The stack with all calls and frames dropped. -/
def reset (s : Stack) : Stack :=
  outermost s.limit

/-- The size of the stack, for inspection. -/
def describe (s : Stack) : String :=
  "TBASBinderStack(depth=" ++ toString s.depth ++ ", frames=" ++ toString s.frames.length ++ ")"

end Binders.Stack

end LineBasic
