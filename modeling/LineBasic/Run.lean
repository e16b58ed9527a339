import LineBasic.Statement

/-!
# Runs

A run executes statement after statement, of the stored program or of a typed line, until there is
none to go on with or the console asks to stop.  Lines without statements are passed over.

* `Run.step` — executes one statement.
* `Run.finish` — steps to the end; the number of steps allowed is bounded.
* `runProgram`, `runTyped` — whole runs.
-/

set_option autoImplicit false
namespace LineBasic

/-- The statements of a line; remarks have no tree. -/
abbrev Statements : Type := List (Option Tree)

/-- The lines of a program with their statements, in ascending order. -/
abbrev Listing : Type := List (Nat × Statements)

/-- The first statement of a listing that is not before a site. -/
def Listing.first? (lines : Listing) (site : Site) : Option (Site × Option Tree) :=
  List.findSome? (fun l ↦
    if (l.1 : Int) < site.line then none
    else
      let k := if (l.1 : Int) = site.line then site.statement else 0
      l.2[k]?.map fun t ↦ (⟨l.1, k⟩, t)) lines

/-- A run under way. -/
structure Run where
  /-- The statements of the typed line. -/
  typed : Statements := []
  /-- The stored program, once it is needed. -/
  listing : Option Listing := none
  /-- Where the run goes on. -/
  site : Site
  /-- How many statements were executed. -/
  executed : Nat := 0
  /-- The value of the last statement of the typed line that was executed. -/
  value : Value := .null

/-- What a step leads to. -/
inductive Progress where
  | going (r : Run)
  | ended (value : Value)

namespace Action

/-- The stored program with its statements. -/
def listing : Action Listing := do
  (← get).program.lines.mapM fun l ↦ do return (l.1, ← parse (some l.1) l.2)

/-- Notes that a line is executed, if lines are traced. -/
def trace (line : Int) : Action Unit :=
  modify fun s ↦
    if s.isTracing && line != typedLine then { s with traced := line :: s.traced } else s

/-- Asks the console whether to stop. -/
def poll : Action Bool := do
  let s ← get
  let (stop, console) := s.console.poll
  set { s with console }
  return stop

/-- Makes sure that it is known when to poll the console. -/
def checkInterval : Action Unit := do
  match (← get).settings.interval with
  | .other => throw .misfit
  | _ => return

/-- An action after whose faults no loops, subroutines and calls are under way. -/
def unwinding {α : Type} (act : Action α) : Action α := fun s ↦
  match act s with
  | .error (.fault f) s => .error (.fault f) s.unwind
  | result => result

end Action

namespace Run

/-- The statement that comes next, if there is one. -/
def next? (r : Run) : Option (Site × Option Tree) :=
  if r.site.line = typedLine then r.typed[r.site.statement]?.map (r.site, ·)
  else if r.site.line < 0 then none
  else (r.listing.getD []).first? r.site

/-- What a break prints. -/
def breakText (line : Int) : String :=
  if line = typedLine then "Break\n" else "Break in " ++ toString line ++ "\n"

/-- The stored program, as far as it is needed to go on at a site. -/
def listingFor (r : Run) (site : Site) : Action (Option Listing) := do
  match r.listing with
  | some lines => return some lines
  | none =>
    if 0 ≤ site.line ∧ site.line < (← get).program.lineCount then return some (← Action.listing)
    else return none

/-- The run after one more statement. -/
def after (r : Run) (site : Site) (statement : Option Tree) : Action Run := do
  match statement with
  | none => return { r with site := site.next, executed := r.executed + 1 }
  | some t =>
    let (v, next) ← execute site t
    return { r with
      site := next
      listing := ← r.listingFor next
      executed := r.executed + 1
      value := if site.line = typedLine then v else r.value }

/-- Executes the next statement. -/
def step (r : Run) : Action Progress := do
  match r.next? with
  | none => return .ended r.value
  | some (site, statement) =>
    Action.trace site.line
    let r ← r.after site statement
    if (← get).settings.interval.divides r.executed then
      if ← Action.poll then
        Action.print (breakText site.line)
        return .ended r.value
    return .going r

/-- Executes statements to the end, at most as many as allowed. -/
def finish : Nat → Run → Action Value
  | 0, _ => throw .outOfFuel
  | fuel + 1, r => do
    match ← r.step with
    | .going r => finish fuel r
    | .ended v => return v

end Run

/-- More statements than can be waited for. -/
def unbounded : Nat := Number.tenTo 15

/-- How many statements a run may have: as many as it can have before the console breaks it off, if
the console does so on its own or was asked to; else, more than can be waited for. -/
def Session.fuel (s : Session) : Nat :=
  match s.console.breakEvery, s.settings.interval.whole? with
  | some polls, some interval => max polls 1 * interval.toNat + 1
  | none, some interval => max unbounded (interval.toNat + 1)
  | _, none => unbounded

/-- Executes statements to the end. -/
def Run.complete (r : Run) : Action Value :=
  Action.unwinding do
    let v ← r.finish (← get).fuel
    modify fun s ↦ { s with binders := s.binders.reset }
    return v

/-! ## Typed lines -/

/-- The start of a run of a typed line. -/
def startTyped (text : String) : Action Run := do
  let typed ← Action.parse none text
  Action.checkInterval
  return { typed, site := ⟨typedLine, 0⟩ }

/-- Executes a typed line.  Its value is that of its last statement that was executed. -/
def runTyped (text : String) : Action Value := do
  (← startTyped text).complete

/-! ## Programs -/

/-- Whether a statement is executed before the program runs. -/
def isCollected : Tree → Bool
  | .call name _ _ => name == "DATA" || name == "LABEL"
  | _ => false

/-- The statements that are executed before a program runs. -/
def Listing.collected (lines : Listing) : List (Site × Tree) :=
  lines.flatMap fun l ↦
    (l.2.zipIdx.filterMap fun e ↦ match e.1 with
      | some t => if isCollected t then some (⟨l.1, e.2⟩, t) else none
      | none => none)

/-- Collects the labels and data of a program. -/
def collect (lines : Listing) : Action Unit := fun s ↦
  let act : Action Unit := lines.collected.forM fun e ↦ do let _ ← execute e.1 e.2
  match act.unwinding { s with isCollecting := true } with
  | .ok () s => .ok () { s with isCollecting := false }
  | .error stop s => .error stop { s with isCollecting := false }

/-- The start of a run of the stored program: in a reset session, with all lines parsed, and labels
and data collected. -/
def startProgram : Action Run := do
  modify Session.reset
  let lines ← Action.listing
  collect lines
  Action.checkInterval
  return { listing := some lines, site := ⟨1, 0⟩ }

/-- Runs the stored program. -/
def runProgram : Action Unit := do
  let _ ← (← startProgram).complete

end LineBasic
