import LineBasic.Command
import LineBasic.FileStore

/-!
# The dialogue at the prompt

A typed line with a line number stores a line of the program; a line that starts with the word of a
command is that command; any other line is executed.  Faults are printed on one line.

Loading over a program that is there has to be confirmed: the load is then pending until the next
confirmation.

* `Dialogue.begin` — starts a command, up to what it asks from the outside.
* `Dialogue.submit` — takes in a typed line.
-/

set_option autoImplicit false
namespace LineBasic

/-- A session with its file store. -/
structure Dialogue where
  session : Session
  files : FileStore := .memory {}
  /-- The arguments of a load that waits for its confirmation. -/
  pending : Option (List String) := none
  /-- Whether a load that starts was confirmed. -/
  isConfirmed : Bool := false
  /-- Whether the end was asked for. -/
  isOver : Bool := false

/-- Why a part of a dialogue ended early. -/
inductive Failure where
  | stop (stop : Stop)
  | file (error : FileError)
deriving DecidableEq, Repr

/-- What a command asks from the outside. -/
inductive Request where
  | nothing
  /-- A run of the stored program. -/
  | run
  /-- To save a text. -/
  | save (name content : String)
  /-- To load a program. -/
  | load (name : String)
  /-- To list the names below a path. -/
  | catalog (path : String)

/-- A part of a dialogue. -/
abbrev Exchange (α : Type) : Type := EStateM Failure Dialogue α

namespace Dialogue

/-- An action on the session of a dialogue. -/
def onSession {α : Type} (act : Action α) : Exchange α := fun d ↦
  match act d.session with
  | .ok a session => .ok a { d with session }
  | .error stop session => .error (.stop stop) { d with session }

/-- Prints a line. -/
def printLine (text : String) : Exchange Unit :=
  onSession (Action.print (text ++ "\n"))

/-- A fault of a command. -/
def fail {α : Type} (f : Fault) : Exchange α :=
  throw (.stop (.fault f))

/-! ## Commands -/

/-- Starts to load; over a program that is there, only if it is confirmed. -/
def beginLoad (args : List String) : Exchange Request := do
  match args with
  | [] => fail (Command.missingOperand "LOAD filename")
  | name :: _ =>
    let d ← get
    if !d.isConfirmed && !d.session.program.isEmpty then
      modify fun d ↦ { d with pending := some args }
      printLine Command.unsavedWarning
      return .nothing
    else return .load name

/-- A part of a dialogue in which a load is confirmed; however it ends, this ends with it. -/
def confirmed {α : Type} (act : Exchange α) : Exchange α := fun d ↦
  match act { d with isConfirmed := true } with
  | .ok a d => .ok a { d with isConfirmed := false }
  | .error failure d => .error failure { d with isConfirmed := false }

/-- Takes up the pending load. -/
def confirm : Exchange Request := do
  match (← get).pending with
  | none => fail (.malformed "nothing to confirm!")
  | some args =>
    modify fun d ↦ { d with pending := none }
    confirmed (beginLoad args)

/-- Starts a command: does what concerns the session alone, and asks for the rest. -/
def begin (c : Command) (args : List String) : Exchange Request := do
  match c with
  | .run => return .run
  | .list => alone (Command.listLines args)
  | .new => alone Command.discard
  | .renumber => alone Command.renumberLines
  | .delete => alone (Command.deleteLines args)
  | .save => match args with
    | [] => fail (Command.missingOperand "SAVE filename")
    | name :: _ => return .save (Command.savedName name) (← get).session.program.serialize
  | .load => beginLoad args
  | .yes => confirm
  | .free => alone do Action.print ((← Action.ofStop (← get).memoryFree).text ++ "\n")
  | .traceOn => alone (modify fun s ↦ { s with isTracing := true })
  | .traceOff => alone (modify fun s ↦ { s with isTracing := false })
  | .clearScreen => alone (modify fun s ↦ { s with console := s.console.clear })
  | .leave =>
    modify fun d ↦ { d with isOver := true }
    return .nothing
  | .catalog => return .catalog (args.headD "/")
where
  alone (act : Action Unit) : Exchange Request := do
    onSession act
    return .nothing

/-- Starts the command of a line. -/
def beginLine (text : String) : Exchange Request := do
  match Command.lineWords text with
  | [] => return .nothing
  | word :: args => match Command.ofWord? word with
    | some c => begin c args
    | none => fail (Command.unknown word)

/-! ## Answers from the file store -/

/-- A result of the file store. -/
def ofFile {α : Type} : Except FileError α → Exchange α
  | .ok a => return a
  | .error e => throw (.file e)

/-- The text under the first of several names that there is one under. -/
def readFirst : List String → Exchange (Option String)
  | [] => return none
  | name :: names => do
    match ← ofFile ((← get).files.read name) with
    | some content => return some content
    | none => readFirst names

/-- Saves a text. -/
def writeFile (name content : String) : Exchange Unit := do
  let d ← get
  let (files, done) := d.files.write name content
  set { d with files }
  ofFile done

/-- Does what a command asked for, with the dialogue's own file store. -/
def fulfil : Request → Exchange Unit
  | .nothing => return
  | .run => onSession runProgram
  | .save name content => writeFile name content
  | .load name => do
    let content ← readFirst (Command.loadedNames name)
    onSession (Command.finishLoad name content)
  | .catalog path => do
    let names ← ofFile ((← get).files.list path)
    onSession (Command.finishCatalog path names)

/-- Does the command of a line. -/
def process (text : String) : Exchange Unit := do
  fulfil (← beginLine text)

/-! ## Typed lines -/

/-- Splits a typed line into a line number and a text, if it is a line of the program.  The text has
no line feeds in it. -/
def programLine? (line : String) : Option (List Char × String) :=
  let cs := line.toList
  let digits := cs.takeWhile Text.isDecimalDigit
  let rest := cs.dropWhile Text.isDecimalDigit
  let text := rest.dropWhile Text.isBlank
  if digits.isEmpty || (!rest.isEmpty && text.length == rest.length) || text.contains '\n' then none
  else some (digits, String.ofList text)

/-- A line of the program that there is no memory for. -/
def noMemory (n : Int) : Fault :=
  { kind := .outOfMemory, message := "Out of memory"
    context := some ("storing line " ++ toString n) }

/-- Stores a line of the program, if there is memory for it.  If there is none, the text that the
line had before is stored in its place again. -/
def storeLine (n : Int) (text : String) : Action Unit := do
  let s ← get
  let previous := s.program.get? n.toNat
  let program ← Action.ofFault (s.program.store n text)
  set { s with program }
  let free ← Action.ofStop (← get).memoryFree
  if ← Action.ofStop (free.isBelow 0) then
    let restored ← Action.ofFault (program.store n (previous.getD ""))
    set { s with program := restored }
    Action.fail (noMemory n)

/-- What a typed line asks for. -/
inductive Entry where
  /-- To store a line of the program. -/
  | program (digits : List Char) (text : String)
  | command (text : String)
  | statements (text : String)

/-- Tells what a line asks for. -/
def entryOf (line : String) : Entry :=
  match programLine? line with
  | some (digits, text) => .program digits text
  | none => if Command.isLine line then .command line else .statements line

/-- Does what a line asks for. -/
def enter : Entry → Exchange Unit
  | .program digits text => onSession do
    storeLine (← Action.ofNumber (lineNumber digits)) text
  | .command text => process text
  | .statements text => onSession do
    let _ ← runTyped text

/-- Prints the prompt. -/
def printPrompt : Exchange Unit := do
  match (← get).session.settings.prompt with
  | some text => printLine text
  | none => throw (.stop .misfit)

/-- Prints the prompt, unless the end was asked for: whether the dialogue goes on. -/
def prompt : Exchange Bool := do
  if (← get).isOver then return false
  printPrompt
  return true

/-- A part of a dialogue that was done already, with the given result. -/
def outcome {α : Type} : Except Failure α → Exchange α
  | .ok a => return a
  | .error failure => throw failure

/-- What follows on a line: nothing if it stored a line of the program, and the prompt otherwise.
Faults are printed before. -/
def conclude (entry : Entry) (act : Exchange Unit) : Exchange Bool := fun d ↦
  match act d, entry with
  | .ok () d, .program .. => .ok true d
  | .ok () d, _ => prompt d
  | .error (.stop (.fault f)) d, _ => (do printLine f.summary; prompt : Exchange Bool) d
  | .error failure d, _ => .error failure d

/-- Takes in a typed line: whether the dialogue goes on. -/
def submit (text : String) : Exchange Bool := do
  let line := Text.strip text
  if line.isEmpty then return true
  else
    let entry := entryOf line
    conclude entry (enter entry)

end Dialogue

end LineBasic
