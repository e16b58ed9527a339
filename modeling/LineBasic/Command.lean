import LineBasic.Run
import LineBasic.Program.Renumber

/-!
# Commands

Commands are typed without a line number and act on the session as a whole: they run, list, edit,
save and load the stored program.  What a command needs from the outside — a run of the program, or
an access to the file store — it asks for.
-/

set_option autoImplicit false
namespace LineBasic

/-- The commands. -/
inductive Command where
  | run
  | list
  | new
  | renumber
  | delete
  | save
  | load
  | yes
  | free
  | traceOn
  | traceOff
  | clearScreen
  | leave
  | catalog
deriving DecidableEq, Repr

namespace Command

/-- The commands with their words. -/
def words : List (String × Command) :=
  [("RUN", .run), ("LIST", .list), ("NEW", .new), ("RENUM", .renumber), ("DELETE", .delete),
   ("SAVE", .save), ("LOAD", .load), ("YES", .yes), ("FRE", .free), ("TRON", .traceOn),
   ("TROFF", .traceOff), ("CLS", .clearScreen), ("SYSTEM", .leave), ("CATALOG", .catalog)]

/-- The command of a word, in any case of letters. -/
def ofWord? (word : String) : Option Command :=
  words.lookup (Text.upper word)

/-- Whether a typed line is that of a command: its first word is one. -/
def isLine (text : String) : Bool :=
  (Text.words text).head?.any fun word ↦ (ofWord? word).isSome

/-- A word without the double quotes at its ends. -/
def unquoted (word : String) : String :=
  String.ofList (Text.trim (· == '"') word.toList)

/-- The words of a command line, which blanks and commas separate. -/
def lineWords (text : String) : List String :=
  (Text.words (String.ofList (text.toList.map fun c ↦ if c = ',' then ' ' else c))).map unquoted

/-- A line that starts with no command. -/
def unknown (word : String) : Fault :=
  .malformed ("Unknown command " ++ Text.upper word)

/-- A line number among the arguments of a command. -/
def lineNumber (word : String) : Except Stop Nat :=
  if looksLikeNumber word.toList then (LineBasic.lineNumber word.toList).mapError Stop.mishap
  else .error (.fault (.badCall ("'" ++ word ++ "' is not a line number")))

/-- A command without the argument that it needs. -/
def missingOperand (usage : String) : Fault :=
  { kind := .missingOperand, message := "Missing operand", expected := some usage }

/-! ## Commands on the session alone -/

/-- Lists a part of the program; a point stands for its last line. -/
def listLines (args : List String) : Action Unit := do
  let p := (← get).program
  let start ← args.head?.mapM fun word ↦ Action.ofStop (lineNumber word)
  let stop ← args[1]?.mapM fun word ↦
    if word = "." then pure (p.lastLine?.getD 0) else Action.ofStop (lineNumber word)
  (p.listing (start.map Int.ofNat) (stop.map Int.ofNat)).forM fun line ↦ Action.print (line ++ "\n")

/-- Renumbers the program. -/
def renumberLines : Action Unit := do
  let s ← get
  let (_, program) ← Action.ofNumber s.program.renumber
  set { s with program }

/-- Deletes a line, or all from one line to another. -/
def deleteLines (args : List String) : Action Unit := do
  match args with
  | start :: rest =>
    if 1 < rest.length then refuse
    else
      let start ← Action.ofStop (lineNumber start)
      let stop ← rest.head?.mapM fun word ↦ Action.ofStop (lineNumber word)
      modify fun s ↦ { s with program := (s.program.delete start (stop.map Int.ofNat)).2 }
  | [] => refuse
where
  refuse : Action Unit :=
    Action.fail { Fault.malformed "DELETE needs a line or a range" with
      expected := some "DELETE start [end]" }

/-- Resets the session and discards the program. -/
def discard : Action Unit :=
  modify fun s ↦ { s.reset with program := .empty }

/-- Replaces the program by that of a text, in a reset session. -/
def replaceProgram (content : String) : Action Unit := do
  discard
  let program ← Action.ofStop (Program.ofText content)
  modify fun s ↦ { s with program }

/-! ## File names -/

/-- The name that a program is saved under: that given, with an ending unless it has it. -/
def savedName (name : String) : String :=
  if ".BAS".toList.isSuffixOf (Text.upper name).toList then name else name ++ ".bas"

/-- The names that a program to be loaded may have been saved under. -/
def loadedNames (name : String) : List String :=
  [name, name ++ ".BAS", name ++ ".bas"]

/-- A file or a folder that does not exist. -/
def noSuchFile (name : String) : Fault :=
  { kind := .noSuchFile, message := "No such file", received := some name }

/-- What asks for a confirmation. -/
def unsavedWarning : String :=
  "Unsaved program will be lost, are you sure? (type 'yes' to confirm)"

/-- Loads a program from the text that was found under its name, if any was. -/
def finishLoad (name : String) : Option String → Action Unit
  | some content => replaceProgram content
  | none => Action.fail (noSuchFile name)

/-- Prints the names that a path lists, if it lists any. -/
def finishCatalog (path : String) : Option (List String) → Action Unit
  | some names => names.forM fun name ↦ Action.print (name ++ "\n")
  | none => Action.fail (noSuchFile path)

end Command

end LineBasic
