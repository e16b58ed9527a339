import LineBasic.CommandLine

/-!
# The program

The command line on the host's own files and console.  Everything that is decided is decided in
`LineBasic.CommandLine` and `LineBasic.Dialogue`; here lines are read, texts are printed, and files
are read and written.

Actions take their input from the console of the session.  When an action runs out of input, it is
done again from where it started with one more line, and what it prints is shown only from where it
had come to.
-/

set_option autoImplicit false
namespace LineBasic.Main

/-- Reads a line, if there is one more. -/
def readLine : IO (Option String) := do
  let line ← (← IO.getStdin).getLine
  return (CommandLine.inputLines line).head?

/-- Prints a text at once. -/
def write (text : String) : IO Unit := do
  let output ← IO.getStdout
  output.putStr text
  output.flush

/-- Does a part of a dialogue, asking for lines of input as it needs them.  `shown` is the number of
characters that were printed before. -/
partial def attempt {α : Type} (act : Exchange α) (d : Dialogue) (shown : Nat) :
    IO (Except Failure α × Dialogue) := do
  let finish (d : Dialogue) : IO Dialogue := do
    write (Builtin.restFrom d.session.console.output shown)
    return { d with session := { d.session with console := d.session.console.resetOutput } }
  match act d with
  | .ok a after => return (.ok a, ← finish after)
  | .error (.stop .endOfInput) after =>
    let stopped ← finish after
    match ← readLine with
    | some line =>
      let session := { d.session with console := d.session.console.feed [line] }
      attempt act { d with session } after.session.console.output.length
    | none => return (.error (.stop .endOfInput), stopped)
  | .error failure after => return (.error failure, ← finish after)

/-- Does a part of a dialogue that starts with nothing printed. -/
def interact {α : Type} (act : Exchange α) (d : Dialogue) : IO (Except Failure α × Dialogue) :=
  attempt act d 0

/-- Runs statements to the end. -/
partial def complete (r : Run) (d : Dialogue) : IO (Except Failure Unit × Dialogue) := do
  match ← interact (Dialogue.onSession r.step.unwinding) d with
  | (.ok (.going r), d) => complete r d
  | (.ok (.ended _), d) => return (.ok (), d)
  | (.error failure, d) => return (.error failure, d)

/-- Starts a run and completes it. -/
def runFrom (start : Action Run) (d : Dialogue) : IO (Except Failure Unit × Dialogue) := do
  match ← interact (Dialogue.onSession start) d with
  | (.ok r, d) => complete r d
  | (.error failure, d) => return (.error failure, d)

/-! ## Files -/

/-- Reads a file, if there is one. -/
def readFile? (path : String) : IO (Option String) := do
  try return some (Text.asRead (← IO.FS.readFile path)) catch _ => return none

/-- The first of several texts of the folder that is there. -/
def readFirst (f : Folder) : List String → IO (Option String)
  | [] => return none
  | name :: names => do
    match ← readFile? (f.hostPath name) with
    | some text => return some text
    | none => readFirst f names

/-- The names in a folder, if there is such a folder. -/
def list? (path : String) : IO (Option (List String)) := do
  try
    let entries ← (← IO.FS.realPath path).readDir
    let names ← entries.toList.mapM fun entry ↦ do
      return if ← entry.path.isDir then entry.fileName ++ "/" else entry.fileName
    return some (names.mergeSort (· ≤ ·))
  catch _ => return none

/-- Writes a file, with the folders around it. -/
def writeFile (path text : String) : IO Unit := do
  let names := pathNames path.toList
  let around := "/".intercalate names.dropLast
  if !around.isEmpty then
    IO.FS.createDirAll (if path.toList.head? = some '/' then "/" ++ around else around)
  IO.FS.writeFile path text

/-- Does what a command asked for. -/
def fulfil (f : Folder) (request : Request) (d : Dialogue) :
    IO (Except Failure Unit × Dialogue) := do
  match request with
  | .nothing => return (.ok (), d)
  | .run => runFrom startProgram d
  | .save name content =>
    writeFile (f.hostPath name) content
    return (.ok (), d)
  | .load name =>
    let content ← readFirst f (Command.loadedNames name)
    interact (Dialogue.onSession (Command.finishLoad name content)) d
  | .catalog path =>
    let names ← list? (f.hostPath path)
    interact (Dialogue.onSession (Command.finishCatalog path names)) d

/-! ## Logs -/

/-- The folder of the logs. -/
def logFolder : IO String := do
  return ((← IO.getEnv "HOME").getD ".") ++ "/.tbas/logs"

/-- Starts a log, and removes the oldest of those beyond the number kept. -/
def keepLog : IO Unit := do
  let folder ← logFolder
  IO.FS.createDirAll folder
  let name := toString (← IO.monoNanosNow) ++ "-" ++ toString (← IO.rand 0 999999) ++ ".log"
  IO.FS.writeFile (folder ++ "/" ++ name) ""
  let entries ← (← IO.FS.realPath folder).readDir
  let logs := entries.toList.filter fun entry ↦ 1 < (entry.fileName.splitOn ".log").length
  let aged ← logs.mapM fun entry ↦ do return (entry, (← entry.path.metadata).modified)
  let sorted := aged.mergeSort fun a b ↦ (compare a.2 b.2).isLE
  for (entry, _) in sorted.take (sorted.length - CommandLine.keptLogs) do
    try IO.FS.removeFile entry.path catch _ => pure ()

/-! ## Lines -/

/-- Does what a line asks for. -/
def enter (f : Folder) (entry : Dialogue.Entry) (d : Dialogue) :
    IO (Except Failure Unit × Dialogue) := do
  match entry with
  | .command text =>
    match ← interact (Dialogue.beginLine text) d with
    | (.ok request, d) => fulfil f request d
    | (.error failure, d) => return (.error failure, d)
  | .statements text => runFrom (startTyped text) d
  | entry => interact (Dialogue.enter entry) d

/-- Takes in a line: whether there are more to take in. -/
def submit (f : Folder) (text : String) (d : Dialogue) : IO (Except Failure Bool × Dialogue) := do
  let line := Text.strip text
  if line.isEmpty then return (.ok true, d)
  else
    let entry := Dialogue.entryOf line
    let (done, d) ← enter f entry d
    interact (Dialogue.conclude entry (Dialogue.outcome done)) d

/-- Takes in lines until there are no more or the end is asked for. -/
partial def converse (f : Folder) (d : Dialogue) : IO (Except Failure Unit) := do
  match ← readLine with
  | none => return .ok ()
  | some line =>
    match ← submit f line d with
    | (.ok true, d) => converse f d
    | (.ok false, _) => return .ok ()
    | (.error failure, _) => return .error failure

/-! ## The command line -/

/-- How a failure that is no fault of the program is told. -/
def failureText : Failure → String
  | .stop .endOfInput => "end of input"
  | .stop (.fault f) => f.report
  | .stop (.mishap (.overflow text)) | .stop (.mishap (.undefined text)) => text
  | .stop .misfit => "a setting has a value that does not fit"
  | .stop _ => "an array element is no longer there"
  | .file _ => "a file cannot be accessed"

/-- Ends with the code for a failure, after telling it. -/
def failWith (failure : Failure) : IO UInt32 := do
  (← IO.getStderr).putStrLn (failureText failure)
  return 1

/-- Runs the program of a text. -/
def runSource (text : String) (d : Dialogue) : IO UInt32 := do
  let start : Action Run := do
    Command.replaceProgram text
    startProgram
  match ← runFrom start d with
  | (.ok (), _) => return 0
  | (.error (.stop (.fault f)), _) =>
    write (f.summary ++ "\n")
    return 1
  | (.error failure, _) => failWith failure

/-- The settings of a file. -/
def settingsOf (path : String) : IO Settings := do
  match SettingsFile.ofText (Text.asRead (← IO.FS.readFile path)) with
  | .ok file => return file.settings
  | .error _ => throw (IO.userError "the settings file cannot be read")

/-- A text that is given and not empty. -/
def given (text : Option String) : Option String :=
  text.filter (!·.isEmpty)

/-- Runs the command line with its arguments. -/
def runWith (args : CommandLine.Arguments) : IO UInt32 := do
  keepLog
  let settings ← match given args.config with
    | some path => settingsOf path
    | none => pure {}
  let seed := UInt64.ofNat (← IO.rand 0 (Number.twoTo 32))
  let d : Dialogue := { session := .start settings {} .unavailable seed }
  match settings.reserve, given args.program with
  | .error stop, _ => failWith (.stop stop)
  | .ok (), some path => runSource (Text.asRead (← IO.FS.readFile path)) d
  | .ok (), none => match ← interact Dialogue.printPrompt d with
    | (.error failure, _) => failWith failure
    | (.ok (), d) => match ← converse { root := args.root } d with
      | .ok () => return 0
      | .error failure => failWith failure

end LineBasic.Main

/-- Runs the command line. -/
def main (args : List String) : IO UInt32 :=
  match LineBasic.CommandLine.read args with
  | .run args => LineBasic.Main.runWith args
  | .help => do
    IO.println "usage: [--config FILE] [--root FOLDER] [program]"
    return 0
  | .wrong => do
    (← IO.getStderr).putStrLn "usage: [--config FILE] [--root FOLDER] [program]"
    return 2
