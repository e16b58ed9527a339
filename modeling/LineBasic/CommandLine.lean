import LineBasic.CommandLine.Arguments
import LineBasic.Dialogue

/-!
# The command line

A run of the command line either runs a program from a file, or takes in lines until they end or the
end is asked for.  Every run keeps a log; of the logs only the latest are kept.

* `CommandLine.run` — a whole run, on a host given as a value.
-/

set_option autoImplicit false
namespace LineBasic.CommandLine

/-! ## Logs -/

/-- What stands in the folder of the logs: the logs, and folders, which are not removed. -/
inductive LogEntry where
  | log
  | folder
deriving DecidableEq, Repr

/-- How many logs are kept. -/
def keptLogs : Nat := 50

/-- The entries, the oldest first, that are left when those beyond the number kept are removed. -/
def rotate (entries : List LogEntry) : List LogEntry :=
  let beyond := entries.length - keptLogs
  (entries.take beyond).filter (· == .folder) ++ entries.drop beyond

/-! ## Runs -/

/-- What a run of the command line meets. -/
structure Host where
  disk : Disk := {}
  /-- The folder that relative paths start from. -/
  workplace : Place := []
  /-- What can be read as input. -/
  input : String := ""
  /-- The logs of earlier runs, the oldest first. -/
  logs : List LogEntry := []

/-- How a run of the command line ends. -/
inductive Outcome where
  | exit (code : Nat)
  | failed (failure : Failure)
  | badSettings (why : SettingsFile.Refusal)
deriving DecidableEq, Repr

/-- What a run of the command line leaves behind. -/
structure Report where
  outcome : Outcome
  output : String := ""
  disk : Disk
  logs : List LogEntry

/-- The exit code of a program that failed. -/
def failedCode : Nat := 1

/-- The exit code for wrong arguments. -/
def wrongCode : Nat := 2

/-- The lines of a text that line feeds end, without the carriage returns at their ends. -/
def inputLines (text : String) : List String :=
  (splitFeeds text.toList).map fun line ↦
    String.ofList (line.reverse.dropWhile (· == '\r')).reverse
where
  splitFeeds : List Char → List (List Char)
    | [] => []
    | c :: cs =>
      if c = '\n' then [] :: splitFeeds cs
      else match splitFeeds cs with
        | [] => [[c]]
        | line :: lines => (c :: line) :: lines

/-- Runs the program of a text: the exit code.  A fault is printed on one line. -/
def runSource (source : String) : Exchange Nat := fun d ↦
  let act : Action Unit := do
    Command.replaceProgram source
    runProgram
  match Dialogue.onSession act d with
  | .ok () d => .ok 0 d
  | .error (.stop (.fault f)) d => (do
      Dialogue.printLine f.summary
      return failedCode : Exchange Nat) d
  | .error failure d => .error failure d

/-- Takes in lines until there are no more or the end is asked for.  Each round takes in a line, so
as many rounds as there are lines are enough. -/
def converse : Nat → Exchange Unit
  | 0 => return
  | rounds + 1 => do
    let d ← get
    match d.session.console.readLine? with
    | none => return
    | some (line, console) =>
      set { d with session := { d.session with console } }
      if ← Dialogue.submit line then converse rounds

/-- Prints the prompt and takes in lines. -/
def takeLines : Exchange Nat := do
  Dialogue.printPrompt
  converse (← get).session.console.input.length
  return 0

/-- The settings that an argument names, if it names any. -/
def settingsOf (host : Host) (config : Option String) : Except Outcome Settings :=
  match config with
  | none | some "" => .ok {}
  | some path => match host.disk.readAt host.workplace path with
    | .error e => .error (.failed (.file e))
    | .ok text => match SettingsFile.ofText text with
      | .error why => .error (.badSettings why)
      | .ok file => .ok file.settings

/-- The text of the program that an argument names, if it names any. -/
def sourceOf (host : Host) (program : Option String) : Except Outcome (Option String) :=
  match program with
  | none | some "" => .ok none
  | some path => match host.disk.readAt host.workplace path with
    | .error e => .error (.failed (.file e))
    | .ok text => .ok (some text)

/-- A session that is about to start. -/
def opening (host : Host) (settings : Settings) (root : String) (seed : UInt64) : Dialogue :=
  { session := .start settings { input := inputLines host.input } .unavailable seed
    files := .folder ⟨host.disk, host.workplace, root⟩ }

/-- The files after a dialogue. -/
def diskAfter (host : Host) (d : Dialogue) : Disk :=
  match d.files with
  | .folder f => f.disk
  | .memory _ => host.disk

/-- A run with the given arguments. -/
def runWith (host : Host) (args : Arguments) (seed : UInt64) : Report :=
  let logs := rotate (host.logs ++ [.log])
  let started := do
    let settings ← settingsOf host args.config
    settings.reserve.mapError fun stop ↦ Outcome.failed (.stop stop)
    return (settings, ← sourceOf host args.program)
  match started with
  | .error outcome => { outcome, disk := host.disk, logs }
  | .ok (settings, source) =>
    let act := match source with
      | some text => runSource text
      | none => takeLines
    let (outcome, d) := match act (opening host settings args.root seed) with
      | .ok code d => (Outcome.exit code, d)
      | .error failure d => (Outcome.failed failure, d)
    { outcome, output := d.session.console.output, disk := diskAfter host d, logs }

/-- A run of the command line. -/
def run (args : List String) (host : Host) (seed : UInt64) : Report :=
  match read args with
  | .run args => runWith host args seed
  | .help => { outcome := .exit 0, disk := host.disk, logs := host.logs }
  | .wrong => { outcome := .exit wrongCode, disk := host.disk, logs := host.logs }

end LineBasic.CommandLine
