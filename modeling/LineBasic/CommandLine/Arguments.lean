import LineBasic.Text.Digit

/-!
# Arguments of the command line

The command line takes a program to run, a settings file, and the folder that programs are kept in.
Options may be shortened as long as it is clear which one is meant, and may have their value behind
an equals sign.  After two dashes, everything is an argument and no option.
-/

set_option autoImplicit false
namespace LineBasic.CommandLine

/-- What the command line says. -/
structure Arguments where
  /-- The program to run; without one, lines are taken in. -/
  program : Option String := none
  /-- The settings file. -/
  config : Option String := none
  /-- The folder that programs are kept in. -/
  root : String := "."
deriving DecidableEq, Repr

/-- The options. -/
inductive Flag where
  | help
  | config
  | root
deriving DecidableEq, Repr

/-- The spellings of the options. -/
def Flag.spellings : List (String × Flag) :=
  [("-h", .help), ("--help", .help), ("--config", .config), ("--root", .root)]

/-- What an argument is. -/
inductive Part where
  | plain (text : String)
  /-- An option, with the value behind its equals sign. -/
  | option (flag : Flag) (value : Option String)
  /-- Help with something behind it that does not belong there. -/
  | refused
  | unknown
  | ambiguous
deriving DecidableEq, Repr

/-- Splits an argument at its first equals sign. -/
def splitEquals (cs : List Char) : List Char × Option String :=
  match cs.dropWhile (· != '=') with
  | [] => (cs, none)
  | _ :: value => (cs.takeWhile (· != '='), some (String.ofList value))

/-- A text without the line feed at its end, if it has one. -/
def withoutLineFeed (cs : List Char) : List Char :=
  if cs.getLast? = some '\n' then cs.dropLast else cs

/-- Whether a text is a negative number in plain decimal notation, perhaps on a line of its own. -/
def isNegativeNumber (cs : List Char) : Bool :=
  match withoutLineFeed cs with
  | '-' :: cs =>
    match cs.dropWhile Text.isDecimalDigit with
    | [] => !cs.isEmpty
    | '.' :: more => !more.isEmpty && more.all Text.isDecimalDigit
    | _ => false
  | _ => false

/-- The part that an option with a value is; help takes none. -/
def optionPart (flag : Flag) (value : Option String) : Part :=
  match flag, value with
  | .help, some _ => .refused
  | flag, value => .option flag value

/-- The part that the letter of help is with more behind it.  The letter may be said again, at once
or behind an equals sign. -/
def helpPart (more : List Char) : Part :=
  let letters := match more with
    | '=' :: c :: cs => c :: cs
    | more => more
  if letters.all (· == 'h') then .option .help none else .refused

/-- The part that an argument is that starts with a dash and is no full spelling of an option. -/
def shortenedPart (cs : List Char) : Part :=
  let (name, value) := splitEquals cs
  let found :=
    if "--".toList.isPrefixOf cs then
      Flag.spellings.filter fun s ↦ name.isPrefixOf s.1.toList
    else []
  match found with
  | [(_, flag)] => optionPart flag value
  | _ :: _ :: _ => .ambiguous
  | [] =>
    if isNegativeNumber cs || cs.contains ' ' then .plain (String.ofList cs) else .unknown

/-- Tells what an argument is. -/
def partOf (arg : String) : Part :=
  let cs := arg.toList
  let (name, value) := splitEquals cs
  match cs with
  | '-' :: 'h' :: more => helpPart more
  | '-' :: _ :: _ => match Flag.spellings.lookup arg with
    | some flag => .option flag none
    | none => match value, Flag.spellings.lookup (String.ofList name) with
      | some value, some flag => optionPart flag (some value)
      | _, _ => shortenedPart cs
  | _ => .plain arg

/-- What becomes of a command line. -/
inductive Reading where
  | run (arguments : Arguments)
  /-- To tell how the command line is used. -/
  | help
  /-- The arguments are wrong. -/
  | wrong
deriving DecidableEq, Repr

/-- A command line while it is read. -/
structure Reader where
  arguments : Arguments := {}
  /-- Whether an argument was found that means nothing. -/
  hasExtra : Bool := false
  /-- Whether the argument before is the program. -/
  isAfterProgram : Bool := false

namespace Reader

/-- Takes in an argument that is no option: the first is the program. -/
def plain (r : Reader) (text : String) : Reader :=
  match r.arguments.program with
  | none =>
    { r with arguments := { r.arguments with program := some text }, isAfterProgram := true }
  | some _ => { r with hasExtra := true, isAfterProgram := false }

/-- Takes in an option with its value. -/
def set (r : Reader) (flag : Flag) (value : String) : Reader :=
  let arguments := match flag with
    | .config => { r.arguments with config := some value }
    | .root => { r.arguments with root := value }
    | .help => r.arguments
  { r with arguments, isAfterProgram := false }

/-- What the arguments come to, once all are read. -/
def result (r : Reader) : Reading :=
  if r.hasExtra then .wrong else .run r.arguments

/-- Takes in what stands behind two dashes.  The dashes themselves belong to the program, before or
after it. -/
def rest (r : Reader) (args : List String) : Reading :=
  match r.arguments.program, args with
  | none, [] => r.result
  | none, [text] => (r.plain text).result
  | some _, [] => if r.isAfterProgram then r.result else .wrong
  | _, _ => .wrong

/-- Takes in the parts of the command line up to two dashes, and then what stands behind these, if
they are there. -/
def parts (behind : Option (List String)) : Reader → List Part → Reading
  | r, [] => match behind with
    | some args => r.rest args
    | none => r.result
  | r, .plain text :: more => parts behind (r.plain text) more
  | _, .option .help _ :: _ => .help
  | _, .refused :: _ => .wrong
  | r, .option flag (some value) :: more => parts behind (r.set flag value) more
  | r, .option flag none :: .plain value :: more => parts behind (r.set flag value) more
  | _, .option _ none :: _ => .wrong
  | r, .unknown :: more => parts behind { r with hasExtra := true, isAfterProgram := false } more
  | _, .ambiguous :: _ => .wrong

end Reader

/-- Reads a command line. -/
def read (args : List String) : Reading :=
  let front := (args.takeWhile (· != "--")).map partOf
  let behind := match args.dropWhile (· != "--") with
    | [] => none
    | _ :: behind => some behind
  if front.contains .ambiguous then .wrong else Reader.parts behind {} front

end LineBasic.CommandLine
