import LineBasic.Builtin.Function
import LineBasic.Builtin.Sequence

/-!
# Console and memory

Printing and reading lines, control of the screen, access to the memory bus, and builtins that show
values while debugging.
-/

set_option autoImplicit false
namespace LineBasic.Builtin

/-! ## Printing -/

/-- The text of an argument of a print statement; `asCode` prints numbers as characters. -/
def printedText (asCode : Bool) (v : Value) : Action String := do
  match asCode, v with
  | true, .number x => match characterOf (← Action.ofNumber (Number.truncate x)) with
    | .ok c => return String.singleton c
    | .error .outOfRange => throw (.mishap (.undefined "chr() arg not in range(0x110000)"))
    | .error .farOutOfRange => throw codeOverflow
  | _, v => Action.describe v

/-- Prints arguments from the second on, each after a tabulator if a comma stands before it. -/
def printRest (asCode : Bool) : List Separator → List Value → Action Unit
  | _, [] => return
  | separators, v :: vs => do
    if separators.head? = some .comma then Action.print "\t"
    Action.print (← printedText asCode v)
    printRest asCode separators.tail vs

/-- Whether a list of arguments leaves the line open: its last argument is nothing. -/
def leavesLineOpen (vs : List Value) : Bool :=
  match vs.getLast? with
  | some .null => true
  | _ => false

/-- Prints arguments and ends the line, unless they leave it open. -/
def printOf (asCode : Bool) (separators : List Separator) (vs : List Value) : Action Value := do
  match vs with
  | [] => pure ()
  | v :: vs =>
    Action.print (← printedText asCode v)
    printRest asCode separators vs
  if !leavesLineOpen vs then Action.print "\n"
  return .null

/-! ## Input -/

/-- What a line of input stands for: a number, or else its text. -/
def inputValue (line : String) : Value :=
  let s := Text.strip line
  match Number.plain? s with
  | some x => .number x
  | none => .string s

/-- Reads a line of input into a variable or an element. -/
def inputOf (b : Builtin) (target : Operand) : Action Operand := do
  Action.print "? "
  let v := inputValue (← Action.readLine)
  return .assignment (← target.store v b.name) v

/-- Reads a line of input as a text. -/
def readTextOf : Action Value := do
  return .string (Text.strip (← Action.readLine))

/-! ## Screen -/

/-- Clears the screen. -/
def clearScreenOf : Action Value := do
  modify fun s ↦ { s with console := s.console.clear }
  return .null

/-- Prints a command to the screen. -/
def control (text : String) : Action Value := do
  Action.print ("\x1b[" ++ text)
  return .null

/-- Moves the cursor to a row and a column, counted from the index base. -/
def moveCursorOf (b : Builtin) (row column : Value) : Action Value := do
  let shift ← Action.ofStop (Quantity.sub 1 (← get).indexBase)
  let row ← Action.ofStop (Quantity.add (← b.integer row) shift)
  let column ← Action.ofStop (Quantity.add (← b.integer column) shift)
  control (row.text ++ ";" ++ column.text ++ "H")

/-- Sets the colour of the text. -/
def textForeOf (b : Builtin) (v : Value) : Action Value := do
  control ("38;5;" ++ toString (← b.integer v) ++ "m")

/-- Sets the colour behind the text. -/
def textBackOf (b : Builtin) (v : Value) : Action Value := do
  control ("48;5;" ++ toString (← b.integer v) ++ "m")

/-! ## Memory -/

/-- Writes a byte. -/
def writeByte (address n : Int) : Action Unit := do
  let s ← get
  set { s with bus := ← Action.ofFault (s.bus.poke address n) }

/-- Reads a byte as a value. -/
def readByte (address : Int) : Action Value := do
  return .number (Number.ofNat (← Action.ofFault ((← get).bus.peek address)))

/-- Writes a byte to an address. -/
def pokeOf (b : Builtin) (address v : Value) : Action Value := do
  let address ← b.integer address
  writeByte address (← b.integer v)
  return .null

/-- Reads the byte at an address. -/
def peekOf (b : Builtin) (address : Value) : Action Value := do
  readByte (← b.integer address)

/-- The address of the first point of the screen. -/
def screenAddress : Int := 1048576

/-- The number of points in a row of the screen. -/
def screenWidth : Int := 560

/-- Sets a point of the screen. -/
def plotOf (b : Builtin) (x y v : Value) : Action Value := do
  let x ← b.integer x
  let y ← b.integer y
  if x < 0 ∨ screenWidth ≤ x ∨ y < 0 then
    Action.fail (.badCall
      ("PLOT position (" ++ toString x ++ ", " ++ toString y ++ ") is off screen"))
  else
    writeByte (screenAddress + y * screenWidth + x) (← b.integer v)
    return .null

/-- The address that makes the keyboard note which keys are down. -/
def keyboardLatch : Int := -40

/-- The addresses of the keys that were noted. -/
def keyAddresses : List Int :=
  [-41, -42, -43, -44, -45, -46, -47, -48]

/-- The keys that are down. -/
def keysDownOf : Action Value := do
  writeByte keyboardLatch 255
  Action.newArray (← keyAddresses.mapM readByte)

/-! ## Debugging -/

/-- Prints a monad. -/
def printMonadOf (v : Value) : Action Value := do
  if isMonad v then
    Action.print ((← Action.describe v) ++ "\n")
    return .null
  else Action.fail (.typeMismatch (← Action.typed v) "a monad")

/-- Prints a value and gives it back. -/
def resolveOf (site : Site) (v : Value) : Action Value := do
  match v with
  | .closure _ => Action.print (toString site.line ++ " RESOLVE PRINTTREE\n")
  | _ => pure ()
  Action.print ((← Action.describe v) ++ "\n")
  return v

/-- Prints type and text of a variable and gives back its value. -/
def resolveVarOf (operand : Operand) : Action Operand := do
  match operand with
  | .reference name => match (← get).vars.lookup? name with
    | some v =>
      Action.print ("type: " ++ v.typeName ++ ", value: " ++ (← Action.describe v) ++ "\n")
      return .value v
    | none =>
      Action.fail { kind := .unresolvedReference, message := "Undefined variable: " ++ name }
  | operand =>
    Action.fail { Fault.malformed "RESOLVEVAR needs a variable name" with
      received := some (← operand.typed) }

end LineBasic.Builtin
