import LineBasic.Fault
import LineBasic.Text.Lines

/-!
# The console

The console has the text printed so far and the lines that are waiting to be read.  A running
program polls it between statements, and stops if a stop was requested.  It may also break off
programs on its own, at every poll whose number is a multiple of a given one.
-/

set_option autoImplicit false
namespace LineBasic

/-- A console that keeps its output and has its input queued. -/
structure Console where
  output : String := ""
  input : List String := []
  stopRequested : Bool := false
  /-- How often the console was polled. -/
  polls : Nat := 0
  /-- Every poll of this many stops the program; with none, only requests do. -/
  breakEvery : Option Nat := none

namespace Console

/-- Prints a text as it is. -/
def print (c : Console) (text : String) : Console :=
  { c with output := c.output ++ text }

/-- Clears the screen. -/
def clear (c : Console) : Console :=
  c.print "\x1b[2J\x1b[H"

/-- The next line of input, if there is one. -/
def readLine? (c : Console) : Option (String × Console) :=
  match c.input with
  | [] => none
  | line :: rest => some (line, { c with input := rest })

/-- Queues lines of input. -/
def feed (c : Console) (lines : List String) : Console :=
  { c with input := c.input ++ lines }

/-- Asks the running program to stop at the next poll. -/
def requestStop (c : Console) : Console :=
  { c with stopRequested := true }

/-- Whether the running program has to stop; a request is granted once. -/
def poll (c : Console) : Bool × Console :=
  let polls := c.polls + 1
  let isBreak := match c.breakEvery with
    | some n => polls % n == 0
    | none => false
  (isBreak || c.stopRequested, { c with polls, stopRequested := false })

/-- The printed text as lines. -/
def lines (c : Console) : List String :=
  Text.lines c.output

/-- Forgets the printed text. -/
def resetOutput (c : Console) : Console :=
  { c with output := "" }

end Console

end LineBasic
