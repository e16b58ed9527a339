import LineBasic.Number.Layout
import LineBasic.Operator

/-!
# Values and trees

What programs compute with, and what they are made of.  The two types need each other: a function
holds the tree of its body, and fixing an argument of a function puts a value into that tree.

Arrays are the only values that change.  An array value is a place in a heap, so that all copies of
it see an assignment to an element; see `LineBasic.Heap`.

A function refers to parameters by the number of functions between the reference and the one that
binds it, and the position in that one's parameter list.  Its captured frames hold the arguments of
the enclosing calls, innermost first.
-/

set_option autoImplicit false
namespace LineBasic

/-- A range of numbers with the place where its traversal stands. -/
structure Generator where
  start : Float
  stop : Float
  step : Float
  current : Float

/-- What stands between two arguments. -/
inductive Separator where
  | comma
  | semicolon
deriving DecidableEq, Repr

/-- How a separator is written. -/
def Separator.text : Separator → String
  | .comma => ","
  | .semicolon => ";"

/-- The jumps that a computed jump makes. -/
inductive JumpKind where
  | goto
  | gosub
deriving DecidableEq, Repr

/-- How a jump is written. -/
def JumpKind.text : JumpKind → String
  | .goto => "GOTO"
  | .gosub => "GOSUB"

mutual

/-- The values of programs. -/
inductive Value where
  | number (x : Float)
  | string (s : String)
  | boolean (b : Bool)
  | null
  /-- The array at a place of the heap. -/
  | array (place : Nat)
  | generator (g : Generator)
  | closure (c : Closure)
  /-- The monad of sequences. -/
  | listMonad (elements : List Value)
  /-- The monad that holds one value. -/
  | memoMonad (held : Value)
  /-- Functions that are called one after the other, the first first. -/
  | composed (functions : List Closure)

/-- A function with the arguments of the calls around its definition. -/
inductive Closure where
  | mk (arity : Nat) (body : Tree) (captured : List (List Value)) (name : String)

/-- The trees of statements and expressions. -/
inductive Tree where
  | null
  | number (x : Float)
  | string (s : String)
  | boolean (b : Bool)
  | ident (name : String)
  | unary (op : UnaryOperator) (operand : Tree)
  | binary (op : Operator) (left right : Tree)
  /-- A call of a named function. -/
  | call (name : String) (args : List Tree) (separators : List Separator)
  /-- A call of a computed function. -/
  | apply (callee : Tree) (args : List Tree) (separators : List Separator)
  | array (elements : List Tree)
  /-- A parameter list that belongs to no function. -/
  | params (names : List String)
  | lambda (names : List String) (body : Tree)
  /-- A reference to a parameter. -/
  | parameter (depth index : Nat)
  | branch (condition yes : Tree) (no : Option Tree)
  /-- A jump to the target that a number selects. -/
  | select (kind : JumpKind) (test : Tree) (targets : List Tree)
  /-- A named function, before its parameters are resolved. -/
  | define (name : String) (names : List String) (body : Tree)
  /-- A value that was put into the tree. -/
  | value (v : Value)

end

instance : Inhabited Value := ⟨.null⟩
instance : Inhabited Tree := ⟨.null⟩

namespace Closure

def arity : Closure → Nat
  | mk arity _ _ _ => arity

def body : Closure → Tree
  | mk _ body _ _ => body

/-- The captured frames, innermost first. -/
def captured : Closure → List (List Value)
  | mk _ _ captured _ => captured

/-- The name under which the function was first assigned, if any. -/
def name : Closure → String
  | mk _ _ _ name => name

/-- The same function under another name. -/
def rename (name : String) : Closure → Closure
  | mk arity body captured _ => mk arity body captured name

end Closure

/-- Whether a tree is the empty expression. -/
def Tree.isNull : Tree → Bool
  | .null => true
  | _ => false

/-! ## Generators -/

namespace Generator

/-- A range at its start. -/
def fresh (start stop step : Float) : Generator :=
  ⟨start, stop, step, start⟩

/-- The direction of a range: one or minus one. -/
def direction (g : Generator) : Float :=
  if 0 < g.step then 1 else -1

/-- Whether a number has not passed the end of the range. -/
def includes (g : Generator) (x : Float) : Bool :=
  x * g.direction ≤ g.stop * g.direction

/-- Steps on from a number: the generator there, and the number reached if it is in the range. -/
def advance (g : Generator) (x : Float) : Generator × Option Float :=
  let next := x + g.step
  ({ g with current := next }, if g.includes next then some next else none)

/-- The numbers of a range from one of them on, at most as many as allowed. -/
def numbersFrom (g : Generator) : Nat → Float → List Float
  | 0, _ => []
  | allowed + 1, x => if g.includes x then x :: numbersFrom g allowed (x + g.step) else []

/-- More numbers than a range can have without repeating one: there are fewer floats. -/
def allowance : Nat := Number.twoTo 64

/-- All numbers of a range, from its start. -/
def numbers (g : Generator) : List Float :=
  g.numbersFrom allowance g.start

/-- A range as programs print it; a step of one is not shown. -/
def describe (g : Generator) : String :=
  "Generator: " ++ Number.displayText g.start ++ " to " ++ Number.displayText g.stop
    ++ if g.step == 1 then "" else " step " ++ Number.displayText g.step

/-- Equality of all parts as numbers. -/
def same (a b : Generator) : Bool :=
  a.start == b.start && a.stop == b.stop && a.step == b.step && a.current == b.current

end Generator

/-! ## Types -/

namespace Value

/-- The name of a value's type. -/
def typeName : Value → String
  | number _ => "num"
  | string _ => "string"
  | boolean _ => "bool"
  | null => "null"
  | array _ => "array"
  | generator _ => "generator"
  | closure _ => "usrdefun"
  | listMonad _ => "list-monad"
  | memoMonad _ => "value-monad"
  | composed _ => "funseq-monad"

/-- The truth value of a value in a condition: zero, the empty text, null and false are false. -/
def isTruthy : Value → Bool
  | boolean b => b
  | number x => x != 0
  | string s => s != ""
  | null => false
  | _ => true

/-- Whether a value can be called with arguments. -/
def isCallable : Value → Bool
  | closure _ => true
  | composed _ => true
  | _ => false

end Value

end LineBasic
