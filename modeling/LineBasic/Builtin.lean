import LineBasic.Operator
import LineBasic.Text.Upper

/-!
# Builtin functions

Everything that a program can do is the call of a builtin function: operators, mathematics, and
statements alike.  This file names them and says how they are called.

* `Builtin.arity` — how many arguments a builtin takes; some take any number.
* `Builtin.isRaw` — whether it receives operands before they are resolved to values, because it
  writes to them or needs their names.
* `Builtin.isDebugOnly`, `Builtin.isNotForProduction` — the modes that a builtin is kept from.
-/

set_option autoImplicit false
namespace LineBasic

/-- The builtin functions. -/
inductive Builtin where
  | plus | minus | times | divide | quotient | modulo | power | equal | unequal | unlike | less
  | greater | lessEq | eqLess | greaterEq | eqGreater | shiftLeft | shiftRight | bitAnd | bitOr
  | bitXor | and | or | min | max | to | step | cons | snoc | concat | compose | apply | curry
  | bind | andThen | assign | member | negate | positive | not | bitNot | ret | join
  | abs | sign | int | floor | fix | ceil | round | sqrt | cubeRoot | exp | log | sin | cos | tan
  | asin | acos | atan | sinh | cosh | tanh | random
  | left | right | mid | spaces | chr | dim | len | head | tail | init | last
  | map | fold | filter | reduce | listOf | typeOf
  | loop | loopOver | next | goto | gosub | comeBack | finish | sequence | test
  | data | read | takeData | restore | label | clear | optionBase | optionDebug | optionTrace
  | print | emit | input | readText | clearScreen | moveCursor | textFore | textBack | poke
  | peek | plot | keysDown
  | printMonad | resolve | resolveVar
deriving DecidableEq, Repr

namespace Builtin

/-- The name that a builtin is called by. -/
def name : Builtin → String
  | .plus => "+"
  | .minus => "-"
  | .times => "*"
  | .divide => "/"
  | .quotient => "\\"
  | .modulo => "MOD"
  | .power => "^"
  | .equal => "=="
  | .unequal => "<>"
  | .unlike => "><"
  | .less => "<"
  | .greater => ">"
  | .lessEq => "<="
  | .eqLess => "=<"
  | .greaterEq => ">="
  | .eqGreater => "=>"
  | .shiftLeft => "<<"
  | .shiftRight => ">>"
  | .bitAnd => "BAND"
  | .bitOr => "BOR"
  | .bitXor => "BXOR"
  | .and => "AND"
  | .or => "OR"
  | .min => "MIN"
  | .max => "MAX"
  | .to => "TO"
  | .step => "STEP"
  | .cons => "!"
  | .snoc => "~"
  | .concat => "#"
  | .compose => "."
  | .apply => "$"
  | .curry => "~<"
  | .bind => ">>="
  | .andThen => ">>~"
  | .assign => "="
  | .member => "IN"
  | .negate => "UNARYMINUS"
  | .positive => "UNARYPLUS"
  | .not => "UNARYLOGICNOT"
  | .bitNot => "UNARYBNOT"
  | .ret => "MRET"
  | .join => "MJOIN"
  | .abs => "ABS"
  | .sign => "SGN"
  | .int => "INT"
  | .floor => "FLOOR"
  | .fix => "FIX"
  | .ceil => "CEIL"
  | .round => "ROUND"
  | .sqrt => "SQR"
  | .cubeRoot => "CBR"
  | .exp => "EXP"
  | .log => "LOG"
  | .sin => "SIN"
  | .cos => "COS"
  | .tan => "TAN"
  | .asin => "ASN"
  | .acos => "ACO"
  | .atan => "ATN"
  | .sinh => "SINH"
  | .cosh => "COSH"
  | .tanh => "TANH"
  | .random => "RND"
  | .left => "LEFT"
  | .right => "RIGHT"
  | .mid => "MID"
  | .spaces => "SPC"
  | .chr => "CHR"
  | .dim => "DIM"
  | .len => "LEN"
  | .head => "HEAD"
  | .tail => "TAIL"
  | .init => "INIT"
  | .last => "LAST"
  | .map => "MAP"
  | .fold => "FOLD"
  | .filter => "FILTER"
  | .reduce => "REDUCE"
  | .listOf => "MLIST"
  | .typeOf => "TYPEOF"
  | .loop => "FOR"
  | .loopOver => "FOREACH"
  | .next => "NEXT"
  | .goto => "GOTO"
  | .gosub => "GOSUB"
  | .comeBack => "RETURN"
  | .finish => "END"
  | .sequence => "DO"
  | .test => "TEST"
  | .data => "DATA"
  | .read => "READ"
  | .takeData => "DGET"
  | .restore => "RESTORE"
  | .label => "LABEL"
  | .clear => "CLEAR"
  | .optionBase => "OPTIONBASE"
  | .optionDebug => "OPTIONDEBUG"
  | .optionTrace => "OPTIONTRACE"
  | .print => "PRINT"
  | .emit => "EMIT"
  | .input => "INPUT"
  | .readText => "CIN"
  | .clearScreen => "CLS"
  | .moveCursor => "GOTOYX"
  | .textFore => "TEXTFORE"
  | .textBack => "TEXTBACK"
  | .poke => "POKE"
  | .peek => "PEEK"
  | .plot => "PLOT"
  | .keysDown => "GETKEYSDOWN"
  | .printMonad => "PRINTMONAD"
  | .resolve => "RESOLVE"
  | .resolveVar => "RESOLVEVAR"

/-- All builtins. -/
def all : List Builtin :=
  [.plus, .minus, .times, .divide, .quotient, .modulo, .power, .equal, .unequal, .unlike,
   .less, .greater, .lessEq, .eqLess, .greaterEq, .eqGreater, .shiftLeft, .shiftRight,
   .bitAnd, .bitOr, .bitXor, .and, .or, .min, .max, .to, .step, .cons, .snoc, .concat,
   .compose, .apply, .curry, .bind, .andThen, .assign, .member, .negate, .positive, .not,
   .bitNot, .ret, .join, .abs, .sign, .int, .floor, .fix, .ceil, .round, .sqrt, .cubeRoot,
   .exp, .log, .sin, .cos, .tan, .asin, .acos, .atan, .sinh, .cosh, .tanh, .random, .left,
   .right, .mid, .spaces, .chr, .dim, .len, .head, .tail, .init, .last, .map, .fold, .filter,
   .reduce, .listOf, .typeOf, .loop, .loopOver, .next, .goto, .gosub, .comeBack, .finish,
   .sequence, .test, .data, .read, .takeData, .restore, .label, .clear, .optionBase,
   .optionDebug, .optionTrace, .print, .emit, .input, .readText, .clearScreen, .moveCursor,
   .textFore, .textBack, .poke, .peek, .plot, .keysDown, .printMonad, .resolve, .resolveVar]

/-- The number of arguments of a builtin, unless it takes any number. -/
def arity : Builtin → Option Nat
  | .dim | .next | .sequence | .data | .print | .emit => none
  | .comeBack | .finish | .takeData | .restore | .clear | .readText | .clearScreen
  | .keysDown => some 0
  | .negate | .positive | .not | .bitNot | .ret | .join | .abs | .sign | .int | .floor | .fix
  | .ceil | .round | .sqrt | .cubeRoot | .exp | .log | .sin | .cos | .tan | .asin | .acos | .atan
  | .sinh | .cosh | .tanh | .random | .spaces | .chr | .len | .head | .tail | .init | .last
  | .reduce | .listOf | .typeOf | .loop | .loopOver | .goto | .gosub | .test | .read | .label
  | .optionBase | .optionDebug | .optionTrace | .input | .textFore | .textBack | .peek
  | .printMonad | .resolve | .resolveVar => some 1
  | .mid | .fold | .plot => some 3
  | _ => some 2

/-- Whether a builtin receives its operands unresolved. -/
def isRaw : Builtin → Bool
  | .assign | .member | .loop | .loopOver | .next | .goto | .gosub | .read | .label | .input
  | .resolveVar => true
  | _ => false

/-- Whether a builtin is available only while debugging. -/
def isDebugOnly : Builtin → Bool
  | .printMonad | .resolve | .resolveVar => true
  | _ => false

/-- Whether a builtin is withheld in production. -/
def isNotForProduction : Builtin → Bool
  | .reduce => true
  | _ => false

/-- Looks a builtin up by its name in upper case. -/
def ofKey? (key : String) : Option Builtin :=
  all.find? (·.name == key)

/-- Looks a builtin up by its name, in any case of letters. -/
def ofName? (name : String) : Option Builtin :=
  ofKey? (Text.upper name)

/-- Whether a text in upper case is the name of a builtin. -/
def isName (key : String) : Bool :=
  (ofKey? key).isSome

/-- The names in alphabetical order. -/
def sortedNames : List String :=
  (all.map name).mergeSort (· ≤ ·)

/-- The names that are words, in alphabetical order. -/
def keywords : List String :=
  sortedNames.filter fun name ↦ name.toList.head?.any Char.isAlpha

/-- The builtin that a unary operator calls. -/
def ofUnary : UnaryOperator → Builtin
  | .minus => .negate
  | .plus => .positive
  | .not => .not
  | .bitNot => .bitNot
  | .ret => .ret
  | .join => .join

theorem mem_all (b : Builtin) : b ∈ all := by
  cases b <;> decide

end Builtin

end LineBasic
