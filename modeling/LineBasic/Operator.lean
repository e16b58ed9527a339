/-!
# Operators

The operators of expressions, how tightly they bind, and which side of a chain of equals they group
to.  A larger precedence binds more loosely: an expression is split at its loosest operator.
-/

set_option autoImplicit false
namespace LineBasic

/-- The operators between or before operands. -/
inductive Operator where
  | join | power | times | divide | quotient | modulo | plus | minus | not | bitNot
  | shiftLeft | shiftRight | less | greater | lessEq | eqLess | greaterEq | eqGreater
  | equal | unequal | unlike | min | max | bitAnd | bitXor | bitOr | and | or | to
  | step | cons | snoc | concat | compose | apply | curry | ret | lambda | andThen
  | bind | assign | member
deriving DecidableEq, Repr

namespace Operator

/-- How an operator is written. -/
def text : Operator → String
  | .join => "`"
  | .power => "^"
  | .times => "*"
  | .divide => "/"
  | .quotient => "\\"
  | .modulo => "MOD"
  | .plus => "+"
  | .minus => "-"
  | .not => "NOT"
  | .bitNot => "BNOT"
  | .shiftLeft => "<<"
  | .shiftRight => ">>"
  | .less => "<"
  | .greater => ">"
  | .lessEq => "<="
  | .eqLess => "=<"
  | .greaterEq => ">="
  | .eqGreater => "=>"
  | .equal => "=="
  | .unequal => "<>"
  | .unlike => "><"
  | .min => "MIN"
  | .max => "MAX"
  | .bitAnd => "BAND"
  | .bitXor => "BXOR"
  | .bitOr => "BOR"
  | .and => "AND"
  | .or => "OR"
  | .to => "TO"
  | .step => "STEP"
  | .cons => "!"
  | .snoc => "~"
  | .concat => "#"
  | .compose => "."
  | .apply => "$"
  | .curry => "~<"
  | .ret => "@"
  | .lambda => "~>"
  | .andThen => ">>~"
  | .bind => ">>="
  | .assign => "="
  | .member => "IN"

/-- How loosely an operator binds. -/
def precedence : Operator → Nat
  | .join => 10
  | .power | .quotient => 20
  | .times | .divide => 30
  | .modulo => 40
  | .plus | .minus => 50
  | .not | .bitNot => 60
  | .shiftLeft | .shiftRight => 70
  | .less | .greater | .lessEq | .eqLess | .greaterEq | .eqGreater => 80
  | .equal | .unequal | .unlike => 90
  | .min | .max => 100
  | .bitAnd => 200
  | .bitXor => 201
  | .bitOr => 202
  | .and => 300
  | .or => 301
  | .to => 400
  | .step => 401
  | .cons => 500
  | .snoc => 501
  | .concat => 502
  | .compose | .apply => 600
  | .curry => 601
  | .ret => 700
  | .lambda | .andThen | .bind => 1000
  | .assign | .member => 9999

/-- Whether the first of several equally loose operators is the outermost. -/
def isRightAssociative : Operator → Bool
  | .join | .power | .cons | .compose | .apply | .ret | .lambda | .andThen | .bind | .assign
  | .member => true
  | _ => false

/-- All operators. -/
def all : List Operator :=
  [.join, .power, .times, .divide, .quotient, .modulo, .plus, .minus, .not, .bitNot,
   .shiftLeft, .shiftRight, .less, .greater, .lessEq, .eqLess, .greaterEq, .eqGreater, .equal,
   .unequal, .unlike, .min, .max, .bitAnd, .bitXor, .bitOr, .and, .or, .to, .step, .cons,
   .snoc, .concat, .compose, .apply, .curry, .ret, .lambda, .andThen, .bind, .assign, .member]

/-- The operator written so. -/
def ofText? (s : String) : Option Operator :=
  all.find? (·.text == s)

theorem mem_all (op : Operator) : op ∈ all := by
  cases op <;> decide

end Operator

/-- The operators with a single operand. -/
inductive UnaryOperator where
  | minus | plus | not | bitNot | ret | join
deriving DecidableEq, Repr

namespace UnaryOperator

/-- The name of the function that a unary operator stands for. -/
def name : UnaryOperator → String
  | .minus => "UNARYMINUS"
  | .plus => "UNARYPLUS"
  | .not => "UNARYLOGICNOT"
  | .bitNot => "UNARYBNOT"
  | .ret => "MRET"
  | .join => "MJOIN"

/-- The reading of an operator that stands before its only operand. -/
def ofOperator? : Operator → Option UnaryOperator
  | .minus => some .minus
  | .plus => some .plus
  | .not => some .not
  | .bitNot => some .bitNot
  | .ret => some .ret
  | .join => some .join
  | _ => none

end UnaryOperator

end LineBasic
