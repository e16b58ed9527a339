import LineBasic.Fault
import LineBasic.Heap
import LineBasic.Text.Quoted

/-!
# The texts of values and trees

A value is printed the way the print statement shows it, and a tree as source text.  Both can fail:
an infinite or undefined number literal has no text, and an array that contains itself would have
an endless one.

The text of an array is that of its elements, so printing an array recurses into the heap.  A walk
that enters more arrays than the heap has must have entered one of them twice, which is how endless
texts are found out.
-/

set_option autoImplicit false
namespace LineBasic

/-- The parameters of a function as its text shows them. -/
def parameterList (arity : Nat) : String :=
  ", ".intercalate ((List.range arity).map fun i ↦ "$0_" ++ toString i)

/-- The text of a number literal. -/
def literal (x : Float) : Except Stop String :=
  match Number.literalText x with
  | .ok text => .ok text
  | .error mishap => .error (.mishap mishap)

section
variable (array : Nat → Except Stop String)

mutual

/-- The text of a value, given the texts of arrays. -/
def valueText : Value → Except Stop String
  | .number x => .ok (Number.displayText x)
  | .string s => .ok s
  | .boolean b => .ok (if b then "true" else "false")
  | .null => .ok ""
  | .array place => array place
  | .generator g => .ok g.describe
  | .closure c => closureText c
  | .listMonad elements => return "M[list](" ++ ",".intercalate (← valueTexts elements) ++ ")"
  | .memoMonad held => return "M[value](" ++ (← valueText held) ++ ")"
  | .composed functions =>
    return "M[funseq](" ++ ",".intercalate (← closureTexts functions) ++ ")"

/-- The text of a function. -/
def closureText : Closure → Except Stop String
  | .mk arity body _ _ => return "[" ++ parameterList arity ++ "] ~> " ++ (← treeText body)

/-- The text of a tree. -/
def treeText : Tree → Except Stop String
  | .null => .ok ""
  | .number x => literal x
  | .string s => .ok ("\"" ++ s ++ "\"")
  | .boolean b => .ok (if b then "TRUE" else "FALSE")
  | .ident name => .ok name
  | .unary op operand => return op.name ++ "(" ++ (← treeText operand) ++ ")"
  | .binary op left right => do
    let left ← treeText left
    let right ← treeText right
    return "(" ++ left ++ " " ++ op.text ++ " " ++ right ++ ")"
  | .call name args _ => return name ++ "(" ++ ", ".intercalate (← treeTexts args) ++ ")"
  | .apply callee args _ => do
    let callee ← treeText callee
    return "(" ++ callee ++ ")(" ++ ", ".intercalate (← treeTexts args) ++ ")"
  | .array elements => return "\x7b" ++ ", ".intercalate (← treeTexts elements) ++ "\x7d"
  | .params names => .ok ("[" ++ ", ".intercalate names ++ "]")
  | .lambda names body => return "[" ++ ", ".intercalate names ++ "] ~> " ++ (← treeText body)
  | .parameter depth index => .ok ("$" ++ toString depth ++ "_" ++ toString index)
  | .branch condition yes no => do
    let condition ← treeText condition
    let yes ← treeText yes
    return "IF " ++ condition ++ " THEN " ++ yes ++ (← elseText no)
  | .select kind test targets => do
    let targets ← treeTexts targets
    let test ← treeText test
    return "ON " ++ test ++ " " ++ kind.text ++ " " ++ ", ".intercalate targets
  | .define name names body =>
    return "DEFUN " ++ name ++ "(" ++ ", ".intercalate names ++ ") = " ++ (← treeText body)
  | .value v => valueText v

/-- The text of the other branch, if there is one. -/
def elseText : Option Tree → Except Stop String
  | none => .ok ""
  | some no => return " ELSE " ++ (← treeText no)

/-- The texts of several values. -/
def valueTexts : List Value → Except Stop (List String)
  | [] => .ok []
  | v :: vs => do
    let text ← valueText v
    return text :: (← valueTexts vs)

/-- The texts of several functions. -/
def closureTexts : List Closure → Except Stop (List String)
  | [] => .ok []
  | c :: cs => do
    let text ← closureText c
    return text :: (← closureTexts cs)

/-- The texts of several trees. -/
def treeTexts : List Tree → Except Stop (List String)
  | [] => .ok []
  | t :: ts => do
    let text ← treeText t
    return text :: (← treeTexts ts)

end

end

namespace Heap

/-- The text of the array at a place, entering at most as many arrays as allowed. -/
def arrayText (h : Heap) : Nat → Nat → Except Stop String
  | 0, _ => .error .endlessNesting
  | allowed + 1, place =>
    return ",".intercalate (← valueTexts (arrayText h allowed) (h.elements place).toList)

/-- The text of a value. -/
def describe (h : Heap) (v : Value) : Except Stop String :=
  valueText (h.arrayText (h.size + 1)) v

/-- The text of a tree. -/
def describeTree (h : Heap) (t : Tree) : Except Stop String :=
  treeText (h.arrayText (h.size + 1)) t

/-- A value in a diagnostic: its type and its quoted text. -/
def typed (h : Heap) (v : Value) : Except Stop String :=
  return v.typeName ++ " " ++ Text.quoted (← h.describe v)

end Heap

end LineBasic
