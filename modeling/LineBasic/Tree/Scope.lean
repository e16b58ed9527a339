import LineBasic.Value

/-!
# Resolving parameters

A parsed tree names the parameters of functions; here the names give way to references, which say
how many functions lie between a use and the function that binds it, and the parameter's position.
The innermost function that has a parameter of the name binds it.  All other names stay, and are
looked up when the tree is evaluated.

On the way, the definition of a named function becomes the assignment of a function, and the sign
of a number literal becomes part of it.
-/

set_option autoImplicit false
namespace LineBasic

/-- The parameter lists of the functions around a tree, innermost first. -/
abbrev Binders : Type := List (List String)

/-- The reference to a name under the given binders, starting to count functions at `depth`. -/
def Binders.findFrom (name : String) : Nat → Binders → Option (Nat × Nat)
  | _, [] => none
  | depth, names :: binders =>
    match names.idxOf? name with
    | some index => some (depth, index)
    | none => findFrom name (depth + 1) binders

/-- The reference to a name: the number of functions between, and the position. -/
def Binders.find? (binders : Binders) (name : String) : Option (Nat × Nat) :=
  findFrom name 0 binders

namespace Tree

/-- The tree of a sign and its operand; a literal takes the sign in. -/
def signed (op : UnaryOperator) (operand : Tree) : Tree :=
  match op, operand with
  | .minus, .number x => .number (-x)
  | .plus, .number x => .number x
  | op, operand => .unary op operand

mutual

/-- A tree with the names of the binders around it resolved. -/
def resolveIn (binders : Binders) : Tree → Tree
  | .ident name => match binders.find? name with
    | some (depth, index) => .parameter depth index
    | none => .ident name
  | .unary op operand => signed op (resolveIn binders operand)
  | .binary op left right => .binary op (resolveIn binders left) (resolveIn binders right)
  | .call name args separators =>
    let args := resolveAll binders args
    match binders.find? name with
    | some (depth, index) => .apply (.parameter depth index) args separators
    | none => .call name args separators
  | .apply callee args separators =>
    .apply (resolveIn binders callee) (resolveAll binders args) separators
  | .array elements => .array (resolveAll binders elements)
  | .lambda names body => .lambda names (resolveIn (names :: binders) body)
  | .branch condition yes no =>
    .branch (resolveIn binders condition) (resolveIn binders yes) (resolveElse binders no)
  | .select kind test targets =>
    .select kind (resolveIn binders test) (resolveAll binders targets)
  | .define name names body =>
    .binary .assign (.ident name) (.lambda names (resolveIn (names :: binders) body))
  | t => t

/-- Several trees with their names resolved. -/
def resolveAll (binders : Binders) : List Tree → List Tree
  | [] => []
  | t :: ts => resolveIn binders t :: resolveAll binders ts

/-- The other branch of a conditional with its names resolved. -/
def resolveElse (binders : Binders) : Option Tree → Option Tree
  | none => none
  | some t => some (resolveIn binders t)

end

/-- A statement's tree with all parameters resolved. -/
def resolve (t : Tree) : Tree :=
  resolveIn [] t

end Tree

end LineBasic
