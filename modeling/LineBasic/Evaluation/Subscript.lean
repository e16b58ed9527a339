import LineBasic.Operand

/-!
# Subscripts

Applying an array to numbers gives an element of it, or of an array inside it, one subscript for
each dimension.  Subscripts are counted from the index base and checked against the arrays as they
are now.
-/

set_option autoImplicit false
namespace LineBasic.Operand

/-- The offset of an element in an array of the given size, if it is an integer. -/
def offset? (name : String) (size : Nat) (arg : Value) : Action (Option Nat) := do
  match arg with
  | .number x =>
    let n ← Action.ofNumber (Number.truncate x)
    match ← Action.position n size with
    | .element k => return some k
    | .inexact => return none
    | .outside => Action.fail (.subscript name n size)
  | v =>
    Action.fail (.typeMismatch (← Action.typed v) ("a numeric subscript for \"" ++ name ++ "\""))

/-- An array with fewer dimensions than subscripts, of which there are `count`. -/
def tooManySubscripts (name : String) (count : Nat) : Fault :=
  { kind := .typeMismatch, message := "\"" ++ name ++ "\" has fewer dimensions than subscripts"
    received := some (toString count) }

/-- Goes on from the array at `place`, which `way` leads to, along the rest of `count`
subscripts. -/
def descend (base : Nat) (name : String) (count : Nat) (place : Nat) (way : List Nat)
    (arg : Value) : List Value → Action Operand
  | [] => do
    match ← offset? name ((← get).heap.elements place).size arg with
    | some index => return .element base way index name
    | none => return .inexact base way name
  | next :: args => do
    match ← offset? name ((← get).heap.elements place).size arg with
    | some index => match (← get).heap.child? place index with
      | some inner => descend base name count inner (way ++ [index]) next args
      | none => Action.fail (tooManySubscripts name count)
    | none => throw .misfit

/-- The element that subscripts lead to from an array, after the subscripts in `way`. -/
def subscripted (base : Nat) (way : List Nat) (name : String) (args : List Value) :
    Action Operand := do
  match args with
  | [] => Action.fail (.malformed ("Missing subscript for \"" ++ name ++ "\""))
  | arg :: more =>
    let place ← Action.ofStop ((← get).heap.follow base way)
    descend base name args.length place way arg more

end LineBasic.Operand
