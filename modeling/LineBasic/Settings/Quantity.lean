import LineBasic.Fault
import LineBasic.Json

/-!
# Quantities

A setting that counts something is an integer as a rule.  A settings file can give it any value,
though: a truth value counts as one or zero, a float is computed with as it is, and with a value of
another kind nothing can be computed.  Two integers make an integer, an integer and a float make a
float.

* `Quantity.sub`, `Quantity.add`, `Quantity.isBelow` — arithmetic and comparison.
* `Quantity.position` — which element of a list a quantity selects.
-/

set_option autoImplicit false
namespace LineBasic

/-- The value of a setting that counts something. -/
inductive Quantity where
  | whole (n : Int)
  | truth (b : Bool)
  | real (x : Float)
  /-- A value that cannot be computed with. -/
  | other
deriving Repr

namespace Quantity

instance : Coe Int Quantity := ⟨whole⟩

instance (n : Nat) : OfNat Quantity n := ⟨whole n⟩

/-! ## Values of a settings file -/

/-- The quantity that a value is. -/
def ofJson : Json → Quantity
  | .integer n => whole n
  | .boolean b => truth b
  | .float x => real x
  | .null | .string _ | .array _ | .object _ => other

/-- A value that is the quantity. -/
def toJson : Quantity → Json
  | whole n => .integer n
  | truth b => .boolean b
  | real x => .float x
  | other => .null

theorem ofJson_toJson (q : Quantity) : ofJson q.toJson = q := by
  cases q <;> rfl

/-- The text of a quantity; one that cannot be computed with has none. -/
def text : Quantity → String
  | whole n => toString n
  | truth b => if b then "True" else "False"
  | real x => Number.exactText x
  | other => ""

/-! ## Arithmetic -/

/-- The integer that a quantity counts as, if it is no float. -/
def whole? : Quantity → Option Int
  | whole n => some n
  | truth b => some (if b then 1 else 0)
  | real _ | other => none

/-- The float that a quantity counts as. -/
def real? : Quantity → Option Float
  | real x => some x
  | q => q.whole?.map Number.ofInt

/-- What is computed from two quantities, given how it is computed from integers and from floats. -/
def compute {α : Type} (onWhole : Int → Int → α) (onReal : Float → Float → α) (p q : Quantity) :
    Except Stop α :=
  match p.whole?, q.whole? with
  | some m, some n => .ok (onWhole m n)
  | _, _ => match p.real?, q.real? with
    | some x, some y => .ok (onReal x y)
    | _, _ => .error .misfit

/-- The sum of two quantities. -/
def add : Quantity → Quantity → Except Stop Quantity :=
  compute (fun m n ↦ whole (m + n)) (fun x y ↦ real (x + y))

/-- The difference of two quantities. -/
def sub : Quantity → Quantity → Except Stop Quantity :=
  compute (fun m n ↦ whole (m - n)) (fun x y ↦ real (x - y))

/-- Whether one quantity is less than another; what is no number is less than nothing. -/
def isBelow : Quantity → Quantity → Except Stop Bool :=
  compute (fun m n ↦ decide (m < n)) (fun x y ↦ decide (x < y))

theorem add_whole (m n : Int) : add (whole m) (whole n) = .ok (whole (m + n)) := rfl

theorem sub_whole (m n : Int) : sub (whole m) (whole n) = .ok (whole (m - n)) := rfl

theorem isBelow_whole (m n : Int) : isBelow (whole m) (whole n) = .ok (decide (m < n)) := rfl

/-- The larger of a quantity and one. -/
def atLeastOne : Quantity → Quantity
  | whole n => whole (max n 1)
  | truth _ => 1
  | real x => if x < 1 then 1 else real x
  | other => other

/-- Whether a count is a multiple of a quantity. -/
def divides (q : Quantity) (count : Nat) : Bool :=
  match q.whole?, q with
  | some n, _ => (count : Int) % n == 0
  | none, real x => match Number.remainder (Number.ofNat count) x with
    | .ok rest => rest == 0
    | .error _ => false
  | none, _ => false

/-! ## Positions -/

/-- What a quantity selects from a list. -/
inductive Position where
  | element (k : Nat)
  /-- Something between the ends of the list, but not given by an integer. -/
  | inexact
  | outside
deriving DecidableEq, Repr

/-- What a quantity selects from a list of the given size. -/
def position (size : Nat) (q : Quantity) : Position :=
  match q.whole?, q with
  | some k, _ => if 0 ≤ k ∧ k < size then .element k.toNat else .outside
  | none, real x => if 0 ≤ x ∧ x < Number.ofNat size then .inexact else .outside
  | none, _ => .outside

theorem position_whole (size : Nat) (k : Int) :
    position size (whole k) = if 0 ≤ k ∧ k < size then .element k.toNat else .outside := rfl

/-- Where a part of a text starts that is to start at a quantity, or at the start of the text if the
quantity is negative. -/
def start (q : Quantity) : Except Stop Nat :=
  match q.whole?, q with
  | some k, _ => .ok k.toNat
  | none, real x => if x < 0 then .ok 0 else .error .misfit
  | none, _ => .error .misfit

theorem start_whole (k : Int) : start (whole k) = .ok k.toNat := rfl

end Quantity

end LineBasic
