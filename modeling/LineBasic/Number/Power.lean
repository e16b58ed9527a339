/-!
# Powers of two and of ten

The sizes of words and the places of numerals.  Their exponents are natural numbers; where an
exponent may be negative, one of two powers is one.
-/

set_option autoImplicit false
namespace LineBasic.Number

/-- The power of two of an exponent. -/
def twoTo (n : Nat) : Nat := Nat.pow 2 n

/-- The power of ten of an exponent. -/
def tenTo (n : Nat) : Nat := Nat.pow 10 n

end LineBasic.Number
