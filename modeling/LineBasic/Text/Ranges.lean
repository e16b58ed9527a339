/-!
# Sets of characters given by ranges

The character classes of Unicode are long lists of ranges of code points.  A class is kept here as
such a list, and `inRanges` is membership in it.
-/

set_option autoImplicit false
namespace LineBasic.Text

/-- Membership of a character in a list of inclusive ranges of code points. -/
def inRanges (ranges : List (Nat × Nat)) (c : Char) : Bool :=
  ranges.any fun r ↦ r.1 ≤ c.toNat && c.toNat ≤ r.2

theorem inRanges_eq_true_iff {ranges : List (Nat × Nat)} {c : Char} :
    inRanges ranges c = true ↔ ∃ r ∈ ranges, r.1 ≤ c.toNat ∧ c.toNat ≤ r.2 := by
  simp [inRanges]

end LineBasic.Text
