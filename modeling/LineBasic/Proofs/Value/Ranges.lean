import LineBasic.Value
import Mathlib.Data.List.Perm.Subperm
import Mathlib.Data.List.Nodup

/-!
# Two ways through a range

A loop steps on from one number of a range to the next until there is none; a range is also made
into a list as a whole, from its start while its numbers have not passed its end.  The first way
gives the start even where that is outside the range; apart from this, both give the same numbers.

A way that ends never comes to the same number twice, and there are fewer numbers than a list of a
range may have, so no number is missing from the list.

* `Generator.Walks` — the first way, where it ends.
* `Generator.numbers_eq_of_walks` — the result.
-/

set_option autoImplicit false
namespace LineBasic.Generator

variable {g : Generator} {x y : Float} {xs ys : List Float}

/-- The numbers from one on that a range is stepped on through, where this ends. -/
inductive Walks (g : Generator) : Float → List Float → Prop
  | last {x : Float} (h : (g.advance x).2 = none) : Walks g x [x]
  | next {x y : Float} {xs : List Float} (h : (g.advance x).2 = some y) (hrest : Walks g y xs) :
      Walks g x (x :: xs)

theorem advance_snd (g : Generator) (x : Float) :
    (g.advance x).2 = if g.includes (x + g.step) then some (x + g.step) else none := rfl

namespace Walks

/-- Where a traversal stands does not matter to where it goes on from a number. -/
theorem withCurrent (h : g.Walks y ys) (x : Float) : Walks { g with current := x } y ys := by
  induction h with
  | last h => exact .last h
  | next h _ ih => exact .next h ih

theorem head_eq (h : g.Walks x (y :: ys)) : x = y := by
  cases h <;> rfl

theorem eq (h : g.Walks x xs) (h' : g.Walks x ys) : xs = ys := by
  induction h generalizing ys with
  | last h =>
    cases h' with
    | last => rfl
    | next hnext => rw [h] at hnext; cases hnext
  | next h _ ih =>
    cases h' with
    | last hlast => rw [h] at hlast; cases hlast
    | next hnext hrest =>
      rw [h] at hnext
      cases hnext
      rw [ih hrest]

/-- From each of its numbers on, a way is the rest of it. -/
theorem exists_suffix (h : g.Walks x xs) (hy : y ∈ xs) : ∃ ys, g.Walks y ys ∧ ys <:+ xs := by
  induction h with
  | last h =>
    rw [List.mem_singleton] at hy
    subst hy
    exact ⟨_, .last h, List.suffix_refl _⟩
  | next h hrest ih =>
    obtain rfl | hy := List.mem_cons.1 hy
    · exact ⟨_, .next h hrest, List.suffix_refl _⟩
    · obtain ⟨ys, hys, hsuffix⟩ := ih hy
      exact ⟨ys, hys, hsuffix.trans (List.suffix_cons ..)⟩

/-- No number is come to twice: from there on, the way would be shorter than itself. -/
theorem nodup (h : g.Walks x xs) : xs.Nodup := by
  induction h with
  | last => exact List.nodup_singleton _
  | @next x _ xs h hrest ih =>
    refine List.nodup_cons.2 ⟨fun hx ↦ ?_, ih⟩
    obtain ⟨ys, hys, hsuffix⟩ := hrest.exists_suffix hx
    have hlength := hsuffix.length_le
    rw [hys.eq (.next h hrest), List.length_cons] at hlength
    omega

end Walks

/-- A float is its bits. -/
theorem eq_of_toBits (h : x.toBits = y.toBits) : x = y := by
  obtain ⟨bits, hbits⟩ := x
  obtain ⟨bits', hbits'⟩ := y
  obtain rfl : bits = bits' := h
  rfl

/-- There are no more floats than bit patterns. -/
theorem length_le_allowance (h : xs.Nodup) : xs.length ≤ allowance := by
  have hbits : (xs.map fun x ↦ x.toBits.toNat).Nodup :=
    h.map fun x y hxy ↦ eq_of_toBits (UInt64.toNat_inj.1 hxy)
  have hsubset : (xs.map fun x ↦ x.toBits.toNat) ⊆ List.range (2 ^ 64) := by
    intro n hn
    obtain ⟨x, -, rfl⟩ := List.mem_map.1 hn
    exact List.mem_range.2 x.toBits.toNat_lt
  have hlength := (hbits.subperm hsubset).length_le
  rwa [List.length_map, List.length_range] at hlength

theorem numbersFrom_of_walks (h : g.Walks x xs) (hx : g.includes x = true) {allowed : Nat}
    (hallowed : xs.length ≤ allowed) : g.numbersFrom allowed x = xs := by
  induction h generalizing allowed with
  | @last x h =>
    obtain _ | allowed := allowed
    · cases hallowed
    rw [numbersFrom, if_pos hx]
    refine congrArg (x :: ·) ?_
    rw [advance_snd] at h
    split at h
    · cases h
    · obtain _ | allowed := allowed
      · rfl
      · rw [numbersFrom, if_neg ‹_›]
  | @next x y xs h hrest ih =>
    obtain _ | allowed := allowed
    · cases hallowed
    rw [numbersFrom, if_pos hx]
    refine congrArg (x :: ·) ?_
    rw [advance_snd] at h
    split at h
    · cases h
      exact ih ‹_› (Nat.le_of_succ_le_succ hallowed)
    · cases h

/-- A loop over a range that starts in it takes the numbers of the range. -/
theorem numbers_eq_of_walks (h : g.Walks g.start xs) (hstart : g.includes g.start = true) :
    g.numbers = xs :=
  numbersFrom_of_walks h hstart (length_le_allowance h.nodup)

end LineBasic.Generator
