import LineBasic.Number.Binary

/-!
# Random numbers

A sequence of numbers in the unit interval, computed from a seed.  The number drawn last can be
asked for again.
-/

set_option autoImplicit false
namespace LineBasic.Number

/-- A place in the sequence. -/
structure Random where
  counter : UInt64
  /-- The number drawn last. -/
  last : Float

namespace Random

/-- Spreads the bits of a counter: multiplications and shifts that can be undone. -/
def mix (n : UInt64) : UInt64 :=
  let n := (n ^^^ (n >>> 30)) * 0xBF58476D1CE4E5B9
  let n := (n ^^^ (n >>> 27)) * 0x94D049BB133111EB
  n ^^^ (n >>> 31)

/-- The number in the unit interval that the upper fifty-three bits of a word make. -/
def fraction (n : UInt64) : Float :=
  nearest (n.toNat / twoTo 11) (twoTo 53)

/-- The number that belongs to a counter. -/
def numberAt (counter : UInt64) : Random :=
  ⟨counter, fraction (mix counter)⟩

/-- The sequence of a seed, with its first number drawn. -/
def ofSeed (seed : UInt64) : Random :=
  numberAt (seed + 0x9E3779B97F4A7C15)

/-- The sequence with one more number drawn. -/
def next (r : Random) : Random :=
  numberAt (r.counter + 0x9E3779B97F4A7C15)

end Random

end LineBasic.Number
