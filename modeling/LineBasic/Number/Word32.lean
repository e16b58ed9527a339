/-!
# Bits of integers

A negative integer has all bits but those of the natural number that it is the complement of, so
that integers have their bits without end.  The bit operators work on integers reduced to thirty-two
of them: all but the shifts on signed words, in two's complement, and the shifts on unsigned words.
-/

set_option autoImplicit false
namespace LineBasic.Number

/-! ## Bits without end -/

/-- The bits of a natural number that another does not have. -/
def without (m n : Nat) : Nat :=
  m ^^^ (m &&& n)

/-- The bits that both integers have. -/
def sharedBits : Int → Int → Int
  | .ofNat m, .ofNat n => .ofNat (m &&& n)
  | .ofNat m, .negSucc n => .ofNat (without m n)
  | .negSucc m, .ofNat n => .ofNat (without n m)
  | .negSucc m, .negSucc n => .negSucc (m ||| n)

/-- The bits that either integer has. -/
def unitedBits : Int → Int → Int
  | .ofNat m, .ofNat n => .ofNat (m ||| n)
  | .ofNat m, .negSucc n => .negSucc (without n m)
  | .negSucc m, .ofNat n => .negSucc (without m n)
  | .negSucc m, .negSucc n => .negSucc (m &&& n)

/-- The bits that exactly one of the integers has. -/
def differingBits : Int → Int → Int
  | .ofNat m, .ofNat n => .ofNat (m ^^^ n)
  | .ofNat m, .negSucc n => .negSucc (m ^^^ n)
  | .negSucc m, .ofNat n => .negSucc (m ^^^ n)
  | .negSucc m, .negSucc n => .ofNat (m ^^^ n)

/-! ## Words -/

/-- An integer reduced to an unsigned word. -/
def unsignedWord (n : Int) : Int :=
  sharedBits n 0xFFFFFFFF

/-- An integer reduced to a signed word: one with the leading bit is negative. -/
def signedWord (n : Int) : Int :=
  if sharedBits (unsignedWord n) 0x80000000 = 0 then unsignedWord n
  else unsignedWord n - 0x100000000

/-- The number of places of a shift, which counts modulo thirty-two. -/
def places (n : Int) : Nat :=
  (sharedBits (unsignedWord n) 31).toNat

/-! ## The operators -/

/-- The bits that both words have. -/
def bitAnd (a b : Int) : Int :=
  sharedBits (signedWord a) (signedWord b)

/-- The bits that either word has. -/
def bitOr (a b : Int) : Int :=
  unitedBits (signedWord a) (signedWord b)

/-- The bits that exactly one of the words has. -/
def bitXor (a b : Int) : Int :=
  differingBits (signedWord a) (signedWord b)

/-- The bits that the word does not have. -/
def bitNot (a : Int) : Int :=
  ~~~signedWord a

/-- A shift that drops the bits that leave the word. -/
def shiftLeft (a b : Int) : Int :=
  signedWord (unsignedWord a <<< places b)

/-- A shift that fills with zeros; its result is not signed. -/
def shiftRight (a b : Int) : Int :=
  unsignedWord a >>> places b

end LineBasic.Number
