import LineBasic.Number.Word32
import Mathlib

/-!
# Words

Bits without end are compared with those of bit vectors: reducing an integer to a word of any width
commutes with the operations on bits.  An operator on signed words stays within them, so that it is
the operator on bit vectors, read as a signed integer; a shift is a product or a quotient by a power
of two.

* `ofInt_sharedBits`, `ofInt_unitedBits`, `ofInt_differingBits` — operations on bits commute with
  the reduction to a word.
* `IsSigned` — the integers that a signed word can hold.
* `bitAnd_eq`, `bitOr_eq`, `bitXor_eq`, `bitNot_eq`, `shiftLeft_eq`, `shiftRight_eq` — the operators
  on words.
-/

set_option autoImplicit false
namespace LineBasic.Number

/-! ## Reducing to a word -/

section
variable {w : Nat} (a b : Int)

theorem ofNat_without (m n : Nat) :
    BitVec.ofNat w (without m n) = BitVec.ofNat w m &&& ~~~BitVec.ofNat w n := by
  rw [without, BitVec.ofNat_xor, BitVec.ofNat_and]
  ext i hi
  simp only [BitVec.getElem_xor, BitVec.getElem_and, BitVec.getElem_not]
  cases (BitVec.ofNat w m)[i] <;> cases (BitVec.ofNat w n)[i] <;> rfl

theorem ofInt_ofNat (n : Nat) : BitVec.ofInt w (.ofNat n) = BitVec.ofNat w n :=
  BitVec.ofInt_natCast w n

theorem ofInt_not : BitVec.ofInt w (~~~a) = ~~~BitVec.ofInt w a := by
  cases a with
  | ofNat n => exact BitVec.ofInt_negSucc_eq_not_ofNat
  | negSucc n =>
    rw [BitVec.ofInt_negSucc_eq_not_ofNat, BitVec.not_not]
    exact ofInt_ofNat n

theorem ofInt_sharedBits :
    BitVec.ofInt w (sharedBits a b) = BitVec.ofInt w a &&& BitVec.ofInt w b := by
  cases a <;> cases b <;>
    simp only [sharedBits, ofInt_ofNat, BitVec.ofInt_negSucc_eq_not_ofNat, ofNat_without,
      BitVec.ofNat_and, BitVec.ofNat_or, BitVec.not_or]
  exact BitVec.and_comm _ _

theorem ofInt_unitedBits :
    BitVec.ofInt w (unitedBits a b) = BitVec.ofInt w a ||| BitVec.ofInt w b := by
  cases a <;> cases b <;>
    simp only [unitedBits, ofInt_ofNat, BitVec.ofInt_negSucc_eq_not_ofNat, ofNat_without,
      BitVec.ofNat_and, BitVec.ofNat_or, BitVec.not_and, BitVec.not_not]
  exact BitVec.or_comm _ _

theorem ofInt_differingBits :
    BitVec.ofInt w (differingBits a b) = BitVec.ofInt w a ^^^ BitVec.ofInt w b := by
  cases a <;> cases b <;>
    simp only [differingBits, ofInt_ofNat, BitVec.ofInt_negSucc_eq_not_ofNat, BitVec.ofNat_xor]
  all_goals
    ext i hi
    simp

end

/-! ## Unsigned and signed words -/

theorem without_lt {m n w : Nat} (h : m < 2 ^ w) : without m n < 2 ^ w :=
  Nat.xor_lt_two_pow h (Nat.lt_of_le_of_lt Nat.and_le_left h)

/-- What an integer shares with a natural number is seen on a word that the latter fits in. -/
theorem sharedBits_natCast {w n : Nat} (a : Int) (h : n < 2 ^ w) :
    sharedBits a n = (BitVec.ofInt w a &&& BitVec.ofNat w n).toNat := by
  cases a with
  | ofNat m =>
    rw [ofInt_ofNat, ← BitVec.ofNat_and, BitVec.toNat_ofNat,
      Nat.mod_eq_of_lt (Nat.and_lt_two_pow m h)]
    rfl
  | negSucc m =>
    rw [BitVec.ofInt_negSucc_eq_not_ofNat, BitVec.and_comm, ← ofNat_without, BitVec.toNat_ofNat,
      Nat.mod_eq_of_lt (without_lt h)]
    rfl

theorem sharedBits_mask (a : Int) (k : Nat) :
    sharedBits a (2 ^ k - 1 : Nat) = a % 2 ^ k := by
  have hones : BitVec.ofNat k (2 ^ k - 1) = BitVec.allOnes k := by
    rw [← BitVec.toNat_allOnes, BitVec.ofNat_toNat, BitVec.setWidth_eq]
  rw [sharedBits_natCast a (Nat.sub_lt (Nat.two_pow_pos k) Nat.one_pos), hones, BitVec.and_allOnes,
    BitVec.toNat_ofInt]
  have hnonneg := Int.emod_nonneg a (Int.natCast_ne_zero.2 (Nat.two_pow_pos k).ne')
  rw [Int.toNat_of_nonneg hnonneg]
  norm_cast

theorem unsignedWord_eq (a : Int) : unsignedWord a = a % 2 ^ 32 :=
  sharedBits_mask a 32

theorem unsignedWord_eq_toNat (a : Int) : unsignedWord a = (BitVec.ofInt 32 a).toNat := by
  rw [unsignedWord_eq, BitVec.toNat_ofInt]
  omega

theorem places_eq (a : Int) : places a = (a % 32).toNat := by
  have hmask := sharedBits_mask (unsignedWord a) 5
  rw [places, show (31 : Int) = (2 ^ 5 - 1 : Nat) by rfl, hmask, unsignedWord_eq]
  omega

/-- The leading bit decides the sign. -/
theorem sharedBits_leading (x : BitVec 32) :
    sharedBits x.toNat 0x80000000 = 0 ↔ x.msb = false := by
  have hshared : sharedBits x.toNat 0x80000000 = ((x.toNat &&& 2 ^ 31 : Nat) : Int) := rfl
  rw [hshared, Nat.and_two_pow, BitVec.msb_eq_getLsbD_last, BitVec.getLsbD]
  cases x.toNat.testBit 31 <;> simp

theorem signedWord_eq (a : Int) : signedWord a = (BitVec.ofInt 32 a).toInt := by
  rw [signedWord, unsignedWord_eq_toNat, BitVec.toInt_eq_msb_cond]
  simp only [sharedBits_leading]
  cases (BitVec.ofInt 32 a).msb <;> rfl

/-- Whether a signed word can hold the integer. -/
def IsSigned (a : Int) : Prop :=
  -2 ^ 31 ≤ a ∧ a < 2 ^ 31

theorem isSigned_ofNat {n : Nat} : IsSigned (.ofNat n) ↔ n < 2 ^ 31 := by
  rw [IsSigned, Int.ofNat_eq_natCast]
  omega

theorem isSigned_negSucc {n : Nat} : IsSigned (.negSucc n) ↔ n < 2 ^ 31 := by
  rw [IsSigned, Int.negSucc_eq]
  omega

theorem isSigned_toInt (x : BitVec 32) : IsSigned x.toInt :=
  ⟨x.le_toInt, x.toInt_lt⟩

theorem isSigned_signedWord (a : Int) : IsSigned (signedWord a) := by
  rw [signedWord_eq]
  exact isSigned_toInt _

theorem IsSigned.toInt_ofInt {a : Int} (h : IsSigned a) : (BitVec.ofInt 32 a).toInt = a :=
  BitVec.toInt_ofInt_eq_self (by decide) h.1 h.2

section
variable {a b : Int} (ha : IsSigned a) (hb : IsSigned b)
include ha hb

theorem IsSigned.sharedBits : IsSigned (sharedBits a b) := by
  cases a <;> cases b <;> simp only [isSigned_ofNat, isSigned_negSucc, Number.sharedBits] at *
  · exact Nat.and_lt_two_pow _ hb
  · exact without_lt ha
  · exact without_lt hb
  · exact Nat.or_lt_two_pow ha hb

theorem IsSigned.unitedBits : IsSigned (unitedBits a b) := by
  cases a <;> cases b <;> simp only [isSigned_ofNat, isSigned_negSucc, Number.unitedBits] at *
  · exact Nat.or_lt_two_pow ha hb
  · exact without_lt hb
  · exact without_lt ha
  · exact Nat.and_lt_two_pow _ hb

theorem IsSigned.differingBits : IsSigned (differingBits a b) := by
  cases a <;> cases b <;> simp only [isSigned_ofNat, isSigned_negSucc, Number.differingBits] at *
  all_goals exact Nat.xor_lt_two_pow ha hb

end

/-! ## The operators on words -/

section
variable (a b : Int)

theorem ofInt_signedWord : BitVec.ofInt 32 (signedWord a) = BitVec.ofInt 32 a := by
  rw [signedWord_eq, BitVec.ofInt_toInt]

theorem bitAnd_eq : bitAnd a b = (BitVec.ofInt 32 a &&& BitVec.ofInt 32 b).toInt := by
  have hsigned := (isSigned_signedWord a).sharedBits (isSigned_signedWord b)
  rw [bitAnd, ← hsigned.toInt_ofInt, ofInt_sharedBits, ofInt_signedWord, ofInt_signedWord]

theorem bitOr_eq : bitOr a b = (BitVec.ofInt 32 a ||| BitVec.ofInt 32 b).toInt := by
  have hsigned := (isSigned_signedWord a).unitedBits (isSigned_signedWord b)
  rw [bitOr, ← hsigned.toInt_ofInt, ofInt_unitedBits, ofInt_signedWord, ofInt_signedWord]

theorem bitXor_eq : bitXor a b = (BitVec.ofInt 32 a ^^^ BitVec.ofInt 32 b).toInt := by
  have hsigned := (isSigned_signedWord a).differingBits (isSigned_signedWord b)
  rw [bitXor, ← hsigned.toInt_ofInt, ofInt_differingBits, ofInt_signedWord, ofInt_signedWord]

theorem bitNot_eq : bitNot a = (~~~BitVec.ofInt 32 a).toInt := by
  have hsigned : IsSigned (~~~signedWord a) := by
    have hword := isSigned_signedWord a
    generalize signedWord a = word at *
    cases word with
    | ofNat n => exact isSigned_negSucc.2 (isSigned_ofNat.1 hword)
    | negSucc n => exact isSigned_ofNat.2 (isSigned_negSucc.1 hword)
  rw [bitNot, ← hsigned.toInt_ofInt, ofInt_not, ofInt_signedWord]

/-- Only the bits that leave the word tell a shifted word from a shifted integer. -/
theorem shiftLeft_eq : shiftLeft a b = (BitVec.ofInt 32 (a * 2 ^ (b % 32).toNat)).toInt := by
  rw [shiftLeft, signedWord_eq, Int.shiftLeft_eq, unsignedWord_eq_toNat, places_eq]
  rw [BitVec.ofInt_mul, BitVec.ofInt_mul, BitVec.ofInt_natCast, BitVec.ofNat_toNat,
    BitVec.setWidth_eq]

theorem shiftRight_eq : shiftRight a b = a % 2 ^ 32 / 2 ^ (b % 32).toNat := by
  rw [shiftRight, Int.shiftRight_eq_div_pow, unsignedWord_eq, places_eq]
  norm_cast

end

end LineBasic.Number
