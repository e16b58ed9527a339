import LineBasic.Number.Layout
import Mathlib

/-!
# Floats and integers

What a float is says its bits, so facts about floats come from arithmetic on their bits.  Here they
are taken as far as the integers go: one below `2 ^ 53` is a float itself, and a natural number that
is half a unit beyond the largest float has none.

* `ofBits_lt_ofBits`, `isInf_ofBits` — the order of the floats that are not negative is that of
  their bits, and infinity is the last of them.
* `literalText_ofNat` — a number that is a float is written with its own digits.
* `isInf_ofNat` — the numbers without a float near them.
* `truncate_ofInt`, `isWhole_ofInt` — an integer with at most fifty-three bits is a float.
-/

set_option autoImplicit false
namespace LineBasic.Number

open Float.Model Float.Model.UnpackedFloat

/-! ## Floats by their bits -/

theorem toNat_unpackExponent (b : UInt64) :
    (@unpackExponent Format.binary64 b.toBitVec).toNat = b.toNat / 2 ^ 52 % 2 ^ 11 := by
  rw [unpackExponent_def, BitVec.extractLsb'_toNat, Nat.shiftRight_eq_div_pow]
  rfl

theorem toNat_unpackMantissa (b : UInt64) :
    (@unpackMantissa Format.binary64 b.toBitVec).toNat = b.toNat % 2 ^ 52 := by
  rw [unpackMantissa_def, BitVec.extractLsb'_toNat, Nat.shiftRight_zero]
  rfl

theorem unpackSign_eq_zero {b : UInt64} (h : b.toNat ≤ infinityBits) :
    @unpackSign Format.binary64 b.toBitVec = 0#1 := by
  rw [infinityBits] at h
  refine BitVec.eq_of_toNat_eq ?_
  rw [unpackSign_def, BitVec.extractLsb'_toNat, Nat.shiftRight_eq_div_pow]
  change b.toNat / 2 ^ 63 % 2 ^ 1 = 0
  omega

theorem toBits_ofBits {b : UInt64} (h : b.toNat ≤ infinityBits) : (Float.ofBits b).toBits = b := by
  refine UInt64.toBitVec_inj.1 (pack_unpack_of_valid ⟨fun hexponent hmantissa ↦ ?_⟩)
  have hexponent := congrArg BitVec.toNat hexponent
  have hmantissa := mt BitVec.toNat_inj.1 hmantissa
  rw [toNat_unpackExponent] at hexponent
  rw [toNat_unpackMantissa] at hmantissa
  change _ = 2047 at hexponent
  change _ ≠ 0 at hmantissa
  rw [infinityBits] at h
  omega

theorem unpack_toModel {b : UInt64} (h : b.toNat ≤ infinityBits) :
    (Float.ofBits b).toModel.unpack = UnpackedFloat.unpack Format.binary64 b.toBitVec :=
  congrArg (fun c : UInt64 ↦ UnpackedFloat.unpack Format.binary64 c.toBitVec) (toBits_ofBits h)

/-- A positive finite float has an exponent and a mantissa, the latter with its leading bit unless
the float is smaller than all that have one. -/
theorem unpack_finite {b : UInt64} (hpos : b.toNat ≠ 0) (h : b.toNat < infinityBits) :
    ∃ hm, UnpackedFloat.unpack Format.binary64 b.toBitVec = .finite .positive
      (if b.toNat < 2 ^ 52 then b.toNat else 2 ^ 52 + b.toNat % 2 ^ 52)
      (if b.toNat < 2 ^ 52 then -1074 else (b.toNat / 2 ^ 52 : Nat) - 1075) hm := by
  have hexponent := toNat_unpackExponent b
  have hmantissa := toNat_unpackMantissa b
  have hsign := unpackSign_eq_zero (Nat.le_of_lt h)
  rw [infinityBits] at h
  have hfinite : @unpackExponent Format.binary64 b.toBitVec ≠ -1#_ := by
    intro heq
    have := congrArg BitVec.toNat heq
    rw [hexponent] at this
    change _ = 2047 at this
    omega
  by_cases hsmall : b.toNat < 2 ^ 52
  · have hzero : @unpackExponent Format.binary64 b.toBitVec = 0#_ := by
      refine BitVec.eq_of_toNat_eq ?_
      rw [hexponent]
      change _ = 0
      omega
    have hnot : @unpackMantissa Format.binary64 b.toBitVec ≠ 0#_ := by
      intro heq
      have := congrArg BitVec.toNat heq
      rw [hmantissa] at this
      change _ = 0 at this
      omega
    refine ⟨by rw [if_pos hsmall]; omega, ?_⟩
    rw [UnpackedFloat.unpack, if_neg hfinite, if_pos hzero, dif_neg hnot]
    congr 1
    · rw [hsign]
      rfl
    · rw [if_pos hsmall, hmantissa]
      omega
    · rw [if_pos hsmall, hzero]
      rfl
  · have hnot : @unpackExponent Format.binary64 b.toBitVec ≠ 0#_ := by
      intro heq
      have := congrArg BitVec.toNat heq
      rw [hexponent] at this
      change _ = 0 at this
      omega
    refine ⟨by rw [if_neg hsmall]; omega, ?_⟩
    rw [UnpackedFloat.unpack, if_neg hfinite, if_neg hnot]
    congr 1
    · rw [hsign]
      rfl
    · have hadd := Nat.two_pow_add_eq_or_of_lt
        (@unpackMantissa Format.binary64 b.toBitVec).isLt 1
      rw [if_neg hsmall, BitVec.toNat_append, Nat.shiftLeft_eq, Nat.mul_comm, ← hmantissa]
      exact hadd.symm
    · have hbias : (Format.binary64.exponentBias : Int)
          + Format.binary64.mantissaBitsWithoutImplicit = 1075 := rfl
      rw [if_neg hsmall, hexponent, hbias]
      omega

/-- A float that is not negative is zero, finite or infinite, by its bits. -/
theorem unpack_cases {b : UInt64} (h : b.toNat ≤ infinityBits) :
    (b.toNat = 0 ∧ UnpackedFloat.unpack Format.binary64 b.toBitVec = .zero .positive) ∨
    (b.toNat ≠ 0 ∧ b.toNat < infinityBits ∧
      ∃ hm, UnpackedFloat.unpack Format.binary64 b.toBitVec = .finite .positive
        (if b.toNat < 2 ^ 52 then b.toNat else 2 ^ 52 + b.toNat % 2 ^ 52)
        (if b.toNat < 2 ^ 52 then -1074 else (b.toNat / 2 ^ 52 : Nat) - 1075) hm) ∨
    (b.toNat = infinityBits ∧
      UnpackedFloat.unpack Format.binary64 b.toBitVec = .infinity .positive) := by
  by_cases hzero : b.toNat = 0
  · have : b = 0 := UInt64.toNat_inj.1 hzero
    subst this
    exact .inl ⟨hzero, rfl⟩
  rcases Nat.eq_or_lt_of_le h with hinfinity | hfinite
  · have : b = 0x7FF0000000000000 := UInt64.toNat_inj.1 hinfinity
    subst this
    exact .inr (.inr ⟨hinfinity, rfl⟩)
  · exact .inr (.inl ⟨hzero, hfinite, unpack_finite hzero hfinite⟩)

theorem isInf_ofBits {b : UInt64} (h : b.toNat ≤ infinityBits) :
    (Float.ofBits b).isInf = (b.toNat == infinityBits) := by
  rw [Float.isInf, Float.Model.isInf, unpack_toModel h]
  rcases unpack_cases h with ⟨hb, heq⟩ | ⟨-, hb, hm, heq⟩ | ⟨hb, heq⟩
  · rw [heq, hb]
    rfl
  · rw [heq]
    exact (beq_false_of_ne (Nat.ne_of_lt hb)).symm
  · rw [heq, hb]
    rfl

theorem abs_ofBits {b : UInt64} (h : b.toNat ≤ infinityBits) :
    (Float.ofBits b).abs = Float.ofBits b := by
  have habs : (UnpackedFloat.unpack Format.binary64 b.toBitVec).abs =
      UnpackedFloat.unpack Format.binary64 b.toBitVec := by
    rcases unpack_cases h with ⟨-, heq⟩ | ⟨-, -, hm, heq⟩ | ⟨-, heq⟩ <;> rw [heq] <;> rfl
  rw [Float.abs, Float.Model.abs, unpack_toModel h, habs]
  rfl

/-- Positive finite floats are in the order of their bits: by exponent first, then by mantissa. -/
theorem compare_finite (b c : Nat) :
    (compare (if b < 2 ^ 52 then (-1074 : Int) else (b / 2 ^ 52 : Nat) - 1075)
        (if c < 2 ^ 52 then (-1074 : Int) else (c / 2 ^ 52 : Nat) - 1075)).then
      (compare (if b < 2 ^ 52 then b else 2 ^ 52 + b % 2 ^ 52)
        (if c < 2 ^ 52 then c else 2 ^ 52 + c % 2 ^ 52)) = compare b c := by
  rcases Nat.lt_trichotomy b c with hlt | rfl | hgt
  · rw [Nat.compare_eq_lt.2 hlt, Ordering.then_eq_lt, compare_lt_iff_lt, compare_eq_iff_eq,
      Nat.compare_eq_lt]
    split <;> split <;> omega
  · rw [Nat.compare_eq_eq.2 rfl, compare_eq_iff_eq.2 rfl, compare_eq_iff_eq.2 rfl]
    rfl
  · rw [Nat.compare_eq_gt.2 hgt, Ordering.then_eq_gt, compare_gt_iff_gt, compare_eq_iff_eq,
      Nat.compare_eq_gt]
    split <;> split <;> omega

theorem compare_unpack {b c : UInt64} (hb : b.toNat ≤ infinityBits) (hc : c.toNat ≤ infinityBits) :
    (UnpackedFloat.unpack Format.binary64 b.toBitVec).compare
      (UnpackedFloat.unpack Format.binary64 c.toBitVec) = some (compare b.toNat c.toNat) := by
  have hpos : 0 < infinityBits := by decide
  rcases unpack_cases hb with ⟨hb, heq⟩ | ⟨hb, hb', hm, heq⟩ | ⟨hb, heq⟩ <;>
    rcases unpack_cases hc with ⟨hc, heq'⟩ | ⟨hc, hc', hm', heq'⟩ | ⟨hc, heq'⟩ <;>
    rw [heq, heq']
  case inr.inl.inr.inl => exact congrArg some (compare_finite _ _)
  case inl.inl | inr.inr.inr.inr =>
    rw [hb, hc]
    rfl
  case inl.inr.inl | inl.inr.inr | inr.inl.inr.inr =>
    rw [Nat.compare_eq_lt.2 (by omega)]
    rfl
  case inr.inl.inl | inr.inr.inl | inr.inr.inr.inl =>
    rw [Nat.compare_eq_gt.2 (by omega)]
    rfl

theorem ofBits_lt_ofBits {b c : UInt64} (hb : b.toNat ≤ infinityBits)
    (hc : c.toNat ≤ infinityBits) : Float.ofBits b < Float.ofBits c ↔ b.toNat < c.toNat := by
  change (Float.ofBits b).lt (Float.ofBits c) = true ↔ _
  rw [Float.lt, decide_eq_true_iff]
  change (Float.ofBits b).toModel.lt (Float.ofBits c).toModel = true ↔ _
  rw [Float.Model.lt, UnpackedFloat.lt, unpack_toModel hb, unpack_toModel hc, compare_unpack hb hc,
    beq_iff_eq, Option.some_inj, Nat.compare_eq_lt]

/-! ## The float nearest to a natural number -/

theorem twoTo_eq (n : Nat) : twoTo n = 2 ^ n := rfl

theorem roundHalfEven_one (n : Nat) : roundHalfEven n 1 = n := by
  rw [roundHalfEven]
  simp [Nat.mod_one]

theorem roundHalfEven_bounds (num den : Nat) :
    num / den ≤ roundHalfEven num den ∧ roundHalfEven num den ≤ num / den + 1 := by
  simp only [roundHalfEven]
  split
  · omega
  · split <;> omega

/-- Rounding reaches an even number from the half below it on. -/
theorem le_roundHalfEven_iff {num half k : Nat} (hhalf : 0 < half) (hk : k % 2 = 1) :
    k + 1 ≤ roundHalfEven num (2 * half) ↔ half * (2 * k + 1) ≤ num := by
  have hsplit := Nat.div_add_mod num (2 * half)
  have hrest := Nat.mod_lt num (by omega : 0 < 2 * half)
  have hround : roundHalfEven num (2 * half) =
      if 2 * (num % (2 * half)) < 2 * half then num / (2 * half)
      else if 2 * half < 2 * (num % (2 * half)) then num / (2 * half) + 1
      else num / (2 * half) + num / (2 * half) % 2 := rfl
  have hpoint : half * (2 * k + 1) = 2 * half * k + half := by ring
  rw [hround, hpoint]
  clear hround
  generalize num / (2 * half) = quotient at *
  generalize num % (2 * half) = rest at *
  rcases Nat.lt_trichotomy quotient k with hlt | rfl | hgt
  · have := Nat.mul_le_mul_left (2 * half) (Nat.succ_le_of_lt hlt)
    rw [Nat.succ_eq_add_one, Nat.mul_add_one] at this
    split <;> [skip; split] <;> omega
  · split <;> [skip; split] <;> omega
  · have := Nat.mul_le_mul_left (2 * half) (Nat.succ_le_of_lt hgt)
    rw [Nat.succ_eq_add_one, Nat.mul_add_one] at this
    split <;> [skip; split] <;> omega

/-- Whether fifty-three bits before the point are enough, with both sides scaled to integers. -/
theorem fits_iff (n : Nat) {k drop : Nat} :
    n * twoTo (-((k : Int) - drop)).toNat < twoTo 53 * (1 * twoTo ((k : Int) - drop).toNat) ↔
      n * 2 ^ drop < 2 ^ (k + 53) := by
  simp only [twoTo_eq, Nat.one_mul]
  rcases Nat.le_total drop k with h | h
  · have hleft : (-((k : Int) - drop)).toNat = 0 := by omega
    have hright : ((k : Int) - drop).toNat = k - drop := by omega
    have hpow : (2 : Nat) ^ (k + 53) = 2 ^ 53 * 2 ^ (k - drop) * 2 ^ drop := by
      rw [← Nat.pow_add, ← Nat.pow_add]
      congr 1
      omega
    rw [hleft, hright, hpow, Nat.pow_zero, Nat.mul_one, Nat.mul_lt_mul_right (by positivity)]
  · have hleft : (-((k : Int) - drop)).toNat = drop - k := by omega
    have hright : ((k : Int) - drop).toNat = 0 := by omega
    have hpow : (2 : Nat) ^ drop = 2 ^ (drop - k) * 2 ^ k := by
      rw [← Nat.pow_add]
      congr 1
      omega
    rw [hleft, hright, hpow, Nat.pow_zero, Nat.mul_one, ← Nat.mul_assoc, Nat.add_comm k,
      Nat.pow_add, Nat.mul_lt_mul_right (by positivity)]

/-- A natural number is scaled so that fifty-three of its bits stand before the point. -/
theorem scaleFor_one {n : Nat} (hn : n ≠ 0) : scaleFor n 1 = (n.log2 : Int) - 52 := by
  have hlow : 2 ^ n.log2 ≤ n := Nat.log2_self_le hn
  have hhigh : n < 2 ^ (n.log2 + 1) := Nat.lt_log2_self
  have hguess : (n.log2 : Int) - (Nat.log2 1 : Nat) - 53 = (n.log2 : Int) - (53 : Nat) := by
    have : Nat.log2 1 = 0 := by decide
    omega
  have hnext : (n.log2 : Int) - (53 : Nat) + 1 = (n.log2 : Int) - (52 : Nat) := by omega
  -- the guess leaves one bit too many, and the next exponent fits
  have hnot : ¬ n * 2 ^ 53 < 2 ^ (n.log2 + 53) := by
    rw [Nat.pow_add, Nat.not_lt]
    exact Nat.mul_le_mul_right _ hlow
  have hfits : n * 2 ^ 52 < 2 ^ (n.log2 + 53) := by
    rw [show n.log2 + 53 = n.log2 + 1 + 52 by omega, Nat.pow_add]
    exact Nat.mul_lt_mul_of_pos_right hhigh (by positivity)
  simp only [scaleFor, hguess, hnext, fits_iff, decide_eq_true_eq, if_neg hnot, if_pos hfits,
    minExponent]
  omega

/-- The mantissa of the float nearest to a natural number. -/
def mantissaOf (n : Nat) : Nat :=
  roundHalfEven (n * 2 ^ (52 - n.log2)) (2 ^ (n.log2 - 52))

/-- The bits of the float nearest to a positive number, if floats had no largest exponent. -/
def bitsOf (n : Nat) : Nat :=
  (n.log2 + 1022) * 2 ^ 52 + mantissaOf n

theorem ofNat_eq_ofBits {n : Nat} (hn : n ≠ 0) :
    ofNat n = Float.ofBits (UInt64.ofNat (min (bitsOf n) infinityBits)) := by
  have hleft : (-((n.log2 : Int) - 52)).toNat = 52 - n.log2 := by omega
  have hright : ((n.log2 : Int) - 52).toNat = n.log2 - 52 := by omega
  have hexponent : ((n.log2 : Int) - 52 - minExponent).toNat = n.log2 + 1022 := by
    rw [minExponent]
    omega
  simp only [ofNat, nearest, if_neg hn, scaleFor_one hn, twoTo_eq, hleft, hright, hexponent,
    Nat.one_mul, bitsOf, mantissaOf]

theorem toNat_ofNat_min (n : Nat) :
    (UInt64.ofNat (min n infinityBits)).toNat = min n infinityBits := by
  have : min n infinityBits ≤ infinityBits := Nat.min_le_right _ _
  rw [UInt64.toNat_ofNat']
  rw [infinityBits] at *
  omega

theorem mantissaOf_bounds {n : Nat} (hn : n ≠ 0) :
    2 ^ 52 ≤ mantissaOf n ∧ mantissaOf n ≤ 2 ^ 53 := by
  have hlow : 2 ^ n.log2 ≤ n := Nat.log2_self_le hn
  have hhigh : n < 2 ^ (n.log2 + 1) := Nat.lt_log2_self
  have hscale : (2 : Nat) ^ 52 * 2 ^ (n.log2 - 52) = 2 ^ n.log2 * 2 ^ (52 - n.log2) := by
    rw [← Nat.pow_add, ← Nat.pow_add]
    congr 1
    omega
  have hden : 0 < 2 ^ (n.log2 - 52) := by positivity
  have hfloor : 2 ^ 52 ≤ n * 2 ^ (52 - n.log2) / 2 ^ (n.log2 - 52) := by
    rw [Nat.le_div_iff_mul_le hden, hscale]
    exact Nat.mul_le_mul_right _ hlow
  have hceiling : n * 2 ^ (52 - n.log2) / 2 ^ (n.log2 - 52) < 2 ^ 53 := by
    rw [Nat.div_lt_iff_lt_mul hden, Nat.pow_succ, Nat.mul_right_comm, hscale, Nat.mul_right_comm,
      ← Nat.pow_succ]
    exact Nat.mul_lt_mul_of_pos_right hhigh (by positivity)
  have hround := roundHalfEven_bounds (n * 2 ^ (52 - n.log2)) (2 ^ (n.log2 - 52))
  exact ⟨Nat.le_trans hfloor hround.1, Nat.le_trans hround.2 hceiling⟩

/-- The point halfway from the largest float to the power of two after it. -/
def floatLimit : Nat := 2 ^ 1024 - 2 ^ 970

/-- The numbers without a float near them are those that reach that point. -/
theorem isInf_ofNat {n : Nat} : (ofNat n).isInf = true ↔ floatLimit ≤ n := by
  by_cases hn : n = 0
  · subst hn
    decide +kernel
  have hbits : (ofNat n).isInf = true ↔ infinityBits ≤ bitsOf n := by
    have hmin := toNat_ofNat_min (bitsOf n)
    rw [ofNat_eq_ofBits hn, isInf_ofBits (by omega), hmin, beq_iff_eq]
    omega
  have hlow : 2 ^ n.log2 ≤ n := Nat.log2_self_le hn
  have hhigh : n < 2 ^ (n.log2 + 1) := Nat.lt_log2_self
  have hmantissa := mantissaOf_bounds hn
  rw [hbits, bitsOf, infinityBits]
  rcases Nat.lt_trichotomy n.log2 1023 with hlt | heq | hgt
  · have hfinite : ¬ 0x7FF0000000000000 ≤ (n.log2 + 1022) * 2 ^ 52 + mantissaOf n := by omega
    have hsmall : n < floatLimit :=
      calc n < 2 ^ (n.log2 + 1) := hhigh
        _ ≤ 2 ^ 1023 := Nat.pow_le_pow_right (by decide) hlt
        _ < floatLimit := by decide +kernel
    exact iff_of_false hfinite (Nat.not_le.2 hsmall)
  · -- the largest exponent: infinite if the mantissa is rounded up to the next power of two
    have hround : mantissaOf n = roundHalfEven n (2 * 2 ^ 970) := by
      rw [mantissaOf, heq, Nat.pow_zero, Nat.mul_one, ← Nat.pow_succ']
    have hpoint : 2 ^ 970 * (2 * (2 ^ 53 - 1) + 1) = floatLimit := by decide +kernel
    rw [heq, ← hpoint, ← le_roundHalfEven_iff (by positivity) (by decide), ← hround]
    omega
  · have hinfinite : 0x7FF0000000000000 ≤ (n.log2 + 1022) * 2 ^ 52 + mantissaOf n := by omega
    have hpow : ∀ k ≤ n.log2, 2 ^ k ≤ n := fun k hk ↦
      Nat.le_trans (Nat.pow_le_pow_right (by decide) hk) hlow
    have hlarge : 2 ^ 1024 ≤ n := hpow _ hgt
    exact iff_of_true hinfinite (Nat.le_trans (Nat.sub_le _ _) hlarge)

/-! ## Natural numbers that are floats -/

theorem log2_lt {n : Nat} (hn : n ≠ 0) (h : n < 2 ^ 53) : n.log2 < 53 :=
  (Nat.log2_lt hn).2 h

theorem mantissaOf_eq {n : Nat} (hn : n ≠ 0) (h : n < 2 ^ 53) :
    mantissaOf n = n * 2 ^ (52 - n.log2) := by
  have hzero : n.log2 - 52 = 0 := by
    have := log2_lt hn h
    omega
  rw [mantissaOf, hzero, Nat.pow_zero, roundHalfEven_one]

/-- The fields of a number that is a float: its leading bit is not among those of the fraction. -/
theorem toBits_ofNat {n : Nat} (hn : n ≠ 0) (h : n < 2 ^ 53) :
    (ofNat n).toBits.toNat = (n.log2 + 1023) * 2 ^ 52 + (n * 2 ^ (52 - n.log2) - 2 ^ 52) ∧
      2 ^ 52 ≤ n * 2 ^ (52 - n.log2) ∧ n * 2 ^ (52 - n.log2) < 2 ^ 53 := by
  have hbounds := mantissaOf_bounds hn
  have hlog := log2_lt hn h
  have hhigh : n * 2 ^ (52 - n.log2) < 2 ^ 53 := by
    have := Nat.mul_lt_mul_of_pos_right (Nat.lt_log2_self (n := n))
      (by positivity : 0 < 2 ^ (52 - n.log2))
    rwa [← Nat.pow_add, show n.log2 + 1 + (52 - n.log2) = 53 by omega] at this
  rw [mantissaOf_eq hn h] at hbounds
  have hmin := toNat_ofNat_min (bitsOf n)
  rw [ofNat_eq_ofBits hn, toBits_ofBits (by omega), hmin, bitsOf, mantissaOf_eq hn h, infinityBits]
  omega

theorem magnitude_ofNat {n : Nat} (hn : n ≠ 0) (h : n < 2 ^ 53) :
    magnitude (ofNat n) = (n * 2 ^ (52 - n.log2), (n.log2 : Int) - 52) := by
  obtain ⟨hbits, hlow, hhigh⟩ := toBits_ofNat hn h
  have hlog := log2_lt hn h
  have hexponent : exponentField (ofNat n) = n.log2 + 1023 := by
    rw [exponentField, hbits, twoTo_eq, twoTo_eq]
    omega
  have hfraction : fractionField (ofNat n) = n * 2 ^ (52 - n.log2) - 2 ^ 52 := by
    rw [fractionField, hbits, twoTo_eq]
    omega
  rw [magnitude, if_neg (by omega), hexponent, hfraction, twoTo_eq, minExponent, Prod.mk.injEq]
  omega

theorem isNegative_ofNat {n : Nat} (hn : n ≠ 0) (h : n < 2 ^ 53) :
    isNegative (ofNat n) = false := by
  obtain ⟨hbits, hlow, hhigh⟩ := toBits_ofNat hn h
  have hlog := log2_lt hn h
  rw [isNegative, hbits, twoTo_eq, beq_eq_false_iff_ne]
  omega

/-- Only the largest exponent is that of infinities and of the value that is no number. -/
theorem isFinite_of_exponentField {x : Float} (h : exponentField x ≠ 2047) :
    x.isNaN = false ∧ x.isInf = false := by
  have hfinite : @unpackExponent Format.binary64 x.toBits.toBitVec ≠ -1#_ := by
    intro heq
    refine h ?_
    rw [exponentField, twoTo_eq, twoTo_eq, ← toNat_unpackExponent, heq]
    rfl
  change (UnpackedFloat.unpack Format.binary64 x.toBits.toBitVec).isNaN = false ∧
    (UnpackedFloat.unpack Format.binary64 x.toBits.toBitVec).isInf = false
  rw [UnpackedFloat.unpack, if_neg hfinite]
  split
  · split <;> exact ⟨rfl, rfl⟩
  · exact ⟨rfl, rfl⟩

/-- A float that is as large as a number is that number or its opposite. -/
theorem truncate_eq {n : Nat} (hn : n ≠ 0) (h : n < 2 ^ 53) {x : Float}
    (hx : exponentField x ≠ 2047)
    (hmagnitude : magnitude x = (n * 2 ^ (52 - n.log2), (n.log2 : Int) - 52)) :
    truncate x = .ok (if isNegative x then -(n : Int) else n) := by
  obtain ⟨hnan, hinf⟩ := isFinite_of_exponentField hx
  have hlog := log2_lt hn h
  have hleft : ((n.log2 : Int) - 52).toNat = 0 := by omega
  have hright : (-((n.log2 : Int) - 52)).toNat = 52 - n.log2 := by omega
  rw [truncate, hnan, hinf, hmagnitude]
  simp only [twoTo_eq, hleft, hright, Nat.pow_zero, Nat.mul_one,
    Nat.mul_div_cancel _ (Nat.two_pow_pos _), Bool.false_eq_true, if_false]

theorem exponentField_ofNat {n : Nat} (hn : n ≠ 0) (h : n < 2 ^ 53) :
    exponentField (ofNat n) ≠ 2047 := by
  obtain ⟨hbits, hlow, hhigh⟩ := toBits_ofNat hn h
  have hlog := log2_lt hn h
  rw [exponentField, hbits, twoTo_eq, twoTo_eq]
  omega

theorem truncate_ofNat {n : Nat} (h : n < 2 ^ 53) : truncate (ofNat n) = .ok n := by
  by_cases hn : n = 0
  · subst hn
    decide +kernel
  rw [truncate_eq hn h (exponentField_ofNat hn h) (magnitude_ofNat hn h), isNegative_ofNat hn h]
  rfl

theorem isWhole_ofNat {n : Nat} (h : n < 2 ^ 53) : isWhole (ofNat n) = true := by
  by_cases hn : n = 0
  · subst hn
    decide +kernel
  have hlog := log2_lt hn h
  have hleft : ((n.log2 : Int) - 52).toNat = 0 := by omega
  simp [isWhole, magnitude_ofNat hn h, twoTo_eq, hleft]

theorem ofNat_lt_wholeLimit {n : Nat} (h : n < 2 ^ 53) : (ofNat n).abs < wholeLimit := by
  by_cases hn : n = 0
  · subst hn
    decide +kernel
  have hlog := log2_lt hn h
  have hmin := toNat_ofNat_min (bitsOf n)
  have hbounds := mantissaOf_bounds hn
  have hlimit : wholeLimit = Float.ofBits 0x444B1AE4D6E2EF50 := by decide +kernel
  have hlimitBits : (0x444B1AE4D6E2EF50 : UInt64).toNat = 0x444B1AE4D6E2EF50 := rfl
  rw [ofNat_eq_ofBits hn, abs_ofBits (by omega), hlimit, ofBits_lt_ofBits (by omega)
    (by rw [hlimitBits]; decide), hmin, hlimitBits, bitsOf, infinityBits]
  omega

/-- A number that is a float is written with its own digits. -/
theorem literalText_ofNat {n : Nat} (h : n < 2 ^ 53) :
    literalText (ofNat n) = .ok (toString n) := by
  have hform : wholeForm? (ofNat n) = some (n : Int) := by
    simp [wholeForm?, truncate_ofNat h, isWhole_ofNat h, ofNat_lt_wholeLimit h]
  rw [literalText, truncate_ofNat h]
  simp only [hform]
  rfl

/-! ## Integers that are floats -/

/-- The fields of a packed float stand one after the other. -/
theorem toNat_packComponents (s : Sign) (e : BitVec Format.binary64.exponentBits)
    (m : BitVec Format.binary64.mantissaBitsWithoutImplicit) :
    (packComponents Format.binary64 s e m).toNat =
      s.toBitVec.toNat * 2 ^ 63 + e.toNat * 2 ^ 52 + m.toNat := by
  have hexponent : e.toNat < 2 ^ 11 := e.isLt
  have hmantissa : m.toNat < 2 ^ 52 := m.isLt
  have happend : (packComponents Format.binary64 s e m).toNat =
      (s.toBitVec.toNat <<< 11 ||| e.toNat) <<< 52 ||| m.toNat := by
    rw [packComponents, BitVec.toNat_append, BitVec.toNat_append]
  rw [happend, ← Nat.shiftLeft_add_eq_or_of_lt hexponent, ← Nat.shiftLeft_add_eq_or_of_lt hmantissa,
    Nat.shiftLeft_eq, Nat.shiftLeft_eq]
  omega

/-- The sign of a finite float is its leading bit, and nothing else of it. -/
theorem toNat_pack_negative (m : Nat) (e : Int) (hm : 0 < m) :
    (UnpackedFloat.pack Format.binary64 (.finite .negative m e hm)).toNat =
      2 ^ 63 + (UnpackedFloat.pack Format.binary64 (.finite .positive m e hm)).toNat := by
  have hnegative : Sign.negative.toBitVec.toNat = 1 := rfl
  have hpositive : Sign.positive.toBitVec.toNat = 0 := rfl
  simp only [UnpackedFloat.pack, packedInfinity]
  split_ifs <;>
    simp only [toNat_packComponents, hnegative, hpositive, Nat.one_mul, Nat.zero_mul,
      Nat.zero_add, Nat.add_assoc]

theorem toBits_neg {b : UInt64} (hpos : b.toNat ≠ 0) (h : b.toNat < infinityBits) :
    (-Float.ofBits b).toBits.toNat = 2 ^ 63 + b.toNat := by
  obtain ⟨hm, heq⟩ := unpack_finite hpos h
  have hpacked : (UnpackedFloat.pack Format.binary64
      (UnpackedFloat.unpack Format.binary64 b.toBitVec)).toNat = b.toNat :=
    congrArg UInt64.toNat (toBits_ofBits (Nat.le_of_lt h))
  change (UnpackedFloat.pack Format.binary64 (Float.ofBits b).toModel.unpack.neg).toNat = _
  rw [unpack_toModel (Nat.le_of_lt h), ← hpacked, heq]
  exact toNat_pack_negative _ _ hm

theorem toBits_neg_ofNat {n : Nat} (hn : n ≠ 0) (h : n < 2 ^ 53) :
    (-ofNat n).toBits.toNat = 2 ^ 63 + (ofNat n).toBits.toNat := by
  obtain ⟨hbits, hlow, hhigh⟩ := toBits_ofNat hn h
  have hlog := log2_lt hn h
  have hmin := toNat_ofNat_min (bitsOf n)
  rw [ofNat_eq_ofBits hn, toBits_ofBits (by omega)] at hbits
  have hfinite : bitsOf n < infinityBits := by
    rw [infinityBits] at *
    omega
  rw [ofNat_eq_ofBits hn, toBits_neg (by omega) (by omega), toBits_ofBits (by omega)]

theorem exponentField_neg_ofNat {n : Nat} (hn : n ≠ 0) (h : n < 2 ^ 53) :
    exponentField (-ofNat n) = exponentField (ofNat n) := by
  rw [exponentField, exponentField, toBits_neg_ofNat hn h, twoTo_eq, twoTo_eq]
  omega

theorem magnitude_neg_ofNat {n : Nat} (hn : n ≠ 0) (h : n < 2 ^ 53) :
    magnitude (-ofNat n) = magnitude (ofNat n) := by
  have hfraction : fractionField (-ofNat n) = fractionField (ofNat n) := by
    rw [fractionField, fractionField, toBits_neg_ofNat hn h, twoTo_eq]
    omega
  rw [magnitude, magnitude, exponentField_neg_ofNat hn h, hfraction]

theorem isNegative_neg_ofNat {n : Nat} (hn : n ≠ 0) (h : n < 2 ^ 53) :
    isNegative (-ofNat n) = true := by
  obtain ⟨hbits, hlow, hhigh⟩ := toBits_ofNat hn h
  have hlog := log2_lt hn h
  rw [isNegative, toBits_neg_ofNat hn h, hbits, twoTo_eq, beq_iff_eq]
  omega

theorem truncate_neg_ofNat {n : Nat} (hn : n ≠ 0) (h : n < 2 ^ 53) :
    truncate (-ofNat n) = .ok (-n) := by
  rw [truncate_eq hn h (exponentField_neg_ofNat hn h ▸ exponentField_ofNat hn h)
    ((magnitude_neg_ofNat hn h).trans (magnitude_ofNat hn h)), isNegative_neg_ofNat hn h]
  rfl

theorem truncate_ofInt {a : Int} (h : a.natAbs < 2 ^ 53) : truncate (ofInt a) = .ok a := by
  cases a with
  | ofNat n => exact truncate_ofNat h
  | negSucc n => exact truncate_neg_ofNat (Nat.succ_ne_zero n) h

theorem isWhole_congr {x y : Float} (h : magnitude x = magnitude y) : isWhole x = isWhole y := by
  rw [isWhole, isWhole, h]

theorem isWhole_ofInt {a : Int} (h : a.natAbs < 2 ^ 53) : isWhole (ofInt a) = true := by
  cases a with
  | ofNat n => exact isWhole_ofNat h
  | negSucc n =>
    exact (isWhole_congr (magnitude_neg_ofNat (Nat.succ_ne_zero n) h)).trans (isWhole_ofNat h)

end LineBasic.Number
