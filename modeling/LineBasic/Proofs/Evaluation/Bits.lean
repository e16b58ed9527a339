import LineBasic.Proofs.Evaluation.Arguments
import LineBasic.Proofs.Number.Binary
import LineBasic.Proofs.Number.Word32

/-!
# Operators on bits

The operators on bits take the integer parts of their arguments, however large, and compute on words
of thirty-two bits.  All but the right shift give a signed word, in two's complement; the right
shift gives an unsigned one.  Every word is a float, so that no digit of the answer is rounded.

* `Builtin.onWords?` — the answers, on bit vectors.
* `Builtin.invoke_bits` — the operators give them.
* `eval_bits` — the result.
-/

set_option autoImplicit false
namespace LineBasic

namespace Builtin

/-! ## Answers -/

/-- The answer of an operator on bits, from the integer parts of its arguments.  An integer is
reduced to a word, and the answer is read as a signed integer; a shift is by a number of places
modulo thirty-two. -/
def onWords? : Builtin → List Int → Option Int
  | .bitAnd, [a, b] => some (BitVec.ofInt 32 a &&& BitVec.ofInt 32 b).toInt
  | .bitOr, [a, b] => some (BitVec.ofInt 32 a ||| BitVec.ofInt 32 b).toInt
  | .bitXor, [a, b] => some (BitVec.ofInt 32 a ^^^ BitVec.ofInt 32 b).toInt
  | .bitNot, [a] => some (~~~BitVec.ofInt 32 a).toInt
  | .shiftLeft, [a, b] => some (BitVec.ofInt 32 (a * 2 ^ (b % 32).toNat)).toInt
  | .shiftRight, [a, b] => some (a % 2 ^ 32 / 2 ^ (b % 32).toNat)
  | _, _ => none

variable {b : Builtin} {as as' : List Int} {r : Int}

/-- An answer is a signed word, or that of the right shift an unsigned one. -/
theorem bounds_of_onWords? (h : b.onWords? as = some r) :
    (b ≠ .shiftRight → -2 ^ 31 ≤ r ∧ r < 2 ^ 31) ∧ (b = .shiftRight → 0 ≤ r ∧ r < 2 ^ 32) := by
  unfold onWords? at h
  split at h
  case h_6 a n =>
    cases h
    have hword : a % 2 ^ 32 < 2 ^ 32 := Int.emod_lt_of_pos a (by decide)
    have hnonneg : 0 ≤ a % 2 ^ 32 := Int.emod_nonneg a (by decide)
    have hquotient := Int.ediv_le_self (2 ^ (n % 32).toNat) hnonneg
    exact ⟨fun hne ↦ absurd rfl hne,
      fun _ ↦ ⟨Int.ediv_nonneg hnonneg (by positivity), Int.lt_of_le_of_lt hquotient hword⟩⟩
  case h_7 => cases h
  all_goals
    cases h
    exact ⟨fun _ ↦ Number.isSigned_toInt _, nofun⟩

theorem ofInt_eq_of_modEq {a a' : Int} (h : a ≡ a' [ZMOD 2 ^ 32]) :
    BitVec.ofInt 32 a = BitVec.ofInt 32 a' := by
  refine BitVec.eq_of_toNat_eq ?_
  rw [BitVec.toNat_ofInt, BitVec.toNat_ofInt]
  exact congrArg Int.toNat h

theorem emod_eq_of_modEq {a a' : Int} (h : a ≡ a' [ZMOD 2 ^ 32]) : a % 32 = a' % 32 :=
  h.of_dvd (by decide)

/-- Integers that are the same words give the same answer. -/
theorem onWords?_congr (h : b.onWords? as = some r)
    (hcongr : List.Forall₂ (· ≡ · [ZMOD 2 ^ 32]) as as') : b.onWords? as' = some r := by
  unfold onWords? at h
  split at h
  case h_7 => cases h
  case h_4 =>
    obtain ⟨a', _, ha, ⟨⟩, rfl⟩ := List.forall₂_cons_left_iff.1 hcongr
    rw [← h, ofInt_eq_of_modEq ha]
    rfl
  all_goals
    obtain ⟨a', _, ha, htail, rfl⟩ := List.forall₂_cons_left_iff.1 hcongr
    obtain ⟨n', _, hn, ⟨⟩, rfl⟩ := List.forall₂_cons_left_iff.1 htail
    rw [← h, onWords?]
  case h_5 => rw [emod_eq_of_modEq hn, ofInt_eq_of_modEq (ha.mul_right _)]
  case h_6 => rw [emod_eq_of_modEq hn, ha.eq]
  all_goals rw [ofInt_eq_of_modEq ha, ofInt_eq_of_modEq hn]

/-! ## Calls -/

section
variable {enter : Closure → List Value → Action Value} {site : Site} {s : Session} {v w : Value}
  {m n : Int}

theorem bitwise_run (b : Builtin) (f : Int → Int → Int) (hv : v.IsInteger m) (hw : w.IsInteger n)
    (s : Session) : b.bitwise f v w s = .ok (.number (Number.ofInt (f m n))) s :=
  (bind_run_of_ok (b.integer_of_isInteger hv s)).trans
    (bind_run_of_ok (b.integer_of_isInteger hw s))

theorem shift_run (b : Builtin) (f : Int → Int → Int) (hv : v.IsInteger m) (hw : w.IsInteger n)
    (s : Session) : b.shift f v w s = .ok (.number (Number.ofInt (f m n))) s := by
  obtain ⟨x, rfl, hx⟩ := hv
  obtain ⟨y, rfl, hy⟩ := hw
  have hinteger {z : Float} {k : Int} (hz : Number.truncate z = .ok k) :
      Action.ofNumber (Number.truncate z) s = .ok k s := by
    rw [hz]
    rfl
  exact (bind_run_of_ok (hinteger hy)).trans (bind_run_of_ok (hinteger hx))

theorem bitNotOf_run (b : Builtin) (hv : v.IsInteger m) (s : Session) :
    b.bitNotOf v s = .ok (.number (Number.ofInt (Number.bitNot m))) s :=
  bind_run_of_ok (b.integer_of_isInteger hv s)

/-- The operators on bits compute on words. -/
theorem invoke_bits {vs : List Value} (hr : b.onWords? as = some r)
    (hvs : List.Forall₂ Value.IsInteger vs as) :
    b.invoke enter site [] (vs.map .value) s = .ok (.value (.number (Number.ofInt r))) s := by
  unfold onWords? at hr
  split at hr
  case h_7 => cases hr
  case h_4 =>
    obtain ⟨v, _, hv, ⟨⟩, rfl⟩ := List.forall₂_cons_right_iff.1 hvs
    cases hr
    rw [← Number.bitNot_eq]
    exact bind_run_of_ok (bitNotOf_run _ hv s)
  all_goals
    obtain ⟨v, _, hv, htail, rfl⟩ := List.forall₂_cons_right_iff.1 hvs
    obtain ⟨w, _, hw, ⟨⟩, rfl⟩ := List.forall₂_cons_right_iff.1 htail
    cases hr
  · rw [← Number.bitAnd_eq]
    exact bind_run_of_ok (bitwise_run _ _ hv hw s)
  · rw [← Number.bitOr_eq]
    exact bind_run_of_ok (bitwise_run _ _ hv hw s)
  · rw [← Number.bitXor_eq]
    exact bind_run_of_ok (bitwise_run _ _ hv hw s)
  · rw [← Number.shiftLeft_eq]
    exact bind_run_of_ok (shift_run _ _ hv hw s)
  · rw [← Number.shiftRight_eq]
    exact bind_run_of_ok (shift_run _ _ hv hw s)

end

end Builtin

section
variable {enter : Closure → List Value → Action Value} {site : Site} {b : Builtin}
  {args : List Tree} {as : List Int} {r : Int} {t : Tree} {s s' : Session} {vs : List Value}

/-- Arguments with the integer parts that an operator on bits has an answer for. -/
theorem eval_onWords (happlies : t.Applies b args) (hr : b.onWords? as = some r)
    (hargs : Supplies enter site args s vs s') (hvs : List.Forall₂ Value.IsInteger vs as) :
    eval enter site t s = .ok (.value (.number (Number.ofInt r))) s' := by
  have hlength := hvs.length_eq
  have hkind : b.arity = some as.length ∧ b.isRaw = false ∧ b.isDebugOnly = false ∧
      b.isNotForProduction = false := by
    unfold Builtin.onWords? at hr
    split at hr
    case h_7 => cases hr
    all_goals exact ⟨rfl, rfl, rfl, rfl⟩
  obtain ⟨harity, hraw, hdebug, hproduction⟩ := hkind
  rw [eval_of_supplies_arity happlies (Session.checkEnabled_eq_ok.2 ⟨by simp [hdebug],
    by simp [hproduction]⟩) hraw (hlength ▸ harity) hargs]
  exact Builtin.invoke_bits hr hvs

end

/-! ## The result -/

/-- Operators on bits compute in two's complement with thirty-two bits, on the integer parts of
their arguments, whatever trees these are and however large the integers: the answer is that of
the operator on words, as a whole number without rounding.  It is a signed word, or that of the
right shift an unsigned one, and depends on the words of the arguments only. -/
theorem eval_bits (enter : Closure → List Value → Action Value) (site : Site) {b : Builtin}
    {as : List Int} {r : Int} (hr : b.onWords? as = some r) :
    (∃ x, Number.truncate x = .ok r ∧ Number.isWhole x = true ∧
      ∀ t args s vs s' as', t.Applies b args → Supplies enter site args s vs s' →
        List.Forall₂ Value.IsInteger vs as' → List.Forall₂ (· ≡ · [ZMOD 2 ^ 32]) as as' →
        eval enter site t s = .ok (.value (.number x)) s') ∧
    (b ≠ .shiftRight → -2 ^ 31 ≤ r ∧ r < 2 ^ 31) ∧ (b = .shiftRight → 0 ≤ r ∧ r < 2 ^ 32) := by
  have hbounds := Builtin.bounds_of_onWords? hr
  have hsmall : r.natAbs < 2 ^ 53 := by
    by_cases hb : b = .shiftRight
    · have := hbounds.2 hb
      omega
    · have := hbounds.1 hb
      omega
  refine ⟨⟨Number.ofInt r, Number.truncate_ofInt hsmall, Number.isWhole_ofInt hsmall, ?_⟩, hbounds⟩
  intro t args s vs s' as' happlies hargs hvs hcongr
  exact eval_onWords happlies (Builtin.onWords?_congr hr hcongr) hargs hvs

/-- A bit is shifted to the sign, and another one out of the word. -/
theorem eval_bits_shiftLeft : ∃ (s : Session) (x : Float), Number.truncate x = .ok (-2 ^ 31) ∧
    Number.isWhole x = true ∧ -2 ^ 31 ≤ (-2 ^ 31 : Int) ∧
    eval (callWithin ⟨1, 0⟩ 0) ⟨1, 0⟩ (.binary .shiftLeft (.number 4294967299) (.number 63)) s =
      .ok (.value (.number x)) s := by
  let s : Session := .start {} {} .unavailable 0
  have hr : Builtin.shiftLeft.onWords? [3, 63] = some (-2 ^ 31) := by decide
  have hoperator : Builtin.ofOperator? .shiftLeft = some .shiftLeft := by decide +kernel
  have hbase : Number.truncate 4294967299 = .ok 4294967299 := by decide +kernel
  have hplaces : Number.truncate 63 = .ok 63 := by decide +kernel
  obtain ⟨⟨x, htruncate, hwhole, heval⟩, hsigned, -⟩ :=
    eval_bits (callWithin ⟨1, 0⟩ 0) ⟨1, 0⟩ hr
  refine ⟨s, x, htruncate, hwhole, (hsigned nofun).1, heval _ _ _ _ s [4294967299, 63]
    (.binary hoperator) rfl (.cons ⟨_, rfl, hbase⟩ (.cons ⟨_, rfl, hplaces⟩ .nil)) ?_⟩
  exact .cons (by decide) (.cons rfl .nil)

end LineBasic
