import LineBasic.Numeral
import LineBasic.Proofs.Number.Binary
import LineBasic.Proofs.Results

/-!
# The values of numerals

A numeral that is accepted need not have a value.  Here it is said which ones have, and that the
digits of a natural number have that number as their value.

* `Numeral.IsDigitless`, `Numeral.IsTooLarge`, `Numeral.IsTooLong` — what can be wrong with a
  hexadecimal or binary numeral.
* `Numeral.exists_value_iff`, `Numeral.exists_decimalOfBinary?_iff` — nothing else can.
* `Numeral.value_toString` — reading back the digits of a number.
-/

set_option autoImplicit false
namespace LineBasic

namespace Numeral

/-! ## Numerals without a value -/

/-- A numeral in a base, with underscores only for its digits. -/
def IsDigitless (base : Nat) (s : String) : Prop :=
  base? s.toList = some base ∧ ∀ c ∈ s.toList.drop 2, c = '_'

/-- A numeral in a base whose integer is too large for a float. -/
def IsTooLarge (base : Nat) (s : String) : Prop :=
  base? s.toList = some base ∧
    ∃ n, integer? base (s.toList.drop 2) = .ok n ∧ Number.floatLimit ≤ n

/-- A binary numeral whose integer has too many decimal digits to be written in them. -/
def IsTooLong (s : String) : Prop :=
  base? s.toList = some 2 ∧ ∃ n, integer? 2 (s.toList.drop 2) = .ok n ∧ 10 ^ digitLimit ≤ n

theorem exists_integer?_iff (base : Nat) (cs : List Char) :
    (∃ n, integer? base cs = .ok n) ↔ ¬ ∀ c ∈ cs, c = '_' := by
  have hnil : cs.filter (· != '_') = [] ↔ ∀ c ∈ cs, c = '_' := by simp
  rw [integer?]
  split
  · rename_i heq
    simpa using hnil.1 heq
  · rename_i heq
    rw [← hnil]
    exact iff_of_true ⟨_, rfl⟩ heq

/-- A numeral has a value unless it has no digits or is too large. -/
theorem exists_value_iff {s : String} :
    (∃ x, value s = .ok x) ↔ ∀ base, ¬ IsDigitless base s ∧ ¬ IsTooLarge base s := by
  rw [value]
  cases hbase : base? s.toList with
  | none =>
    refine iff_of_true ⟨_, rfl⟩ fun base ↦ ⟨fun h ↦ ?_, fun h ↦ ?_⟩
    · cases hbase.symm.trans h.1
    · cases hbase.symm.trans h.1
  | some base =>
    have hdigits := exists_integer?_iff base (s.toList.drop 2)
    simp only
    cases hn : integer? base (s.toList.drop 2) with
    | error mishap =>
      rw [hn] at hdigits
      have hdigitless : IsDigitless base s := ⟨hbase, by simpa using hdigits⟩
      exact iff_of_false nofun fun h ↦ (h base).1 hdigitless
    | ok n =>
      have hread : ¬ IsDigitless base s := fun h ↦ hdigits.1 ⟨n, hn⟩ h.2
      change (∃ x, (if (Number.ofNat n).isInf then _ else _) = _) ↔ _
      by_cases hlarge : Number.floatLimit ≤ n
      · rw [if_pos (Number.isInf_ofNat.2 hlarge)]
        exact iff_of_false nofun fun h ↦ (h base).2 ⟨hbase, n, hn, hlarge⟩
      · rw [if_neg (mt Number.isInf_ofNat.1 hlarge)]
        refine iff_of_true ⟨_, rfl⟩ fun base' ↦ ⟨fun h ↦ ?_, fun h ↦ ?_⟩
        · obtain rfl := Option.some.inj (hbase.symm.trans h.1)
          exact hread h
        · obtain ⟨hbase', n', hn', hlarge'⟩ := h
          obtain rfl := Option.some.inj (hbase.symm.trans hbase')
          rw [hn, Except.ok.injEq] at hn'
          exact hlarge (hn' ▸ hlarge')

/-- What is no binary numeral is not rewritten; a binary numeral can be rewritten unless it has no
digits or too many. -/
theorem exists_decimalOfBinary?_iff {s : String} :
    (∃ text, decimalOfBinary? s = .ok text) ↔ ¬ IsDigitless 2 s ∧ ¬ IsTooLong s := by
  rw [decimalOfBinary?]
  by_cases hbase : base? s.toList = some 2
  · have hdigits := exists_integer?_iff 2 (s.toList.drop 2)
    rw [if_pos hbase]
    cases hn : integer? 2 (s.toList.drop 2) with
    | error mishap =>
      rw [hn] at hdigits
      have hdigitless : IsDigitless 2 s := ⟨hbase, by simpa using hdigits⟩
      exact iff_of_false nofun fun h ↦ h.1 hdigitless
    | ok n =>
      have hlength : digitLimit < (toString n).length ↔ 10 ^ digitLimit ≤ n := by
        rw [← Nat.not_le, Nat.toString_eq_ofList_toDigits, String.length_ofList,
          Nat.length_toDigits_le_iff (by decide) (by decide), Nat.not_lt]
      have hread : ¬ IsDigitless 2 s := fun h ↦ hdigits.1 ⟨n, hn⟩ h.2
      change (∃ text, (if digitLimit < (toString n).length then _ else _) = _) ↔ _
      by_cases hlong : 10 ^ digitLimit ≤ n
      · rw [if_pos (hlength.2 hlong)]
        exact iff_of_false nofun fun h ↦ h.2 ⟨hbase, n, hn, hlong⟩
      · rw [if_neg (mt hlength.1 hlong)]
        refine iff_of_true ⟨_, rfl⟩ ⟨hread, fun h ↦ ?_⟩
        obtain ⟨-, n', hn', hlong'⟩ := h
        rw [hn, Except.ok.injEq] at hn'
        exact hlong (hn' ▸ hlong')
  · rw [if_neg hbase]
    exact iff_of_true ⟨_, rfl⟩ ⟨fun h ↦ hbase h.1, fun h ↦ hbase h.1⟩

theorem eq_of_base? {cs : List Char} {base : Nat} (h : base? cs = some base) :
    base = 16 ∨ base = 2 := by
  rw [base?.eq_def] at h
  split at h
  · split at h
    · exact .inl (Option.some.inj h).symm
    · split at h
      · exact .inr (Option.some.inj h).symm
      · cases h
  · cases h

/-- What a binary numeral is written as. -/
theorem eq_of_decimalOfBinary? {s : String} {text : Option String}
    (h : decimalOfBinary? s = .ok text) :
    (∃ n : Nat, text = some (toString n)) ∨ text = none ∧ base? s.toList ≠ some 2 := by
  rw [decimalOfBinary?] at h
  simp only at h
  split at h
  · obtain ⟨n, -, h⟩ := bind_eq_ok.1 h
    split at h
    · cases h
    · cases h
      exact .inl ⟨n, rfl⟩
  · cases h
    exact .inr ⟨rfl, ‹_›⟩

/-! ## The digits of a natural number -/

theorem isDigit_of_mem_digits {n : Nat} {c : Char} (h : c ∈ (toString n).toList) :
    c.isDigit = true := by
  rw [Nat.toString_eq_ofList_toDigits, String.toList_ofList] at h
  exact Nat.isDigit_of_mem_toDigits (by decide) (by decide) h

theorem digits_ne_nil (n : Nat) : (toString n).toList ≠ [] := by
  rw [Nat.toString_eq_ofList_toDigits, String.toList_ofList]
  exact Nat.toDigits_ne_nil

theorem ne_of_isDigit {c d : Char} (hc : c.isDigit = true) (hd : d.isDigit = false) : c ≠ d := by
  rintro rfl
  rw [hc] at hd
  cases hd

theorem base?_of_isDigit {cs : List Char} (h : ∀ c ∈ cs, c.isDigit = true) : base? cs = none := by
  rw [base?.eq_def]
  split
  · rename_i c rest
    have hc : c.isDigit = true := h c (by simp)
    have hx := ne_of_isDigit hc (d := 'x') rfl
    have hX := ne_of_isDigit hc (d := 'X') rfl
    have hb := ne_of_isDigit hc (d := 'b') rfl
    have hB := ne_of_isDigit hc (d := 'B') rfl
    simp [hx, hX, hb, hB]
  · rfl

theorem base?_toString (n : Nat) : base? (toString n).toList = none :=
  base?_of_isDigit fun _ ↦ isDigit_of_mem_digits

theorem exists_value_toString (n : Nat) : ∃ x, value (toString n) = .ok x := by
  rw [value, base?_toString]
  exact ⟨_, rfl⟩

theorem isDigitOf_of_isDigit {c : Char} (h : c.isDigit = true) :
    isDigitOf "0123456789" c = true := by
  have hbounds : 48 ≤ c.toNat ∧ c.toNat ≤ 57 := by
    simp only [Char.isDigit, Bool.and_eq_true, decide_eq_true_eq] at h
    exact h
  obtain ⟨hlow, hhigh⟩ := hbounds
  rw [← Char.ofNat_toNat c]
  interval_cases c.toNat <;> decide

theorem isNumeral_of_isDigit {s : String} (hne : s.toList ≠ [])
    (h : ∀ c ∈ s.toList, c.isDigit = true) : isNumeral s = true := by
  have hwhole : isWholePart s.toList = true := by
    cases hcs : s.toList with
    | nil => exact absurd hcs hne
    | cons c cs =>
      rw [hcs] at h
      rw [isWholePart, h c (List.mem_cons_self ..), Bool.true_and, List.all_eq_true]
      exact fun d hd ↦ isDigitOf_of_isDigit (h d (List.mem_cons_of_mem _ hd))
  rw [isNumeral, isDecimal, hwhole]
  rfl

theorem isNumeral_toString (n : Nat) : isNumeral (toString n) = true :=
  isNumeral_of_isDigit (digits_ne_nil n) fun _ ↦ isDigit_of_mem_digits

theorem decimalOfBinary?_of_isDigit {s : String} (h : ∀ c ∈ s.toList, c.isDigit = true) :
    decimalOfBinary? s = .ok none := by
  rw [decimalOfBinary?, base?_of_isDigit h]
  rfl

theorem decimalOfBinary?_toString (n : Nat) : decimalOfBinary? (toString n) = .ok none :=
  decimalOfBinary?_of_isDigit fun _ ↦ isDigit_of_mem_digits

theorem digitRun_of_isDigit {cs : List Char} (h : ∀ c ∈ cs, c.isDigit = true) :
    Number.digitRun false cs = (cs.map (·.toNat - 48), []) := by
  induction cs with
  | nil => rfl
  | cons c cs ih =>
    have hc : c.isDigit = true := h c (List.mem_cons_self ..)
    have hvalue : Text.digitValue? c = some (c.toNat - 48) := by rw [Text.digitValue?, if_pos hc]
    have hunderscore : c ≠ '_' := ne_of_isDigit hc rfl
    have ih := ih fun d hd ↦ h d (List.mem_cons_of_mem _ hd)
    rw [Number.digitRun.eq_def]
    split
    · cases ‹_ = []›
    · exact absurd (List.cons.inj ‹_›).1 hunderscore
    · rename_i heq
      cases heq
      rw [hvalue]
      rfl
    · rename_i heq
      cases heq
      exact absurd (h '_' (by simp)) (by decide)
    · rename_i heq
      cases heq
      rw [hvalue, ih]
      rfl

theorem digitsNumber_digits (n : Nat) :
    Number.digitsNumber ((toString n).toList.map (·.toNat - 48)) = n := by
  have hfold := @Nat.ofDigitChars_ten_toDigits n
  rw [Nat.ofDigitChars_eq_foldl] at hfold
  rw [Number.digitsNumber, List.foldl_map, Nat.toString_eq_ofList_toDigits, String.toList_ofList]
  simp only [Nat.mul_comm] at hfold
  exact hfold

theorem decimalValue_toString (n : Nat) :
    decimalValue (toString n).toList = Number.ofDecimal n 0 := by
  have hdigits := @isDigit_of_mem_digits n
  have hfilter : (toString n).toList.filter (· != '_') = (toString n).toList := by
    refine List.filter_eq_self.2 fun c hc ↦ ?_
    simpa using ne_of_isDigit (hdigits hc) (d := '_') rfl
  have hsuffix : (toString n).toList.reverse.dropWhile (fun c ↦ c == 'f' || c == 'F') =
      (toString n).toList.reverse := by
    cases hcs : (toString n).toList.reverse with
    | nil => rfl
    | cons c cs =>
      have hc := hdigits (List.mem_reverse.1 (hcs ▸ List.mem_cons_self ..))
      have hf := ne_of_isDigit hc (d := 'f') rfl
      have hF := ne_of_isDigit hc (d := 'F') rfl
      exact List.dropWhile_cons_of_neg (by simp [hf, hF])
  have hnonempty : ((toString n).toList.map (·.toNat - 48)).isEmpty = false := by
    simp
  have hdecimal : Number.decimal? false (toString n).toList = some (Number.ofDecimal n 0) := by
    rw [Number.decimal?, digitRun_of_isDigit fun _ ↦ hdigits]
    simp only [hnonempty, Bool.false_and, Bool.false_eq_true, if_false, List.append_nil,
      digitsNumber_digits, Number.exponent?]
    rfl
  simp only [decimalValue, hfilter, hsuffix, List.reverse_reverse, hdecimal]
  rfl

/-- The digits of a natural number are read as the float nearest to it. -/
theorem value_toString {n : Nat} (h : n < 2 ^ 53) : value (toString n) = .ok (Number.ofNat n) := by
  have hlength : (toString n).length ≤ 16 := by
    rw [Nat.toString_eq_ofList_toDigits, String.length_ofList,
      Nat.length_toDigits_le_iff (by decide) (by decide)]
    omega
  have hdecimal : Number.ofDecimal n 0 = Number.ofNat n := by
    simp only [Number.ofDecimal, Int.add_zero]
    by_cases hn : n = 0
    · rw [if_pos (.inl hn), hn]
      rfl
    · rw [if_neg (by omega), if_neg (by omega)]
      have hone : Number.tenTo 0 = 1 := rfl
      simp only [Int.toNat_zero, Int.neg_zero, hone, Nat.mul_one]
      rfl
  rw [value, base?_toString]
  simp only [decimalValue_toString, hdecimal]

end Numeral

end LineBasic
