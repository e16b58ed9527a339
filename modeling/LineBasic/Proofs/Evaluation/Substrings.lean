import LineBasic.Proofs.Evaluation.Arguments

/-!
# Parts of texts

`LEFT`, `RIGHT` and `MID` cut a part out of a text.  A length or an offset that is negative counts
as zero, and one beyond the end as the end, with one exception: `RIGHT` of more characters than the
text has starts before the text, by so many characters that are too many, and that many characters
count from its end.  So it gives too few characters, unless they are twice as many as there are.

* `IsPart` — parts of texts.
* `countFromRight` — how many characters `RIGHT` gives.
* `eval_substrings` — the result.
-/

set_option autoImplicit false
namespace LineBasic

/-! ## Parts -/

/-- The part of a text of a length that starts at an offset. -/
def IsPart (s : String) (offset length : Nat) (part : String) : Prop :=
  ∃ before after, s = before ++ part ++ after ∧ before.length = offset ∧ part.length = length

theorem isPart_slice (s : String) (offset length : Nat) :
    IsPart s (min offset s.length) (min length (s.length - min offset s.length))
      (Builtin.slice s offset length) := by
  have hlength : s.toList.length = s.length := String.length_toList
  refine ⟨.ofList (s.toList.take offset), .ofList ((s.toList.drop offset).drop length),
    String.toList_injective ?_, ?_, ?_⟩
  · simp only [Builtin.slice, String.toList_append, String.toList_ofList, List.append_assoc,
      List.take_append_drop]
  · rw [String.length_ofList, List.length_take, hlength]
  · rw [Builtin.slice, String.length_ofList, List.length_take, List.length_drop, hlength]
    omega

/-- The end of a text, from an offset on. -/
theorem isPart_drop {s : String} {offset : Nat} (h : offset ≤ s.length) :
    IsPart s offset (s.length - offset) (.ofList (s.toList.drop offset)) := by
  have hpart := isPart_slice s offset s.length
  have hlength : (s.toList.drop offset).length ≤ s.length := by
    rw [List.length_drop, String.length_toList]
    omega
  rwa [Builtin.slice, List.take_of_length_le hlength, Nat.min_eq_left h,
    Nat.min_eq_right (Nat.sub_le ..)] at hpart

theorem IsPart.eq {s part : String} {offset length : Nat} (h : IsPart s offset length part) :
    part = .ofList ((s.toList.drop offset).take length) := by
  obtain ⟨before, after, rfl, rfl, rfl⟩ := h
  refine String.toList_injective ?_
  rw [String.toList_ofList, String.toList_append, String.toList_append, List.append_assoc,
    List.drop_left' String.length_toList, List.take_left' String.length_toList]

/-- Two parts that meet make the text if nothing is before the one and behind the other. -/
theorem IsPart.append_eq {s first second : String} {k : Nat} (h : IsPart s 0 k first)
    (h' : IsPart s k (s.length - k) second) : first ++ second = s := by
  have hlength : (s.toList.drop k).length = s.length - k := by
    rw [List.length_drop, String.length_toList]
  refine String.toList_injective ?_
  rw [h.eq, h'.eq, String.toList_append, String.toList_ofList, String.toList_ofList,
    List.drop_zero, List.take_of_length_le (Nat.le_of_eq hlength), List.take_append_drop]

/-! ## The end of a text -/

/-- How many characters `RIGHT` gives if it is asked for `n`, of a text of a length. -/
def countFromRight (length : Nat) (n : Int) : Nat :=
  if n ≤ length then n.toNat else min (n.toNat - length) length

theorem countFromRight_le (length : Nat) (n : Int) : countFromRight length n ≤ length := by
  unfold countFromRight
  split <;> omega

theorem countFromRight_eq_iff (length : Nat) (n : Int) :
    countFromRight length n = min n.toNat length ↔ n ≤ length ∨ 2 * length ≤ n := by
  unfold countFromRight
  split <;> omega

/-- The characters from an offset on that may be before the text. -/
theorem isPart_right (s : String) (n : Int) :
    IsPart s (s.length - countFromRight s.length n) (countFromRight s.length n)
      (if n.toNat = 0 then "" else Builtin.restFrom s (s.length - n.toNat)) := by
  have hpart (offset : Nat) (h : offset = s.length - countFromRight s.length n) :
      IsPart s (s.length - countFromRight s.length n) (countFromRight s.length n)
        (.ofList (s.toList.drop offset)) := by
    subst h
    have hdrop := isPart_drop (Nat.sub_le s.length (countFromRight s.length n))
    rwa [Nat.sub_sub_self (countFromRight_le s.length n)] at hdrop
  split
  · have hdrop := hpart s.length (by unfold countFromRight; split <;> omega)
    rwa [List.drop_of_length_le (Nat.le_of_eq String.length_toList)] at hdrop
  · refine hpart _ ?_
    unfold countFromRight
    split <;> split <;> omega

/-! ## Calls -/

section
variable {enter : Closure → List Value → Action Value} {site : Site} {s s' : Session}
  {t l r : Tree} {args args' : List Tree} {text : String} {x y : Float} {n m base : Int}

theorem eval_left (happlies : t.Applies .left args)
    (hargs : Supplies enter site args s [.string text, .number x] s')
    (hx : Number.truncate x = .ok n) :
    eval enter site t s = .ok (.value (.string (Builtin.slice text 0 n.toNat))) s' := by
  rw [eval_of_supplies_arity happlies (checkEnabled_eq_ok rfl rfl) rfl rfl hargs]
  have hleft : Builtin.left.leftOf (.string text) (.number x) s' =
      .ok (.string (Builtin.slice text 0 n.toNat)) s' :=
    bind_run_of_ok (Builtin.left.integer_of_isInteger ⟨x, rfl, hx⟩ s')
  exact bind_run_of_ok hleft

theorem eval_right (happlies : t.Applies .right args)
    (hargs : Supplies enter site args s [.string text, .number x] s')
    (hx : Number.truncate x = .ok n) :
    eval enter site t s = .ok (.value (.string
      (if n.toNat = 0 then "" else Builtin.restFrom text (text.length - n.toNat)))) s' := by
  rw [eval_of_supplies_arity happlies (checkEnabled_eq_ok rfl rfl) rfl rfl hargs]
  have hright : Builtin.right.rightOf (.string text) (.number x) s' = .ok (.string
      (if n.toNat = 0 then "" else Builtin.restFrom text (text.length - n.toNat))) s' :=
    bind_run_of_ok (Builtin.right.integer_of_isInteger ⟨x, rfl, hx⟩ s')
  exact bind_run_of_ok hright

theorem eval_mid (happlies : t.Applies .mid args)
    (hargs : Supplies enter site args s [.string text, .number x, .number y] s')
    (hbase : s'.indexBase.whole? = some base) (hx : Number.truncate x = .ok (base + n))
    (hy : Number.truncate y = .ok m) :
    eval enter site t s = .ok (.value (.string (Builtin.slice text n.toNat m.toNat))) s' := by
  rw [eval_of_supplies_arity happlies (checkEnabled_eq_ok rfl rfl) rfl rfl hargs]
  have hsub : Quantity.sub (base + n : Int) s'.indexBase = .ok (.whole n) := by
    rw [Quantity.sub_of_whole? hbase, Int.add_comm, Int.add_sub_cancel]
  have hmid : Builtin.mid.midOf (.string text) (.number x) (.number y) s' =
      .ok (.string (Builtin.slice text n.toNat m.toNat)) s' := by
    refine (bind_run_of_ok (Builtin.mid.integer_of_isInteger ⟨x, rfl, hx⟩ s')).trans ?_
    rw [get_bind_run, hsub]
    exact bind_run_of_ok (Builtin.mid.integer_of_isInteger ⟨y, rfl, hy⟩ s')
  exact bind_run_of_ok hmid

/-- Two texts are put together. -/
theorem eval_plus {first second : String} {s₁ : Session}
    (hl : eval enter site l s = .ok (.value (.string first)) s₁)
    (hr : eval enter site r s₁ = .ok (.value (.string second)) s') :
    eval enter site (.binary .plus l r) s = .ok (.value (.string (first ++ second))) s' :=
  (eval_binary_eq_ok (b := .plus) (by decide +kernel) (checkEnabled_eq_ok rfl rfl)).2
    ⟨_, _, _, _, hl, hr, rfl⟩

end

/-! ## The result -/

/-- Parts of texts are cut where they should be, for every text and all integers: `LEFT` gives the
start and `MID` the middle, each as much of it as there is, and `RIGHT` the end, unless it is asked
for more characters than the text has and for less than twice as many.  The start and the rest put
together are the text. -/
theorem eval_substrings (enter : Closure → List Value → Action Value) (site : Site) (s : Session)
    (text : String) :
    (∀ t args x n s', t.Applies .left args →
      Supplies enter site args s [.string text, .number x] s' → Number.truncate x = .ok n →
      ∃ part, eval enter site t s = .ok (.value (.string part)) s' ∧
        IsPart text 0 (min n.toNat text.length) part) ∧
    (∀ t args x n s', t.Applies .right args →
      Supplies enter site args s [.string text, .number x] s' → Number.truncate x = .ok n →
      ∃ length part, eval enter site t s = .ok (.value (.string part)) s' ∧
        IsPart text (text.length - length) length part ∧
        length = countFromRight text.length n ∧
        (length = min n.toNat text.length ↔ n ≤ text.length ∨ 2 * text.length ≤ n)) ∧
    (∀ t args x y base a b s', t.Applies .mid args →
      Supplies enter site args s [.string text, .number x, .number y] s' →
      s'.indexBase.whole? = some base → Number.truncate x = .ok (base + a) →
      Number.truncate y = .ok b →
      ∃ part, eval enter site t s = .ok (.value (.string part)) s' ∧
        IsPart text (min a.toNat text.length)
          (min b.toNat (text.length - min a.toNat text.length)) part) ∧
    ∀ l r args args' x y (k : Nat) s₁ s', l.Applies .left args → r.Applies .right args' →
      Supplies enter site args s [.string text, .number x] s₁ →
      Supplies enter site args' s₁ [.string text, .number y] s' → k ≤ text.length →
      Number.truncate x = .ok k → Number.truncate y = .ok (text.length - k) →
      eval enter site (.binary .plus l r) s = .ok (.value (.string text)) s' := by
  have hstart (n : Int) : IsPart text 0 (min n.toNat text.length)
      (Builtin.slice text 0 n.toNat) := by
    simpa only [Nat.zero_min, Nat.sub_zero] using isPart_slice text 0 n.toNat
  refine ⟨fun t args x n s' happlies hargs hx ↦ ?_, fun t args x n s' happlies hargs hx ↦ ?_,
    fun t args x y base a b s' happlies hargs hbase hx hy ↦ ?_, ?_⟩
  · exact ⟨_, eval_left happlies hargs hx, hstart n⟩
  · exact ⟨_, _, eval_right happlies hargs hx, isPart_right text n, rfl,
      countFromRight_eq_iff text.length n⟩
  · exact ⟨_, eval_mid happlies hargs hbase hx hy, isPart_slice text a.toNat b.toNat⟩
  · intro l r args args' x y k s₁ s' hl hr hargs hargs' hk hx hy
    have hplus := eval_plus (eval_left hl hargs hx) (eval_right hr hargs' hy)
    have hfirst := hstart k
    have hsecond := isPart_right text (text.length - k)
    have hcount : countFromRight text.length (text.length - k) = text.length - k := by
      unfold countFromRight
      split <;> omega
    have hmin : min (k : Int).toNat text.length = k := by omega
    rw [hmin] at hfirst
    rw [hcount, Nat.sub_sub_self hk] at hsecond
    rwa [hfirst.append_eq hsecond] at hplus

/-- Parts of `"ABC"`, with the index base one. -/
theorem eval_substrings_abc : ∃ s : Session, s.indexBase.whole? = some 1 ∧
    (∃ part, eval (callWithin ⟨1, 0⟩ 0) ⟨1, 0⟩ (.call "LEFT" [.string "ABC", .number 2] []) s =
      .ok (.value (.string part)) s ∧ IsPart "ABC" 0 2 part) ∧
    (∃ length part, eval (callWithin ⟨1, 0⟩ 0) ⟨1, 0⟩ (.call "RIGHT" [.string "ABC", .number 2] [])
      s = .ok (.value (.string part)) s ∧ IsPart "ABC" (3 - length) length part ∧
      length = 2 ∧ (length = 2 ↔ (2 : Int) ≤ 3 ∨ 6 ≤ (2 : Int))) ∧
    (∃ part, eval (callWithin ⟨1, 0⟩ 0) ⟨1, 0⟩
      (.call "MID" [.string "ABC", .number 2, .number 9] []) s = .ok (.value (.string part)) s ∧
      IsPart "ABC" 1 2 part) ∧
    eval (callWithin ⟨1, 0⟩ 0) ⟨1, 0⟩ (.binary .plus (.call "LEFT" [.string "ABC", .number 2] [])
      (.call "RIGHT" [.string "ABC", .number 1] [])) s = .ok (.value (.string "ABC")) s := by
  let s : Session := .start { indexBase := 1 } {} .unavailable 0
  have hleft : Builtin.ofName? "LEFT" = some .left := by decide +kernel
  have hright : Builtin.ofName? "RIGHT" = some .right := by decide +kernel
  have hmid : Builtin.ofName? "MID" = some .mid := by decide +kernel
  obtain ⟨hl, hr, hm, happend⟩ := eval_substrings (callWithin ⟨1, 0⟩ 0) ⟨1, 0⟩ s "ABC"
  refine ⟨s, rfl, hl _ _ 2 2 s (.call hleft) rfl rfl, ?_, ?_, ?_⟩
  · exact hr _ _ 2 2 s (.call hright) rfl rfl
  · exact hm _ _ 2 9 1 1 9 s (.call hmid) rfl rfl rfl rfl
  · exact happend _ _ _ _ 2 1 2 s s (.call hleft) (.call hright) rfl rfl (by decide) rfl rfl

/-- `RIGHT("ABC", 5)` is `"BC"`, for the two characters that are too many. -/
theorem not_forall_eval_right : ¬ ∀ (enter : Closure → List Value → Action Value) (site : Site)
    (s s' : Session) (text : String) (t : Tree) (args : List Tree) (x : Float) (n : Int),
    t.Applies .right args → Supplies enter site args s [.string text, .number x] s' →
    Number.truncate x = .ok n →
    ∃ part, eval enter site t s = .ok (.value (.string part)) s' ∧
      IsPart text (text.length - min n.toNat text.length) (min n.toNat text.length) part := by
  intro hall
  let s : Session := .start {} {} .unavailable 0
  have hright : Builtin.ofName? "RIGHT" = some .right := by decide +kernel
  have hargs : Supplies (callWithin ⟨1, 0⟩ 0) ⟨1, 0⟩ [.string "ABC", .number 5] s
      [.string "ABC", .number 5] s := rfl
  have hfive : Number.truncate 5 = .ok 5 := rfl
  have hcall : (Tree.call "RIGHT" [.string "ABC", .number 5] []).Applies .right _ := .call hright
  obtain ⟨part, heval, -, -, -, -, hlength⟩ := hall _ _ s s "ABC" _ _ 5 5 hcall hargs hfive
  cases (eval_right hcall hargs hfive).symm.trans heval
  exact absurd hlength (by decide +kernel)

end LineBasic
