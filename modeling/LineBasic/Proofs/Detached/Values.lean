import LineBasic.Builtin.Arithmetic
import LineBasic.Builtin.Function
import LineBasic.Builtin.Sequence
import LineBasic.Proofs.Detached

/-!
# Detached builtins on values

Builtins that work on values and call no functions are detached, apart from random numbers.
-/

set_option autoImplicit false
namespace LineBasic

namespace Builtin

/-! ## Arguments -/

theorem detached_mistyped {α : Type} (b : Builtin) (v : Value) (wanted : String) :
    Detached (b.mistyped v wanted : Action α) :=
  .bind (Action.detached_typed v) fun _ ↦ .fail _

theorem detached_number (b : Builtin) (v : Value) : Detached (b.number v) := by
  cases v with
  | number x => exact .pure _
  | _ => exact b.detached_mistyped _ _

theorem detached_integer (b : Builtin) (v : Value) : Detached (b.integer v) :=
  .bind (b.detached_number v) fun _ ↦ .ofNumber _

theorem detached_text (b : Builtin) (v : Value) : Detached (b.text v) := by
  cases v with
  | string s => exact .pure _
  | _ => exact b.detached_mistyped _ _

theorem detached_truth (b : Builtin) (v : Value) : Detached (b.truth v) := by
  cases v with
  | boolean x => exact .pure _
  | _ => exact b.detached_mistyped _ _

theorem detached_items (b : Builtin) (v : Value) : Detached (b.items v) := by
  cases v with
  | array place => exact Action.detached_elements place
  | generator g => exact .pure _
  | listMonad elements => exact .pure _
  | _ => exact b.detached_mistyped _ _

theorem detached_function (b : Builtin) (v : Value) : Detached (b.function v) := by
  rw [function]
  cases v.callable? with
  | some f => exact .pure _
  | none => exact .bind (Action.detached_typed v) fun _ ↦ .fail _

/-! ## Operators on numbers -/

theorem detached_numbers (b : Builtin) (v w : Value) : Detached (b.numbers v w) :=
  .bind (b.detached_number v) fun _ ↦ .bind (b.detached_number w) fun _ ↦ .pure _

theorem detached_arithmetic (b : Builtin) (f : Float → Float → Float) (v w : Value) :
    Detached (b.arithmetic f v w) :=
  .bind (b.detached_numbers v w) fun _ ↦ .pure _

theorem detached_plusOf (v w : Value) : Detached (plusOf v w) := by
  unfold plusOf
  split
  · exact .pure _
  · exact .bind (Action.detached_describe _) fun _ ↦
      .bind (Action.detached_describe _) fun _ ↦ .pure _
  · exact .bind (Action.detached_describe _) fun _ ↦
      .bind (Action.detached_describe _) fun _ ↦ .pure _
  · exact .bind (Action.detached_typed _) fun _ ↦ .bind (Action.detached_typed _) fun _ ↦ .fail _

theorem detached_division (b : Builtin) (v w : Value) : Detached (b.division v w) :=
  .bind (b.detached_numbers v w) fun _ ↦ .ite (.fail _) (.pure _)

theorem detached_divideOf (b : Builtin) (v w : Value) : Detached (b.divideOf v w) :=
  .bind (b.detached_division v w) fun _ ↦ .pure _

theorem detached_quotientOf (b : Builtin) (v w : Value) : Detached (b.quotientOf v w) :=
  .bind (b.detached_division v w) fun _ ↦ .bind (.ofNumber _) fun _ ↦ .pure _

theorem detached_moduloOf (b : Builtin) (v w : Value) : Detached (b.moduloOf v w) :=
  .bind (b.detached_division v w) fun _ ↦ .bind (.ofNumber _) fun _ ↦ .pure _

theorem detached_powerOf (b : Builtin) (v w : Value) : Detached (b.powerOf v w) := by
  refine .bind (b.detached_numbers v w) fun p ↦ .ite (.fail _) ?_
  simp only
  split
  · exact .pure _
  · exact .fail _
  · exact .fail _

theorem detached_bitwise (b : Builtin) (f : Int → Int → Int) (v w : Value) :
    Detached (b.bitwise f v w) :=
  .bind (b.detached_integer v) fun _ ↦ .bind (b.detached_integer w) fun _ ↦ .pure _

theorem detached_shift (b : Builtin) (f : Int → Int → Int) (v w : Value) :
    Detached (b.shift f v w) :=
  .bind (b.detached_numbers v w) fun _ ↦ .bind (.ofNumber _) fun _ ↦
    .bind (.ofNumber _) fun _ ↦ .pure _

theorem detached_bitNotOf (b : Builtin) (v : Value) : Detached (b.bitNotOf v) :=
  .bind (b.detached_integer v) fun _ ↦ .pure _

/-! ## Logic, comparison and ranges -/

theorem detached_logical (b : Builtin) (f : Bool → Bool → Bool) (v w : Value) :
    Detached (b.logical f v w) :=
  .bind (b.detached_truth v) fun _ ↦ .bind (b.detached_truth w) fun _ ↦ .pure _

theorem detached_areEqual (v w : Value) : Detached (areEqual v w) :=
  .get (fun _ ↦ rfl) fun _ ↦ .ofStop _

theorem detached_compared (b : Builtin) (onNumbers : Float → Float → Bool)
    (onTexts : String → String → Bool) (v w : Value) :
    Detached (b.compared onNumbers onTexts v w) := by
  unfold compared
  split
  · exact .pure _
  · exact .pure _
  · exact .bind (Action.detached_typed _) fun _ ↦ .bind (Action.detached_typed _) fun _ ↦ .fail _

theorem detached_rangeOf (b : Builtin) (v w : Value) : Detached (b.rangeOf v w) :=
  .bind (b.detached_numbers v w) fun _ ↦ .pure _

theorem detached_stepOf (b : Builtin) (v w : Value) : Detached (b.stepOf v w) := by
  unfold stepOf
  split
  · exact .bind (b.detached_number w) fun _ ↦ .ite (.fail _) (.pure _)
  · exact .bind (Action.detached_typed v) fun _ ↦ .fail _

theorem detached_elementaryOf (b : Builtin) (f : Float → Except Number.Mishap Float) (v : Value) :
    Detached (b.elementaryOf f v) := by
  refine .bind (b.detached_number v) fun x ↦ ?_
  simp only
  split
  · exact .pure _
  · exact .fail _
  · exact .fail _

theorem commutes_randomOf {f : Session → Session} (hlast : ∀ s, (f s).random = s.random)
    (hdraw : Commutes f (modify fun s ↦ { s with random := s.random.next } : Action Unit))
    {b : Builtin} {v : Value} (hnumber : Commutes f (b.number v)) : Commutes f (b.randomOf v) := by
  have hread : Commutes f (do return .number (← get).random.last : Action Value) := by
    intro s
    change EStateM.Result.ok (Value.number (f s).random.last) _ = _
    rw [hlast]
    rfl
  refine hnumber.bind fun x ↦ ?_
  dsimp only
  split
  · exact hdraw.bind fun _ ↦ hread
  · exact hread

/-! ## Texts -/

theorem detached_leftOf (b : Builtin) (v n : Value) : Detached (b.leftOf v n) :=
  .bind (b.detached_text v) fun _ ↦ .bind (b.detached_integer n) fun _ ↦ .pure _

theorem detached_rightOf (b : Builtin) (v n : Value) : Detached (b.rightOf v n) :=
  .bind (b.detached_text v) fun _ ↦ .bind (b.detached_integer n) fun _ ↦ .pure _

theorem detached_midOf (b : Builtin) (v start length : Value) :
    Detached (b.midOf v start length) :=
  .bind (b.detached_text v) fun _ ↦ .bind (b.detached_integer start) fun _ ↦
    .get (fun _ ↦ rfl) fun _ ↦ .bind (.ofStop _) fun _ ↦ .bind (b.detached_integer length) fun _ ↦
      .bind (.ofStop _) fun _ ↦ .pure _

theorem detached_spacesOf (b : Builtin) (n : Value) : Detached (b.spacesOf n) :=
  .bind (b.detached_integer n) fun _ ↦ .ite (.throw _) (.pure _)

theorem detached_chrOf (b : Builtin) (n : Value) : Detached (b.chrOf n) := by
  refine .bind (b.detached_integer n) fun code ↦ ?_
  split
  · exact .pure _
  · exact .fail _
  · exact .throw _

/-! ## Arrays and sequences -/

theorem detached_timesM {α : Type} {act : Action α} (h : Detached act) (count : Nat) :
    Detached (timesM act count) := by
  induction count with
  | zero => exact .pure _
  | succ count ih => exact .bind h fun _ ↦ .bind ih fun _ ↦ .pure _

theorem detached_zeros (count : Nat) (sizes : List Nat) : Detached (zeros count sizes) := by
  induction sizes generalizing count with
  | nil => exact Action.detached_newArray _
  | cons size sizes ih =>
    exact .bind (detached_timesM (ih size) count) fun _ ↦ Action.detached_newArray _

theorem detached_dimOf (b : Builtin) (sizes : List Value) : Detached (b.dimOf sizes) := by
  refine .bind (.mapM b.detached_integer sizes) fun sizes ↦ ?_
  split
  · exact .ite (.fail _) (detached_zeros _ _)
  · exact .fail _

theorem detached_lenOf (b : Builtin) (v : Value) : Detached (b.lenOf v) := by
  unfold lenOf
  split
  · exact .pure _
  · exact .bind (b.detached_items _) fun _ ↦ .pure _

theorem detached_someEnd (b : Builtin) (found : Option Value) : Detached (b.someEnd found) := by
  cases found with
  | some v => exact .pure _
  | none => exact .fail _

theorem detached_endOf (b : Builtin) (find : {α : Type} → List α → Option α) (v : Value) :
    Detached (b.endOf find v) := by
  unfold endOf
  split
  · exact b.detached_someEnd _
  · exact .bind (b.detached_items _) fun _ ↦ b.detached_someEnd _

theorem detached_cutOf (b : Builtin) (cut : {α : Type} → List α → List α) (v : Value) :
    Detached (b.cutOf cut v) := by
  unfold cutOf
  split
  · exact .pure _
  · exact .bind (b.detached_items _) fun _ ↦ Action.detached_newArray _

theorem detached_consOf (v list : Value) : Detached (consOf v list) := by
  unfold consOf
  split
  · exact .pure _
  · exact .bind (Action.detached_elements _) fun _ ↦ Action.detached_newArray _
  · exact .bind (Action.detached_typed _) fun _ ↦ .fail _

theorem detached_snocOf (list v : Value) : Detached (snocOf list v) := by
  unfold snocOf
  split
  · exact .pure _
  · exact .bind (Action.detached_elements _) fun _ ↦ Action.detached_newArray _
  · exact .bind (Action.detached_typed _) fun _ ↦ .fail _

theorem detached_concatOf (v w : Value) : Detached (concatOf v w) := by
  unfold concatOf
  split
  · exact .pure _
  · exact .bind (Action.detached_elements _) fun _ ↦
      .bind (Action.detached_elements _) fun _ ↦ Action.detached_newArray _
  · exact .bind (Action.detached_typed _) fun _ ↦ .bind (Action.detached_typed _) fun _ ↦ .fail _

/-! ## Combining functions -/

theorem detached_composeOf (b : Builtin) (outer inner : Value) :
    Detached (b.composeOf outer inner) :=
  .bind (b.detached_function inner) fun _ ↦ .bind (b.detached_function outer) fun _ ↦ .pure _

theorem detached_curryOf (f v : Value) : Detached (curryOf f v) := by
  unfold curryOf
  split
  · split
    · exact .pure _
    · exact .bind (Action.detached_describe _) fun _ ↦ .fail _
  · exact .bind (Action.detached_typed _) fun _ ↦ .fail _

theorem detached_reduceOf (b : Builtin) (f : Value) : Detached (b.reduceOf f) :=
  .bind (b.detached_function f) fun _ ↦ .pure _

theorem detached_of_unwrap? {v : Value} {held : Action Value} (h : unwrap? v = some held) :
    Detached held := by
  unfold unwrap? at h
  split at h
  · cases h
    exact .pure _
  · cases h
    exact Action.detached_newArray _
  · cases h
    exact Action.detached_newArray _
  · cases h

theorem detached_listMonadOf (b : Builtin) (v : Value) : Detached (b.listMonadOf v) := by
  unfold listMonadOf
  split
  · exact .bind (b.detached_items _) fun _ ↦ .pure _
  · exact .bind (b.detached_items _) fun _ ↦ .pure _
  · exact .pure _

theorem detached_joinOf (v : Value) : Detached (joinOf v) := by
  rw [joinOf]
  cases h : unwrap? v with
  | some held => exact detached_of_unwrap? h
  | none => exact .bind (Action.detached_typed _) fun _ ↦ .fail _

theorem detached_thenOf (v w : Value) : Detached (thenOf v w) := by
  have hrefuse : ∀ v, Detached (thenOf.refuse v) := fun v ↦
    .bind (Action.detached_typed v) fun _ ↦ .fail _
  have hsecond : Detached (do
      if !isMonad w then thenOf.refuse w
      return w : Action Value) :=
    .ite (.bind (hrefuse w) fun _ ↦ .pure _) (.pure _)
  exact .ite (.bind (hrefuse v) fun _ ↦ hsecond) hsecond

end Builtin
end LineBasic
