import LineBasic.Builtin.Arithmetic
import LineBasic.Builtin.Function
import LineBasic.Builtin.Sequence
import LineBasic.Proofs.Safety

/-!
# Builtins on values end well

Builtins that work on values end with a value or a fault, whatever values they are given.  Those
that call functions do so if the functions do.
-/

set_option autoImplicit false
namespace LineBasic

variable {first : Session}

/-- A way of entering functions that ends well. -/
def Entering (first : Session) (enter : Closure → List Value → Action Value) : Prop :=
  ∀ c args, Safe first (enter c args)

theorem Callable.safe_call {enter : Closure → List Value → Action Value}
    (henter : Entering first enter) (f : Callable) (args : List Value) :
    Safe first (f.call enter args) := by
  cases f with
  | single c => exact henter c args
  | chain cs => exact .foldlM (fun v c ↦ henter c [v]) _ cs

namespace Builtin

/-! ## Arguments -/

theorem safe_mistyped {α : Type} (b : Builtin) (v : Value) (wanted : String) :
    Safe first (b.mistyped v wanted : Action α) :=
  .bind (Action.safe_typed v) fun _ ↦ .fail rfl

theorem safe_number (b : Builtin) (v : Value) : Safe first (b.number v) := by
  cases v with
  | number x => exact .pure trivial
  | _ => exact b.safe_mistyped _ _

theorem safe_integer (b : Builtin) (v : Value) : Safe first (b.integer v) :=
  .bind (b.safe_number v) fun _ ↦ .ofNumber _

theorem safe_text (b : Builtin) (v : Value) : Safe first (b.text v) := by
  cases v with
  | string s => exact .pure trivial
  | _ => exact b.safe_mistyped _ _

theorem safe_truth (b : Builtin) (v : Value) : Safe first (b.truth v) := by
  cases v with
  | boolean x => exact .pure trivial
  | _ => exact b.safe_mistyped _ _

theorem safe_items (b : Builtin) (v : Value) : Safe first (b.items v) := by
  cases v with
  | array place => exact Action.safe_elements place
  | generator g => exact .pure trivial
  | listMonad elements => exact .pure trivial
  | _ => exact b.safe_mistyped _ _

theorem safe_function (b : Builtin) (v : Value) : Safe first (b.function v) := by
  rw [function]
  cases v.callable? with
  | some f => exact .pure trivial
  | none => exact .bind (Action.safe_typed v) fun _ ↦ .fail rfl

/-! ## Operators on numbers -/

theorem safe_numbers (b : Builtin) (v w : Value) : Safe first (b.numbers v w) :=
  .bind (b.safe_number v) fun _ ↦ .bind (b.safe_number w) fun _ ↦ .pure trivial

theorem safe_arithmetic (b : Builtin) (f : Float → Float → Float) (v w : Value) :
    Safe first (b.arithmetic f v w) :=
  .bind (b.safe_numbers v w) fun _ ↦ .pure trivial

theorem safe_plusOf (v w : Value) : Safe first (plusOf v w) := by
  unfold plusOf
  split
  · exact .pure trivial
  · exact .bind (Action.safe_describe _) fun _ ↦
      .bind (Action.safe_describe _) fun _ ↦ .pure trivial
  · exact .bind (Action.safe_describe _) fun _ ↦
      .bind (Action.safe_describe _) fun _ ↦ .pure trivial
  · exact .bind (Action.safe_typed _) fun _ ↦ .bind (Action.safe_typed _) fun _ ↦ .fail rfl

theorem safe_division (b : Builtin) (v w : Value) : Safe first (b.division v w) :=
  .bind (b.safe_numbers v w) fun _ ↦ .ite (fun _ ↦ .fail rfl) fun _ ↦ .pure trivial

theorem safe_divideOf (b : Builtin) (v w : Value) : Safe first (b.divideOf v w) :=
  .bind (b.safe_division v w) fun _ ↦ .pure trivial

theorem safe_quotientOf (b : Builtin) (v w : Value) : Safe first (b.quotientOf v w) :=
  .bind (b.safe_division v w) fun _ ↦ .bind (.ofNumber _) fun _ ↦ .pure trivial

theorem safe_moduloOf (b : Builtin) (v w : Value) : Safe first (b.moduloOf v w) :=
  .bind (b.safe_division v w) fun _ ↦ .bind (.ofNumber _) fun _ ↦ .pure trivial

theorem safe_powerOf (b : Builtin) (v w : Value) : Safe first (b.powerOf v w) := by
  refine .bind (b.safe_numbers v w) fun p ↦ .ite (fun _ ↦ .fail rfl) fun _ ↦ ?_
  simp only
  split
  · exact .pure trivial
  · exact .fail rfl
  · exact .fail rfl

theorem safe_bitwise (b : Builtin) (f : Int → Int → Int) (v w : Value) :
    Safe first (b.bitwise f v w) :=
  .bind (b.safe_integer v) fun _ ↦ .bind (b.safe_integer w) fun _ ↦ .pure trivial

theorem safe_shift (b : Builtin) (f : Int → Int → Int) (v w : Value) :
    Safe first (b.shift f v w) :=
  .bind (b.safe_numbers v w) fun _ ↦ .bind (.ofNumber _) fun _ ↦
    .bind (.ofNumber _) fun _ ↦ .pure trivial

theorem safe_bitNotOf (b : Builtin) (v : Value) : Safe first (b.bitNotOf v) :=
  .bind (b.safe_integer v) fun _ ↦ .pure trivial

/-! ## Logic, comparison and ranges -/

theorem safe_logical (b : Builtin) (f : Bool → Bool → Bool) (v w : Value) :
    Safe first (b.logical f v w) :=
  .bind (b.safe_truth v) fun _ ↦ .bind (b.safe_truth w) fun _ ↦ .pure trivial

theorem safe_areEqual (v w : Value) : Safe first (areEqual v w) :=
  .get fun s _ ↦ .ofInherent (s.heap.inherent_looselySame v w)

theorem safe_compared (b : Builtin) (onNumbers : Float → Float → Bool)
    (onTexts : String → String → Bool) (v w : Value) :
    Safe first (b.compared onNumbers onTexts v w) := by
  unfold compared
  split
  · exact .pure trivial
  · exact .pure trivial
  · exact .bind (Action.safe_typed _) fun _ ↦ .bind (Action.safe_typed _) fun _ ↦ .fail rfl

theorem safe_rangeOf (b : Builtin) (v w : Value) : Safe first (b.rangeOf v w) :=
  .bind (b.safe_numbers v w) fun _ ↦ .pure trivial

theorem safe_stepOf (b : Builtin) (v w : Value) : Safe first (b.stepOf v w) := by
  unfold stepOf
  split
  · exact .bind (b.safe_number w) fun _ ↦ .ite (fun _ ↦ .fail rfl) fun _ ↦ .pure trivial
  · exact .bind (Action.safe_typed v) fun _ ↦ .fail rfl

theorem safe_elementaryOf (b : Builtin) (f : Float → Except Number.Mishap Float) (v : Value) :
    Safe first (b.elementaryOf f v) := by
  refine .bind (b.safe_number v) fun x ↦ ?_
  simp only
  split
  · exact .pure trivial
  · exact .fail rfl
  · exact .fail rfl

theorem safe_randomOf (b : Builtin) (v : Value) : Safe first (b.randomOf v) := by
  have hlast : Safe first (do return .number (← get).random.last : Action Value) :=
    .get fun _ _ ↦ .pure trivial
  exact .bind (b.safe_number v) fun x ↦
    .ite (fun _ ↦ .bind (.modify fun _ ↦ .random) fun _ ↦ hlast) fun _ ↦ hlast

/-! ## Texts -/

theorem safe_leftOf (b : Builtin) (v n : Value) : Safe first (b.leftOf v n) :=
  .bind (b.safe_text v) fun _ ↦ .bind (b.safe_integer n) fun _ ↦ .pure trivial

theorem safe_rightOf (b : Builtin) (v n : Value) : Safe first (b.rightOf v n) :=
  .bind (b.safe_text v) fun _ ↦ .bind (b.safe_integer n) fun _ ↦ .pure trivial

/-- Where the middle of a text starts is an integer if the index base is one. -/
theorem onlyFails_start {s : Session} (hs : first.Evolves s) {n : Int} {q : Quantity}
    (hq : Quantity.sub n s.indexBase = .ok q) :
    OnlyFails (fun stop ↦ stop = .misfit ∧ first.IsUnfit) q.start := by
  by_cases hbase : s.indexBase.whole? = none
  · have hunfit : first.IsUnfit := hs.isUnfit (.inl hbase)
    unfold Quantity.start
    split
    · exact .ok _
    · exact .ite (.ok _) (.error ⟨rfl, hunfit⟩)
    · exact .error ⟨rfl, hunfit⟩
  · obtain ⟨k, rfl⟩ := Quantity.whole?_of_sub hbase hq
    exact .ok _

theorem safe_midOf (b : Builtin) (v start length : Value) :
    Safe first (b.midOf v start length) :=
  .bind (b.safe_text v) fun _ ↦ .bind (b.safe_integer start) fun _ ↦
    .get fun _ hs ↦ .ofFitting (Action.onlyFails_sub_indexBase hs _) fun _ hq ↦
      .bind (b.safe_integer length) fun _ ↦
        .ofFitting (onlyFails_start hs hq) fun _ _ ↦ .pure trivial

theorem safe_spacesOf (b : Builtin) (n : Value) : Safe first (b.spacesOf n) :=
  .bind (b.safe_integer n) fun _ ↦ .ite (fun _ ↦ .inherent trivial) fun _ ↦ .pure trivial

theorem safe_chrOf (b : Builtin) (n : Value) : Safe first (b.chrOf n) := by
  refine .bind (b.safe_integer n) fun code ↦ ?_
  split
  · exact .pure trivial
  · exact .fail rfl
  · exact .inherent trivial

/-! ## Arrays and sequences -/

theorem safe_timesM {α : Type} {act : Action α} (h : Safe first act) (count : Nat) :
    Safe first (timesM act count) := by
  induction count with
  | zero => exact .pure trivial
  | succ count ih => exact .bind h fun _ ↦ .bind ih fun _ ↦ .pure trivial

theorem safe_zeros (count : Nat) (sizes : List Nat) : Safe first (zeros count sizes) := by
  induction sizes generalizing count with
  | nil => exact Action.safe_newArray _
  | cons size sizes ih =>
    exact .bind (safe_timesM (ih size) count) fun _ ↦ Action.safe_newArray _

theorem safe_dimOf (b : Builtin) (sizes : List Value) : Safe first (b.dimOf sizes) := by
  refine .bind (.mapM b.safe_integer sizes) fun sizes ↦ ?_
  split
  · exact .ite (fun _ ↦ .fail rfl) fun _ ↦ safe_zeros _ _
  · exact .fail rfl

theorem safe_lenOf (b : Builtin) (v : Value) : Safe first (b.lenOf v) := by
  unfold lenOf
  split
  · exact .pure trivial
  · exact .bind (b.safe_items _) fun _ ↦ .pure trivial

theorem safe_someEnd (b : Builtin) (found : Option Value) : Safe first (b.someEnd found) := by
  cases found with
  | some v => exact .pure trivial
  | none => exact .fail rfl

theorem safe_endOf (b : Builtin) (find : {α : Type} → List α → Option α) (v : Value) :
    Safe first (b.endOf find v) := by
  unfold endOf
  split
  · exact b.safe_someEnd _
  · exact .bind (b.safe_items _) fun _ ↦ b.safe_someEnd _

theorem safe_cutOf (b : Builtin) (cut : {α : Type} → List α → List α) (v : Value) :
    Safe first (b.cutOf cut v) := by
  unfold cutOf
  split
  · exact .pure trivial
  · exact .bind (b.safe_items _) fun _ ↦ Action.safe_newArray _

theorem safe_consOf (v list : Value) : Safe first (consOf v list) := by
  unfold consOf
  split
  · exact .pure trivial
  · exact .bind (Action.safe_elements _) fun _ ↦ Action.safe_newArray _
  · exact .bind (Action.safe_typed _) fun _ ↦ .fail rfl

theorem safe_snocOf (list v : Value) : Safe first (snocOf list v) := by
  unfold snocOf
  split
  · exact .pure trivial
  · exact .bind (Action.safe_elements _) fun _ ↦ Action.safe_newArray _
  · exact .bind (Action.safe_typed _) fun _ ↦ .fail rfl

theorem safe_concatOf (v w : Value) : Safe first (concatOf v w) := by
  unfold concatOf
  split
  · exact .pure trivial
  · exact .bind (Action.safe_elements _) fun _ ↦
      .bind (Action.safe_elements _) fun _ ↦ Action.safe_newArray _
  · exact .bind (Action.safe_typed _) fun _ ↦ .bind (Action.safe_typed _) fun _ ↦ .fail rfl

/-! ## Combining functions -/

theorem safe_composeOf (b : Builtin) (outer inner : Value) : Safe first (b.composeOf outer inner) :=
  .bind (b.safe_function inner) fun _ ↦ .bind (b.safe_function outer) fun _ ↦ .pure trivial

theorem safe_curryOf (f v : Value) : Safe first (curryOf f v) := by
  unfold curryOf
  split
  · split
    · exact .pure trivial
    · exact .bind (Action.safe_describe _) fun _ ↦ .fail rfl
  · exact .bind (Action.safe_typed _) fun _ ↦ .fail rfl

theorem safe_reduceOf (b : Builtin) (f : Value) : Safe first (b.reduceOf f) :=
  .bind (b.safe_function f) fun _ ↦ .pure trivial

theorem safe_of_unwrap? {v : Value} {held : Action Value} (h : unwrap? v = some held) :
    Safe first held := by
  unfold unwrap? at h
  split at h
  · cases h
    exact .pure trivial
  · cases h
    exact Action.safe_newArray _
  · cases h
    exact Action.safe_newArray _
  · cases h

theorem safe_listMonadOf (b : Builtin) (v : Value) : Safe first (b.listMonadOf v) := by
  unfold listMonadOf
  split
  · exact .bind (b.safe_items _) fun _ ↦ .pure trivial
  · exact .bind (b.safe_items _) fun _ ↦ .pure trivial
  · exact .pure trivial

theorem safe_joinOf (v : Value) : Safe first (joinOf v) := by
  rw [joinOf]
  cases h : unwrap? v with
  | some held => exact safe_of_unwrap? h
  | none => exact .bind (Action.safe_typed _) fun _ ↦ .fail rfl

theorem safe_thenOf (v w : Value) : Safe first (thenOf v w) := by
  have hrefuse : ∀ v, Safe first (thenOf.refuse v) := fun v ↦
    .bind (Action.safe_typed v) fun _ ↦ .fail rfl
  have hsecond : Safe first (do
      if !isMonad w then thenOf.refuse w
      return w : Action Value) :=
    .ite (fun _ ↦ .bind (hrefuse w) fun _ ↦ .pure trivial) fun _ ↦ .pure trivial
  exact .ite (fun _ ↦ .bind (hrefuse v) fun _ ↦ hsecond) fun _ ↦ hsecond

/-! ## Calling functions -/

section
variable {enter : Closure → List Value → Action Value} (henter : Entering first enter)

include henter

theorem safe_mapOf (b : Builtin) (f list : Value) : Safe first (b.mapOf enter f list) :=
  .bind (b.safe_function f) fun f ↦ .bind (b.safe_items list) fun items ↦
    .bind (.mapM (fun v ↦ f.safe_call henter [v]) items) fun _ ↦ Action.safe_newArray _

theorem safe_foldOf (b : Builtin) (f start list : Value) :
    Safe first (b.foldOf enter f start list) :=
  .bind (b.safe_function f) fun f ↦ .bind (b.safe_items list) fun items ↦
    .foldlM (fun found v ↦ f.safe_call henter [found, v]) start items

theorem safe_filterOf (b : Builtin) (f list : Value) : Safe first (b.filterOf enter f list) :=
  .bind (b.safe_function f) fun f ↦ .bind (b.safe_items list) fun items ↦
    .bind (.filterM (fun v ↦ .bind (f.safe_call henter [v]) fun _ ↦ .pure trivial) items) fun _ ↦
      Action.safe_newArray _

theorem safe_applyOf (b : Builtin) (f v : Value) : Safe first (b.applyOf enter f v) :=
  .bind (b.safe_function f) fun f ↦ f.safe_call henter [v]

theorem safe_bindOf (v f : Value) : Safe first (bindOf enter v f) := by
  unfold bindOf
  cases hheld : unwrap? v with
  | none => exact .bind (Action.safe_typed _) fun _ ↦ .fail rfl
  | some held =>
    cases f.callable? with
    | none => exact .bind (Action.safe_typed _) fun _ ↦ .fail rfl
    | some g =>
      exact .bind (safe_of_unwrap? hheld) fun w ↦ .bind (g.safe_call henter [w]) fun result ↦
        .ite (fun _ ↦ .pure trivial) fun _ ↦ .bind (Action.safe_typed _) fun _ ↦ .fail rfl

end

end Builtin
end LineBasic
