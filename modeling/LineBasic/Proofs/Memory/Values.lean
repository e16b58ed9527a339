import LineBasic.Builtin.Arithmetic
import LineBasic.Builtin.Function
import LineBasic.Builtin.Sequence
import LineBasic.Proofs.Memory

/-!
# Builtins on values within the memory

Builtins that work on values assign no variables.  Some make arrays, of values that are there; those
that call functions are thrifty if the functions are.
-/

set_option autoImplicit false
namespace LineBasic

variable {n : Nat}

/-! ## Functions -/

/-- A function that refers to places of a heap of the given size only. -/
def Callable.Below (n : Nat) (f : Callable) : Prop :=
  ∀ c ∈ f.functions, (Value.closure c).Below n

/-- A way of entering functions that is thrifty. -/
def EntersThriftily (enter : Closure → List Value → Action Value) : Prop :=
  ∀ {n} c args, (Value.closure c).Below n → AllBelow n args → Thrifty n Value.Below (enter c args)

theorem Callable.Below.mono {m : Nat} {f : Callable} (h : f.Below n) (hmn : n ≤ m) : f.Below m :=
  fun c hc ↦ (h c hc).mono hmn

theorem Value.below_of_callable? {v : Value} (hv : v.Below n) {f : Callable}
    (h : v.callable? = some f) : f.Below n := by
  unfold callable? at h
  split at h
  · cases h
    exact fun c hc ↦ List.mem_singleton.1 hc ▸ hv
  · cases h
    exact below_composed.1 hv
  · cases h

section
variable {enter : Closure → List Value → Action Value} (henter : EntersThriftily enter)

include henter

theorem Callable.thrifty_call {f : Callable} (hf : f.Below n) {args : List Value}
    (hargs : AllBelow n args) : Thrifty n Value.Below (f.call enter args) := by
  cases f with
  | single c => exact henter c args (hf c (List.mem_singleton_self c)) hargs
  | chain cs =>
    exact .foldlM hargs.headD fun m hm v hv c hc ↦ henter c [v] ((hf c hc).mono hm) (.cons hv .nil)

end

namespace Builtin

/-! ## Arguments -/

theorem thrifty_mistyped {α : Type} {Q : Nat → α → Prop} (b : Builtin) (v : Value)
    (wanted : String) : Thrifty n Q (b.mistyped v wanted) :=
  .bind (Action.frugal_typed v) fun _ _ _ ↦ .fail _

theorem frugal_number (b : Builtin) (v : Value) : Frugal n (b.number v) := by
  cases v with
  | number x => exact .any
  | _ => exact b.thrifty_mistyped _ _

theorem frugal_integer (b : Builtin) (v : Value) : Frugal n (b.integer v) :=
  .bind (b.frugal_number v) fun _ _ _ ↦ .ofNumber _

theorem frugal_text (b : Builtin) (v : Value) : Frugal n (b.text v) := by
  cases v with
  | string s => exact .any
  | _ => exact b.thrifty_mistyped _ _

theorem frugal_truth (b : Builtin) (v : Value) : Frugal n (b.truth v) := by
  cases v with
  | boolean x => exact .any
  | _ => exact b.thrifty_mistyped _ _

theorem thrifty_items (b : Builtin) {v : Value} (hv : v.Below n) :
    Thrifty n AllBelow (b.items v) := by
  cases v with
  | array place => exact Action.thrifty_elements place
  | generator g => exact .values (List.forall_mem_map.2 fun x _ ↦ Value.below_number x)
  | listMonad elements => exact .values (Value.below_listMonad.1 hv)
  | _ => exact b.thrifty_mistyped _ _

theorem thrifty_function (b : Builtin) {v : Value} (hv : v.Below n) :
    Thrifty n Callable.Below (b.function v) := by
  rw [function]
  cases h : v.callable? with
  | some f => exact .pure fun _ hm ↦ (Value.below_of_callable? hv h).mono hm
  | none => exact .bind (Action.frugal_typed v) fun _ _ _ ↦ .fail _

/-! ## Operators on numbers -/

theorem frugal_numbers (b : Builtin) (v w : Value) : Frugal n (b.numbers v w) :=
  .bind (b.frugal_number v) fun _ _ _ ↦ .bind (b.frugal_number w) fun _ _ _ ↦ .any

theorem thrifty_arithmetic (b : Builtin) (f : Float → Float → Float) (v w : Value) :
    Thrifty n Value.Below (b.arithmetic f v w) :=
  .bind (b.frugal_numbers v w) fun _ _ _ ↦ .value (Value.below_number _)

theorem thrifty_plusOf (v w : Value) : Thrifty n Value.Below (plusOf v w) := by
  unfold plusOf
  split
  · exact .value (Value.below_number _)
  · exact .bind (Action.frugal_describe _) fun _ _ _ ↦
      .bind (Action.frugal_describe _) fun _ _ _ ↦ .value (Value.below_string _)
  · exact .bind (Action.frugal_describe _) fun _ _ _ ↦
      .bind (Action.frugal_describe _) fun _ _ _ ↦ .value (Value.below_string _)
  · exact .bind (Action.frugal_typed _) fun _ _ _ ↦
      .bind (Action.frugal_typed _) fun _ _ _ ↦ .fail _

theorem frugal_division (b : Builtin) (v w : Value) : Frugal n (b.division v w) :=
  .bind (b.frugal_numbers v w) fun _ _ _ ↦ .ite (fun _ ↦ .fail _) fun _ ↦ .any

theorem thrifty_divideOf (b : Builtin) (v w : Value) : Thrifty n Value.Below (b.divideOf v w) :=
  .bind (b.frugal_division v w) fun _ _ _ ↦ .value (Value.below_number _)

theorem thrifty_quotientOf (b : Builtin) (v w : Value) :
    Thrifty n Value.Below (b.quotientOf v w) :=
  .bind (b.frugal_division v w) fun _ _ _ ↦ .bind (.ofNumber _) fun _ _ _ ↦
    .value (Value.below_number _)

theorem thrifty_moduloOf (b : Builtin) (v w : Value) : Thrifty n Value.Below (b.moduloOf v w) :=
  .bind (b.frugal_division v w) fun _ _ _ ↦ .bind (.ofNumber _) fun _ _ _ ↦
    .value (Value.below_number _)

theorem thrifty_powerOf (b : Builtin) (v w : Value) : Thrifty n Value.Below (b.powerOf v w) := by
  refine .bind (b.frugal_numbers v w) fun _ p _ ↦ .ite (fun _ ↦ .fail _) fun _ ↦ ?_
  simp only
  split
  · exact .value (Value.below_number _)
  · exact .fail _
  · exact .fail _

theorem thrifty_bitwise (b : Builtin) (f : Int → Int → Int) (v w : Value) :
    Thrifty n Value.Below (b.bitwise f v w) :=
  .bind (b.frugal_integer v) fun _ _ _ ↦ .bind (b.frugal_integer w) fun _ _ _ ↦
    .value (Value.below_number _)

theorem thrifty_shift (b : Builtin) (f : Int → Int → Int) (v w : Value) :
    Thrifty n Value.Below (b.shift f v w) :=
  .bind (b.frugal_numbers v w) fun _ _ _ ↦ .bind (.ofNumber _) fun _ _ _ ↦
    .bind (.ofNumber _) fun _ _ _ ↦ .value (Value.below_number _)

theorem thrifty_bitNotOf (b : Builtin) (v : Value) : Thrifty n Value.Below (b.bitNotOf v) :=
  .bind (b.frugal_integer v) fun _ _ _ ↦ .value (Value.below_number _)

/-! ## Logic, comparison and ranges -/

theorem thrifty_logical (b : Builtin) (f : Bool → Bool → Bool) (v w : Value) :
    Thrifty n Value.Below (b.logical f v w) :=
  .bind (b.frugal_truth v) fun _ _ _ ↦ .bind (b.frugal_truth w) fun _ _ _ ↦
    .value (Value.below_boolean _)

theorem frugal_areEqual (v w : Value) : Frugal n (areEqual v w) :=
  .get fun _ _ _ ↦ .anyStop _

theorem thrifty_compared (b : Builtin) (onNumbers : Float → Float → Bool)
    (onTexts : String → String → Bool) (v w : Value) :
    Thrifty n Value.Below (b.compared onNumbers onTexts v w) := by
  unfold compared
  split
  · exact .value (Value.below_boolean _)
  · exact .value (Value.below_boolean _)
  · exact .bind (Action.frugal_typed _) fun _ _ _ ↦
      .bind (Action.frugal_typed _) fun _ _ _ ↦ .fail _

theorem thrifty_rangeOf (b : Builtin) (v w : Value) : Thrifty n Value.Below (b.rangeOf v w) :=
  .bind (b.frugal_numbers v w) fun _ _ _ ↦ .value (Value.below_generator _)

theorem thrifty_stepOf (b : Builtin) (v w : Value) : Thrifty n Value.Below (b.stepOf v w) := by
  unfold stepOf
  split
  · exact .bind (b.frugal_number w) fun _ _ _ ↦
      .ite (fun _ ↦ .fail _) fun _ ↦ .value (Value.below_generator _)
  · exact .bind (Action.frugal_typed _) fun _ _ _ ↦ .fail _

theorem thrifty_elementaryOf (b : Builtin) (f : Float → Except Number.Mishap Float) (v : Value) :
    Thrifty n Value.Below (b.elementaryOf f v) := by
  refine .bind (b.frugal_number v) fun _ x _ ↦ ?_
  simp only
  split
  · exact .value (Value.below_number _)
  · exact .fail _
  · exact .fail _

theorem thrifty_randomOf (b : Builtin) (v : Value) : Thrifty n Value.Below (b.randomOf v) := by
  have hlast : ∀ {n}, Thrifty n Value.Below (do return .number (← get).random.last) :=
    .get fun _ _ _ ↦ .value (Value.below_number _)
  have hnext : ∀ {n}, Frugal n
      (modify fun s : Session ↦ { s with random := s.random.next } : Action Unit) :=
    .modify fun _ _ hs ↦ hs.spends rfl rfl rfl rfl rfl hs.all.loops hs.all.data
  refine .bind (b.frugal_number v) fun _ x _ ↦ .ite (fun _ ↦ .bind hnext fun _ _ _ ↦ hlast)
    fun _ ↦ ?_
  exact hlast

/-! ## Texts -/

theorem thrifty_leftOf (b : Builtin) (v k : Value) : Thrifty n Value.Below (b.leftOf v k) :=
  .bind (b.frugal_text v) fun _ _ _ ↦ .bind (b.frugal_integer k) fun _ _ _ ↦
    .value (Value.below_string _)

theorem thrifty_rightOf (b : Builtin) (v k : Value) : Thrifty n Value.Below (b.rightOf v k) :=
  .bind (b.frugal_text v) fun _ _ _ ↦ .bind (b.frugal_integer k) fun _ _ _ ↦
    .value (Value.below_string _)

theorem thrifty_midOf (b : Builtin) (v start length : Value) :
    Thrifty n Value.Below (b.midOf v start length) :=
  .bind (b.frugal_text v) fun _ _ _ ↦ .bind (b.frugal_integer start) fun _ _ _ ↦
    .get fun _ _ _ ↦ .bind (.anyStop _) fun _ _ _ ↦
    .bind (b.frugal_integer length) fun _ _ _ ↦
    .bind (.anyStop _) fun _ _ _ ↦
    .value (Value.below_string _)

theorem thrifty_spacesOf (b : Builtin) (k : Value) : Thrifty n Value.Below (b.spacesOf k) :=
  .bind (b.frugal_integer k) fun _ _ _ ↦
    .ite (fun _ ↦ .throw _) fun _ ↦ .value (Value.below_string _)

theorem thrifty_chrOf (b : Builtin) (k : Value) : Thrifty n Value.Below (b.chrOf k) := by
  refine .bind (b.frugal_integer k) fun _ code _ ↦ ?_
  split
  · exact .value (Value.below_string _)
  · exact .fail _
  · exact .throw _

/-! ## Arrays and sequences -/

theorem thrifty_timesM {act : Action Value} (h : Thrifty n Value.Below act) (count : Nat) :
    Thrifty n AllBelow (timesM act count) := by
  induction count generalizing n with
  | zero => exact .values .nil
  | succ count ih =>
    exact .bind h fun hm _ hv ↦ .bind (ih (h.later hm)) fun hm' _ hvs ↦
      .values (.cons (hv.mono hm') hvs)

theorem thrifty_zeros (count : Nat) (sizes : List Nat) :
    Thrifty n Value.Below (zeros count sizes) := by
  induction sizes generalizing count n with
  | nil =>
    refine Action.thrifty_newArray fun v hv ↦ ?_
    rw [List.eq_of_mem_replicate hv]
    exact Value.below_number _
  | cons size sizes ih =>
    exact .bind (thrifty_timesM (ih size) count) fun _ _ hvs ↦ Action.thrifty_newArray hvs

theorem thrifty_dimOf (b : Builtin) (sizes : List Value) :
    Thrifty n Value.Below (b.dimOf sizes) := by
  refine .bind (.mapM_any fun v _ ↦ b.frugal_integer v) fun _ sizes _ ↦ ?_
  split
  · exact .ite (fun _ ↦ .fail _) fun _ ↦ thrifty_zeros _ _
  · exact .fail _

theorem thrifty_lenOf (b : Builtin) {v : Value} (hv : v.Below n) :
    Thrifty n Value.Below (b.lenOf v) := by
  unfold lenOf
  split
  · exact .value (Value.below_number _)
  · exact .bind (b.thrifty_items hv) fun _ _ _ ↦ .value (Value.below_number _)

theorem thrifty_someEnd (b : Builtin) {found : Option Value} (hfound : ∀ v ∈ found, v.Below n) :
    Thrifty n Value.Below (b.someEnd found) := by
  cases found with
  | some v => exact .value (hfound v rfl)
  | none => exact .fail _

theorem thrifty_endOf (b : Builtin) {find : {α : Type} → List α → Option α}
    (hfind : ∀ {α : Type} {as : List α} {a : α}, find as = some a → a ∈ as) {v : Value}
    (hv : v.Below n) : Thrifty n Value.Below (b.endOf find v) := by
  unfold endOf
  split
  · refine b.thrifty_someEnd fun w hw ↦ ?_
    obtain ⟨c, -, rfl⟩ := Option.map_eq_some_iff.1 hw
    exact Value.below_string _
  · exact .bind (b.thrifty_items hv) fun _ _ hvs ↦
      b.thrifty_someEnd fun w hw ↦ hvs w (hfind hw)

theorem thrifty_cutOf (b : Builtin) {cut : {α : Type} → List α → List α}
    (hcut : ∀ {α : Type} {as : List α} {a : α}, a ∈ cut as → a ∈ as) {v : Value}
    (hv : v.Below n) : Thrifty n Value.Below (b.cutOf cut v) := by
  unfold cutOf
  split
  · exact .value (Value.below_string _)
  · exact .bind (b.thrifty_items hv) fun _ _ hvs ↦
      Action.thrifty_newArray fun w hw ↦ hvs w (hcut hw)

theorem thrifty_consOf {v list : Value} (hv : v.Below n) (hlist : list.Below n) :
    Thrifty n Value.Below (consOf v list) := by
  unfold consOf
  split
  · exact .value (Value.below_listMonad.2 (AllBelow.cons hv (Value.below_listMonad.1 hlist)))
  · exact .bind (Action.thrifty_elements _) fun hm _ hvs ↦
      Action.thrifty_newArray (.cons (hv.mono hm) hvs)
  · exact .bind (Action.frugal_typed _) fun _ _ _ ↦ .fail _

theorem thrifty_snocOf {list v : Value} (hlist : list.Below n) (hv : v.Below n) :
    Thrifty n Value.Below (snocOf list v) := by
  unfold snocOf
  split
  · exact .value (Value.below_listMonad.2
      (AllBelow.append (Value.below_listMonad.1 hlist) (.cons hv .nil)))
  · exact .bind (Action.thrifty_elements _) fun hm _ hvs ↦
      Action.thrifty_newArray (.append hvs (.cons (hv.mono hm) .nil))
  · exact .bind (Action.frugal_typed _) fun _ _ _ ↦ .fail _

theorem thrifty_concatOf {v w : Value} (hv : v.Below n) (hw : w.Below n) :
    Thrifty n Value.Below (concatOf v w) := by
  unfold concatOf
  split
  · exact .value (Value.below_listMonad.2
      (AllBelow.append (Value.below_listMonad.1 hv) (Value.below_listMonad.1 hw)))
  · exact .bind (Action.thrifty_elements _) fun _ _ hvs ↦
      .bind (Action.thrifty_elements _) fun hm _ hws ↦
        Action.thrifty_newArray (.append (hvs.mono hm) hws)
  · exact .bind (Action.frugal_typed _) fun _ _ _ ↦
      .bind (Action.frugal_typed _) fun _ _ _ ↦ .fail _

/-! ## Calling and combining functions -/

theorem thrifty_composeOf (b : Builtin) {outer inner : Value} (houter : outer.Below n)
    (hinner : inner.Below n) : Thrifty n Value.Below (b.composeOf outer inner) :=
  .bind (b.thrifty_function hinner) fun hm _ hfirst ↦
    .bind (b.thrifty_function (houter.mono hm)) fun hm' _ hsecond ↦
      .value (Value.below_composed.2 (List.forall_mem_append.2 ⟨hfirst.mono hm', hsecond⟩))

theorem thrifty_curryOf {f v : Value} (hf : f.Below n) (hv : v.Below n) :
    Thrifty n Value.Below (curryOf f v) := by
  unfold curryOf
  split
  · split
    · exact .value (Closure.below_curry? hf hv ‹_›)
    · exact .bind (Action.frugal_describe _) fun _ _ _ ↦ .fail _
  · exact .bind (Action.frugal_typed _) fun _ _ _ ↦ .fail _

theorem thrifty_reduceOf (b : Builtin) {f : Value} (hf : f.Below n) :
    Thrifty n Value.Below (b.reduceOf f) :=
  .bind (b.thrifty_function hf) fun hm _ _ ↦ .value (hf.mono hm)

theorem thrifty_of_unwrap? {v : Value} (hv : v.Below n) {held : Action Value}
    (h : unwrap? v = some held) : Thrifty n Value.Below held := by
  unfold unwrap? at h
  split at h
  · cases h
    exact .value (Value.below_memoMonad.1 hv)
  · cases h
    exact Action.thrifty_newArray (Value.below_listMonad.1 hv)
  · cases h
    exact Action.thrifty_newArray (List.forall_mem_map.2 (Value.below_composed.1 hv))
  · cases h

theorem thrifty_listMonadOf (b : Builtin) {v : Value} (hv : v.Below n) :
    Thrifty n Value.Below (b.listMonadOf v) := by
  unfold listMonadOf
  split
  · exact .bind (b.thrifty_items hv) fun _ _ hvs ↦ .value (Value.below_listMonad.2 hvs)
  · exact .bind (b.thrifty_items hv) fun _ _ hvs ↦ .value (Value.below_listMonad.2 hvs)
  · exact .value (Value.below_listMonad.2 (AllBelow.cons hv .nil))

theorem thrifty_joinOf {v : Value} (hv : v.Below n) : Thrifty n Value.Below (joinOf v) := by
  rw [joinOf]
  cases h : unwrap? v with
  | some held => exact thrifty_of_unwrap? hv h
  | none => exact .bind (Action.frugal_typed _) fun _ _ _ ↦ .fail _

theorem thrifty_thenOf {v w : Value} (hw : w.Below n) : Thrifty n Value.Below (thenOf v w) := by
  have hrefuse : ∀ {n} v, Frugal n (thenOf.refuse v) := fun v ↦
    .bind (Action.frugal_typed v) fun _ _ _ ↦ .fail _
  have hsecond : ∀ {m}, n ≤ m → Thrifty m Value.Below (do
      if !isMonad w then thenOf.refuse w
      return w) := fun hm ↦
    .ite (fun _ ↦ .bind (hrefuse w) fun hm' _ _ ↦ .value (hw.mono (Nat.le_trans hm hm')))
      fun _ ↦ .value (hw.mono hm)
  exact .ite (fun _ ↦ .bind (hrefuse v) fun hm _ _ ↦ hsecond hm) fun _ ↦ hsecond (Nat.le_refl n)

section
variable {enter : Closure → List Value → Action Value} (henter : EntersThriftily enter)

include henter

theorem thrifty_mapOf (b : Builtin) {f list : Value} (hf : f.Below n) (hlist : list.Below n) :
    Thrifty n Value.Below (b.mapOf enter f list) :=
  .bind (b.thrifty_function hf) fun hm _ hf ↦
    .bind (b.thrifty_items (hlist.mono hm)) fun hm' _ hvs ↦
    .bind (.mapM fun v hv ↦ Callable.thrifty_call henter (hf.mono hm') (.cons (hvs v hv) .nil))
      fun _ _ hws ↦ Action.thrifty_newArray hws

theorem thrifty_foldOf (b : Builtin) {f start list : Value} (hf : f.Below n)
    (hstart : start.Below n) (hlist : list.Below n) :
    Thrifty n Value.Below (b.foldOf enter f start list) :=
  .bind (b.thrifty_function hf) fun hm _ hf ↦
    .bind (b.thrifty_items (hlist.mono hm)) fun hm' _ hvs ↦
    .foldlM (hstart.mono (Nat.le_trans hm hm')) fun _ hk _ hfound v hv ↦
      Callable.thrifty_call henter (hf.mono (Nat.le_trans hm' hk))
        (.cons hfound (.cons ((hvs v hv).mono hk) .nil))

theorem thrifty_filterOf (b : Builtin) {f list : Value} (hf : f.Below n) (hlist : list.Below n) :
    Thrifty n Value.Below (b.filterOf enter f list) :=
  .bind (b.thrifty_function hf) fun hm _ hf ↦
    .bind (b.thrifty_items (hlist.mono hm)) fun hm' _ hvs ↦
    .bind (.filterM hvs fun v hv ↦
      .bind (Callable.thrifty_call henter (hf.mono hm') (.cons (hvs v hv) .nil)) fun _ _ _ ↦ .any)
      fun _ _ hws ↦ Action.thrifty_newArray hws

theorem thrifty_applyOf (b : Builtin) {f v : Value} (hf : f.Below n) (hv : v.Below n) :
    Thrifty n Value.Below (b.applyOf enter f v) :=
  .bind (b.thrifty_function hf) fun hm _ hf ↦
    Callable.thrifty_call henter hf (.cons (hv.mono hm) .nil)

theorem thrifty_bindOf {v f : Value} (hv : v.Below n) (hf : f.Below n) :
    Thrifty n Value.Below (bindOf enter v f) := by
  unfold bindOf
  cases hheld : unwrap? v with
  | none => exact .bind (Action.frugal_typed _) fun _ _ _ ↦ .fail _
  | some held =>
    cases hcallable : f.callable? with
    | none => exact .bind (Action.frugal_typed _) fun _ _ _ ↦ .fail _
    | some g =>
      have hg := Value.below_of_callable? hf hcallable
      refine .bind (thrifty_of_unwrap? hv hheld) fun hm _ hw ↦
        .bind (Callable.thrifty_call henter (hg.mono hm) (.cons hw .nil)) fun _ _ hresult ↦
        .ite (fun _ ↦ .value hresult) fun _ ↦ .bind (Action.frugal_typed _) fun _ _ _ ↦ .fail _

end

end Builtin
end LineBasic
