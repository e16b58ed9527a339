import LineBasic.Builtin.Arithmetic
import LineBasic.Builtin.Function
import LineBasic.Builtin.Sequence
import LineBasic.Proofs.Lockstep.Session

/-!
# Builtins on values in lockstep

Builtins that work on values do the same whatever frames are in force, and give good values for good
values.  Those that call functions do so if the functions do.
-/

set_option autoImplicit false
namespace LineBasic

variable {W : World} {F F' : List Frame}

/-! ## Functions -/

/-- A function that may be called. -/
def Callable.IsGood (W : World) (f : Callable) : Prop :=
  ∀ c ∈ f.functions, W.good (.closure c)

/-- Two ways of entering functions that do the same. -/
def Enters (W : World) (F F' : List Frame) (enter enter' : Closure → List Value → Action Value) :
    Prop :=
  ∀ c args, W.good (.closure c) → (∀ v ∈ args, W.good v) →
    Lockstep W F F' W.good (enter c args) (enter' c args)

theorem Value.isGood_of_callable? {v : Value} (hv : W.good v) {f : Callable}
    (h : v.callable? = some f) : f.IsGood W := by
  unfold callable? at h
  split at h
  · cases h
    exact fun c hc ↦ List.mem_singleton.1 hc ▸ hv
  · cases h
    exact W.composed.1 hv
  · cases h

section
variable {enter enter' : Closure → List Value → Action Value} (henter : Enters W F F' enter enter')

include henter

theorem Callable.lockstep_call {f : Callable} (hf : f.IsGood W) {args : List Value}
    (hargs : ∀ v ∈ args, W.good v) :
    Lockstep W F F' W.good (f.call enter args) (f.call enter' args) := by
  cases f with
  | single c => exact henter c args (hf c (List.mem_singleton_self c)) hargs
  | chain cs =>
    have hstart : W.good (args.headD .null) := by
      cases args with
      | nil => exact W.null
      | cons v vs => exact hargs v (List.mem_cons_self ..)
    exact .foldlM hstart fun v hv c hc ↦ henter c [v] (hf c hc) (by simpa using hv)

end

namespace Builtin

/-! ## Arguments -/

theorem steady_mistyped {α : Type} {P : α → Prop} (b : Builtin) (v : Value) (wanted : String) :
    Steady W F F' P (b.mistyped v wanted) :=
  .bind (Action.steady_typed v) fun _ _ ↦ .fail trivial

theorem steady_number (b : Builtin) (v : Value) : Steady W F F' (fun _ ↦ True) (b.number v) := by
  cases v with
  | number x => exact .pure trivial
  | _ => exact b.steady_mistyped _ _

theorem steady_integer (b : Builtin) (v : Value) : Steady W F F' (fun _ ↦ True) (b.integer v) :=
  .bind (b.steady_number v) fun _ _ ↦ .ofNumber fun _ _ ↦ trivial

theorem steady_text (b : Builtin) (v : Value) : Steady W F F' (fun _ ↦ True) (b.text v) := by
  cases v with
  | string s => exact .pure trivial
  | _ => exact b.steady_mistyped _ _

theorem steady_truth (b : Builtin) (v : Value) : Steady W F F' (fun _ ↦ True) (b.truth v) := by
  cases v with
  | boolean x => exact .pure trivial
  | _ => exact b.steady_mistyped _ _

theorem steady_items (b : Builtin) {v : Value} (hv : W.good v) :
    Steady W F F' (fun vs ↦ ∀ w ∈ vs, W.good w) (b.items v) := by
  cases v with
  | array place => exact Action.steady_elements place
  | generator g => exact .pure (List.forall_mem_map.2 fun x _ ↦ W.number x)
  | listMonad elements => exact .pure (W.listMonad.1 hv)
  | _ => exact b.steady_mistyped _ _

theorem steady_function (b : Builtin) {v : Value} (hv : W.good v) :
    Steady W F F' (Callable.IsGood W) (b.function v) := by
  rw [function]
  cases h : v.callable? with
  | some f => exact .pure (Value.isGood_of_callable? hv h)
  | none => exact .bind (Action.steady_typed v) fun _ _ ↦ .fail trivial

/-! ## Operators on numbers -/

theorem steady_numbers (b : Builtin) (v w : Value) :
    Steady W F F' (fun _ ↦ True) (b.numbers v w) :=
  .bind (b.steady_number v) fun _ _ ↦ .bind (b.steady_number w) fun _ _ ↦ .pure trivial

theorem steady_arithmetic (b : Builtin) (f : Float → Float → Float) (v w : Value) :
    Steady W F F' W.good (b.arithmetic f v w) :=
  .bind (b.steady_numbers v w) fun _ _ ↦ .pure (W.number _)

theorem steady_plusOf (v w : Value) : Steady W F F' W.good (plusOf v w) := by
  unfold plusOf
  split
  · exact .pure (W.number _)
  · exact .bind (Action.steady_describe _) fun _ _ ↦
      .bind (Action.steady_describe _) fun _ _ ↦ .pure (W.string _)
  · exact .bind (Action.steady_describe _) fun _ _ ↦
      .bind (Action.steady_describe _) fun _ _ ↦ .pure (W.string _)
  · exact .bind (Action.steady_typed _) fun _ _ ↦
      .bind (Action.steady_typed _) fun _ _ ↦ .fail trivial

theorem steady_division (b : Builtin) (v w : Value) :
    Steady W F F' (fun _ ↦ True) (b.division v w) :=
  .bind (b.steady_numbers v w) fun _ _ ↦ .ite (fun _ ↦ .fail trivial) fun _ ↦ .pure trivial

theorem steady_divideOf (b : Builtin) (v w : Value) : Steady W F F' W.good (b.divideOf v w) :=
  .bind (b.steady_division v w) fun _ _ ↦ .pure (W.number _)

theorem steady_quotientOf (b : Builtin) (v w : Value) : Steady W F F' W.good (b.quotientOf v w) :=
  .bind (b.steady_division v w) fun _ _ ↦ .bind (.ofNumber fun _ _ ↦ trivial) fun _ _ ↦
    .pure (W.number _)

theorem steady_moduloOf (b : Builtin) (v w : Value) : Steady W F F' W.good (b.moduloOf v w) :=
  .bind (b.steady_division v w) fun _ _ ↦ .bind (.ofNumber fun _ _ ↦ trivial) fun _ _ ↦
    .pure (W.number _)

theorem steady_powerOf (b : Builtin) (v w : Value) : Steady W F F' W.good (b.powerOf v w) := by
  refine .bind (b.steady_numbers v w) fun p _ ↦ .ite (fun _ ↦ .fail trivial) fun _ ↦ ?_
  simp only
  split
  · exact .pure (W.number _)
  · exact .fail trivial
  · exact .fail trivial

theorem steady_bitwise (b : Builtin) (f : Int → Int → Int) (v w : Value) :
    Steady W F F' W.good (b.bitwise f v w) :=
  .bind (b.steady_integer v) fun _ _ ↦ .bind (b.steady_integer w) fun _ _ ↦ .pure (W.number _)

theorem steady_shift (b : Builtin) (f : Int → Int → Int) (v w : Value) :
    Steady W F F' W.good (b.shift f v w) :=
  .bind (b.steady_numbers v w) fun _ _ ↦ .bind (.ofNumber fun _ _ ↦ trivial) fun _ _ ↦
    .bind (.ofNumber fun _ _ ↦ trivial) fun _ _ ↦ .pure (W.number _)

theorem steady_bitNotOf (b : Builtin) (v : Value) : Steady W F F' W.good (b.bitNotOf v) :=
  .bind (b.steady_integer v) fun _ _ ↦ .pure (W.number _)

/-! ## Logic, comparison and ranges -/

theorem steady_logical (b : Builtin) (f : Bool → Bool → Bool) (v w : Value) :
    Steady W F F' W.good (b.logical f v w) :=
  .bind (b.steady_truth v) fun _ _ ↦ .bind (b.steady_truth w) fun _ _ ↦ .pure (W.boolean _)

theorem steady_areEqual (v w : Value) : Steady W F F' (fun _ ↦ True) (areEqual v w) :=
  .get fun s _ _ ↦ .ofStop (s.heap.faultless_looselySame v w) fun _ _ ↦ trivial

theorem steady_compared (b : Builtin) (onNumbers : Float → Float → Bool)
    (onTexts : String → String → Bool) (v w : Value) :
    Steady W F F' W.good (b.compared onNumbers onTexts v w) := by
  unfold compared
  split
  · exact .pure (W.boolean _)
  · exact .pure (W.boolean _)
  · exact .bind (Action.steady_typed _) fun _ _ ↦
      .bind (Action.steady_typed _) fun _ _ ↦ .fail trivial

theorem steady_rangeOf (b : Builtin) (v w : Value) : Steady W F F' W.good (b.rangeOf v w) :=
  .bind (b.steady_numbers v w) fun _ _ ↦ .pure (W.generator _ _ _)

theorem steady_stepOf (b : Builtin) (v w : Value) : Steady W F F' W.good (b.stepOf v w) := by
  unfold stepOf
  split
  · exact .bind (b.steady_number w) fun _ _ ↦
      .ite (fun _ ↦ .fail trivial) fun _ ↦ .pure (W.generator _ _ _)
  · exact .bind (Action.steady_typed _) fun _ _ ↦ .fail trivial

theorem steady_elementaryOf (b : Builtin) (f : Float → Except Number.Mishap Float) (v : Value) :
    Steady W F F' W.good (b.elementaryOf f v) := by
  refine .bind (b.steady_number v) fun x _ ↦ ?_
  simp only
  split
  · exact .pure (W.number _)
  · exact .fail trivial
  · exact .fail trivial

theorem steady_randomOf (b : Builtin) (v : Value) : Steady W F F' W.good (b.randomOf v) := by
  have hlast : Steady W F F' W.good (do return .number (← get).random.last) :=
    .get fun _ _ _ ↦ .pure (W.number _)
  have hnext : Steady W F F' (fun _ ↦ True)
      (modify fun s : Session ↦ { s with random := s.random.next } : Action Unit) :=
    .modify trivial fun _ hs ↦ ⟨rfl, rfl, hs.heap, hs.vars, hs.loops, hs.data⟩
  refine .bind (b.steady_number v) fun x _ ↦ .ite (fun _ ↦ .bind hnext fun _ _ ↦ hlast) fun _ ↦ ?_
  exact hlast

/-! ## Texts -/

theorem steady_leftOf (b : Builtin) (v n : Value) : Steady W F F' W.good (b.leftOf v n) :=
  .bind (b.steady_text v) fun _ _ ↦ .bind (b.steady_integer n) fun _ _ ↦ .pure (W.string _)

theorem steady_rightOf (b : Builtin) (v n : Value) : Steady W F F' W.good (b.rightOf v n) :=
  .bind (b.steady_text v) fun _ _ ↦ .bind (b.steady_integer n) fun _ _ ↦ .pure (W.string _)

theorem steady_midOf (b : Builtin) (v start length : Value) :
    Steady W F F' W.good (b.midOf v start length) := by
  refine .bind (b.steady_text v) fun _ _ ↦ .bind (b.steady_integer start) fun _ _ ↦
    .get fun s _ _ ↦ .bind (.ofStop (Quantity.faultless_sub _ _) fun _ _ ↦ trivial) fun q _ ↦
    .bind (b.steady_integer length) fun _ _ ↦
    .bind (.ofStop (Quantity.faultless_start q) fun _ _ ↦ trivial) fun _ _ ↦ .pure (W.string _)

theorem steady_spacesOf (b : Builtin) (n : Value) : Steady W F F' W.good (b.spacesOf n) :=
  .bind (b.steady_integer n) fun _ _ ↦
    .ite (fun _ ↦ .throw (W.stops_other id))
      fun _ ↦ .pure (W.string _)

theorem steady_chrOf (b : Builtin) (n : Value) : Steady W F F' W.good (b.chrOf n) := by
  refine .bind (b.steady_integer n) fun code _ ↦ ?_
  split
  · exact .pure (W.string _)
  · exact .fail trivial
  · exact .throw (W.stops_other id)

/-! ## Arrays and sequences -/

theorem steady_timesM {act : Action Value} (h : Steady W F F' W.good act) (count : Nat) :
    Steady W F F' (fun vs ↦ ∀ v ∈ vs, W.good v) (timesM act count) := by
  induction count with
  | zero => exact .pure (List.forall_mem_nil _)
  | succ count ih =>
    exact .bind h fun v hv ↦ .bind ih fun vs hvs ↦ .pure (List.forall_mem_cons.2 ⟨hv, hvs⟩)

theorem steady_zeros (count : Nat) (sizes : List Nat) :
    Steady W F F' W.good (zeros count sizes) := by
  induction sizes generalizing count with
  | nil =>
    refine Action.steady_newArray fun v hv ↦ ?_
    rw [List.eq_of_mem_replicate hv]
    exact W.number _
  | cons size sizes ih =>
    exact .bind (steady_timesM (ih size) count) fun _ hvs ↦ Action.steady_newArray hvs

theorem steady_dimOf (b : Builtin) (sizes : List Value) :
    Steady W F F' W.good (b.dimOf sizes) := by
  refine .bind (.mapM fun v _ ↦ b.steady_integer v) fun sizes _ ↦ ?_
  split
  · exact .ite (fun _ ↦ .fail trivial) fun _ ↦ steady_zeros _ _
  · exact .fail trivial

theorem steady_lenOf (b : Builtin) {v : Value} (hv : W.good v) :
    Steady W F F' W.good (b.lenOf v) := by
  unfold lenOf
  split
  · exact .pure (W.number _)
  · exact .bind (b.steady_items hv) fun _ _ ↦ .pure (W.number _)

theorem steady_someEnd (b : Builtin) {found : Option Value} (hfound : ∀ v ∈ found, W.good v) :
    Steady W F F' W.good (b.someEnd found) := by
  cases found with
  | some v => exact .pure (hfound v rfl)
  | none => exact .fail trivial

theorem steady_endOf (b : Builtin) {find : {α : Type} → List α → Option α}
    (hfind : ∀ {α : Type} {as : List α} {a : α}, find as = some a → a ∈ as) {v : Value}
    (hv : W.good v) : Steady W F F' W.good (b.endOf find v) := by
  unfold endOf
  split
  · refine b.steady_someEnd fun w hw ↦ ?_
    obtain ⟨c, -, rfl⟩ := Option.map_eq_some_iff.1 hw
    exact W.string _
  · exact .bind (b.steady_items hv) fun vs hvs ↦
      b.steady_someEnd fun w hw ↦ hvs w (hfind hw)

theorem steady_cutOf (b : Builtin) {cut : {α : Type} → List α → List α}
    (hcut : ∀ {α : Type} {as : List α} {a : α}, a ∈ cut as → a ∈ as) {v : Value}
    (hv : W.good v) : Steady W F F' W.good (b.cutOf cut v) := by
  unfold cutOf
  split
  · exact .pure (W.string _)
  · exact .bind (b.steady_items hv) fun _ hvs ↦
      Action.steady_newArray fun w hw ↦ hvs w (hcut hw)

theorem steady_consOf {v list : Value} (hv : W.good v) (hlist : W.good list) :
    Steady W F F' W.good (consOf v list) := by
  unfold consOf
  split
  · exact .pure (W.listMonad.2 (List.forall_mem_cons.2 ⟨hv, W.listMonad.1 hlist⟩))
  · exact .bind (Action.steady_elements _) fun _ hvs ↦
      Action.steady_newArray (List.forall_mem_cons.2 ⟨hv, hvs⟩)
  · exact .bind (Action.steady_typed _) fun _ _ ↦ .fail trivial

theorem steady_snocOf {list v : Value} (hlist : W.good list) (hv : W.good v) :
    Steady W F F' W.good (snocOf list v) := by
  have hsnoc : ∀ {vs : List Value}, (∀ w ∈ vs, W.good w) → ∀ w ∈ vs ++ [v], W.good w :=
    fun hvs ↦ List.forall_mem_append.2 ⟨hvs, by simpa using hv⟩
  unfold snocOf
  split
  · exact .pure (W.listMonad.2 (hsnoc (W.listMonad.1 hlist)))
  · exact .bind (Action.steady_elements _) fun _ hvs ↦ Action.steady_newArray (hsnoc hvs)
  · exact .bind (Action.steady_typed _) fun _ _ ↦ .fail trivial

theorem steady_concatOf {v w : Value} (hv : W.good v) (hw : W.good w) :
    Steady W F F' W.good (concatOf v w) := by
  unfold concatOf
  split
  · exact .pure (W.listMonad.2 (List.forall_mem_append.2 ⟨W.listMonad.1 hv, W.listMonad.1 hw⟩))
  · exact .bind (Action.steady_elements _) fun _ hvs ↦ .bind (Action.steady_elements _) fun _ hws ↦
      Action.steady_newArray (List.forall_mem_append.2 ⟨hvs, hws⟩)
  · exact .bind (Action.steady_typed _) fun _ _ ↦
      .bind (Action.steady_typed _) fun _ _ ↦ .fail trivial

/-! ## Calling and combining functions -/

theorem steady_composeOf (b : Builtin) {outer inner : Value} (houter : W.good outer)
    (hinner : W.good inner) : Steady W F F' W.good (b.composeOf outer inner) :=
  .bind (b.steady_function hinner) fun _ hfirst ↦ .bind (b.steady_function houter) fun _ hsecond ↦
    .pure (W.composed.2 (List.forall_mem_append.2 ⟨hfirst, hsecond⟩))

theorem steady_curryOf {f v : Value} (hf : W.good f) (hv : W.good v) :
    Steady W F F' W.good (curryOf f v) := by
  unfold curryOf
  split
  · rename_i c
    split
    · exact .pure (W.curry hf hv ‹_›)
    · exact .bind (Action.steady_describe _) fun _ _ ↦ .fail trivial
  · exact .bind (Action.steady_typed _) fun _ _ ↦ .fail trivial

theorem steady_reduceOf (b : Builtin) {f : Value} (hf : W.good f) :
    Steady W F F' W.good (b.reduceOf f) :=
  .bind (b.steady_function hf) fun _ _ ↦ .pure hf

theorem steady_of_unwrap? {v : Value} (hv : W.good v) {held : Action Value}
    (h : unwrap? v = some held) : Steady W F F' W.good held := by
  unfold unwrap? at h
  split at h
  · cases h
    exact .pure (W.memoMonad.1 hv)
  · cases h
    exact Action.steady_newArray (W.listMonad.1 hv)
  · cases h
    exact Action.steady_newArray (List.forall_mem_map.2 (W.composed.1 hv))
  · cases h

theorem steady_listMonadOf (b : Builtin) {v : Value} (hv : W.good v) :
    Steady W F F' W.good (b.listMonadOf v) := by
  unfold listMonadOf
  split
  · exact .bind (b.steady_items hv) fun _ hvs ↦ .pure (W.listMonad.2 hvs)
  · exact .bind (b.steady_items hv) fun _ hvs ↦ .pure (W.listMonad.2 hvs)
  · exact .pure (W.listMonad.2 (by simpa using hv))

theorem steady_joinOf {v : Value} (hv : W.good v) : Steady W F F' W.good (joinOf v) := by
  rw [joinOf]
  cases h : unwrap? v with
  | some held => exact steady_of_unwrap? hv h
  | none => exact .bind (Action.steady_typed _) fun _ _ ↦ .fail trivial

theorem steady_thenOf {v w : Value} (hw : W.good w) : Steady W F F' W.good (thenOf v w) := by
  have hrefuse : ∀ v, Steady W F F' (fun _ ↦ True) (thenOf.refuse v) := fun v ↦
    .bind (Action.steady_typed v) fun _ _ ↦ .fail trivial
  have hsecond : Steady W F F' W.good (do
      if !isMonad w then thenOf.refuse w
      return w) :=
    .ite (fun _ ↦ .bind (hrefuse w) fun _ _ ↦ .pure hw) fun _ ↦ .pure hw
  exact .ite (fun _ ↦ .bind (hrefuse v) fun _ _ ↦ hsecond) fun _ ↦ hsecond

section
variable {enter enter' : Closure → List Value → Action Value} (henter : Enters W F F' enter enter')

include henter

theorem lockstep_mapOf (b : Builtin) {f list : Value} (hf : W.good f) (hlist : W.good list) :
    Lockstep W F F' W.good (b.mapOf enter f list) (b.mapOf enter' f list) :=
  .bind (b.steady_function hf) fun _ hf ↦ .bind (b.steady_items hlist) fun _ hvs ↦
    .bind (.mapM fun v hv ↦ Callable.lockstep_call henter hf (by simpa using hvs v hv)) fun _ hws ↦
      Action.steady_newArray hws

theorem lockstep_foldOf (b : Builtin) {f start list : Value} (hf : W.good f)
    (hstart : W.good start) (hlist : W.good list) :
    Lockstep W F F' W.good (b.foldOf enter f start list) (b.foldOf enter' f start list) :=
  .bind (b.steady_function hf) fun _ hf ↦ .bind (b.steady_items hlist) fun _ hvs ↦
    .foldlM hstart fun found hfound v hv ↦
      Callable.lockstep_call henter hf (by simpa using ⟨hfound, hvs v hv⟩)

theorem lockstep_filterOf (b : Builtin) {f list : Value} (hf : W.good f) (hlist : W.good list) :
    Lockstep W F F' W.good (b.filterOf enter f list) (b.filterOf enter' f list) :=
  .bind (b.steady_function hf) fun _ hf ↦ .bind (b.steady_items hlist) fun _ hvs ↦
    .bind (.filterM hvs fun v hv ↦
      .bind (Callable.lockstep_call henter hf (by simpa using hvs v hv)) fun _ _ ↦ .pure trivial)
      fun _ hws ↦ Action.steady_newArray hws

theorem lockstep_applyOf (b : Builtin) {f v : Value} (hf : W.good f) (hv : W.good v) :
    Lockstep W F F' W.good (b.applyOf enter f v) (b.applyOf enter' f v) :=
  .bind (b.steady_function hf) fun _ hf ↦ Callable.lockstep_call henter hf (by simpa using hv)

theorem lockstep_bindOf {v f : Value} (hv : W.good v) (hf : W.good f) :
    Lockstep W F F' W.good (bindOf enter v f) (bindOf enter' v f) := by
  unfold bindOf
  cases hheld : unwrap? v with
  | none => exact .bind (Action.steady_typed _) fun _ _ ↦ .fail trivial
  | some held =>
    cases hcallable : f.callable? with
    | none => exact .bind (Action.steady_typed _) fun _ _ ↦ .fail trivial
    | some g =>
      have hg := Value.isGood_of_callable? hf hcallable
      refine .bind (steady_of_unwrap? hv hheld) fun w hw ↦
        .bind (Callable.lockstep_call henter hg (by simpa using hw)) fun result hresult ↦
        .ite (fun _ ↦ .pure hresult) fun _ ↦ .bind (Action.steady_typed _) fun _ _ ↦ .fail trivial

end

end Builtin
end LineBasic
