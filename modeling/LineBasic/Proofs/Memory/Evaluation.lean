import LineBasic.Proofs.Abreast
import LineBasic.Proofs.Memory.Statements
import LineBasic.Proofs.Tree.Induction
import LineBasic.Proofs.Tree.Scoping
import LineBasic.Statement

/-!
# Evaluation within the memory

A tree of which the values refer to arrays that are there is evaluated within the memory.  There is
one lemma for each kind of tree: if its parts are evaluated thriftily, so is it.

* `Builtin.thrifty_invoke`, `thrifty_applyOperand`, `thrifty_inCall` — builtins and functions.
* `Prudent.unary`, `Prudent.call`, … — trees by their parts.
* `thrifty_eval`, `thrifty_callWithin`, `thrifty_evaluate` — trees and calls.
* `frugal_execute` — statements.
-/

set_option autoImplicit false
namespace LineBasic

variable {n : Nat}

/-! ## Builtins -/

/-- An action that there may be is thrifty. -/
def Thrifty? {α : Type} (n : Nat) (Q : Nat → α → Prop) (act : Option (Action α)) : Prop :=
  ∀ x ∈ act, Thrifty n Q x

namespace Thrifty?

variable {α : Type} {Q : Nat → α → Prop} {x y : Option (Action α)} {act : Action α}

theorem none : Thrifty? n Q none := nofun

theorem some (h : Thrifty n Q act) : Thrifty? n Q (some act) := by
  rintro _ ⟨⟩
  exact h

theorem orElse (hx : Thrifty? n Q x) (hy : Thrifty? n Q y) : Thrifty? n Q (x <|> y) := by
  cases x with
  | none => exact hy
  | some x => exact .some (hx x rfl)

end Thrifty?

namespace Builtin

theorem thrifty_performOne? (b : Builtin) (site : Site) {v : Value} (hv : v.Below n) :
    Thrifty? n Value.Below (b.performOne? site v) := by
  have helementary : Thrifty? n Value.Below ((elementary? b).map fun f ↦ b.elementaryOf f v) := by
    cases elementary? b with
    | none => exact .none
    | some f => exact .some (b.thrifty_elementaryOf f v)
  cases b with
  | negate | positive =>
    exact .some (.bind (frugal_number _ v) fun _ _ _ ↦ .value (Value.below_number _))
  | not => exact .some (.value (Value.below_boolean _))
  | bitNot => exact .some (thrifty_bitNotOf _ v)
  | ret => exact .some (.value (Value.below_memoMonad.2 hv))
  | join => exact .some (thrifty_joinOf hv)
  | random => exact .some (thrifty_randomOf _ v)
  | spaces => exact .some (thrifty_spacesOf _ v)
  | chr => exact .some (thrifty_chrOf _ v)
  | len => exact .some (thrifty_lenOf _ hv)
  | head => exact .some (thrifty_endOf _ List.mem_of_head? hv)
  | last => exact .some (thrifty_endOf _ List.mem_of_getLast? hv)
  | tail => exact .some (thrifty_cutOf _ List.mem_of_mem_tail hv)
  | init => exact .some (thrifty_cutOf _ (List.dropLast_subset _ ·) hv)
  | reduce => exact .some (thrifty_reduceOf _ hv)
  | listOf => exact .some (thrifty_listMonadOf _ hv)
  | typeOf => exact .some (.value (Value.below_string _))
  | test => exact .some (.value hv)
  | optionBase => exact .some (thrifty_optionBaseOf _ v)
  | optionDebug => exact .some (thrifty_optionDebugOf _ v)
  | optionTrace => exact .some (thrifty_optionTraceOf _ v)
  | textFore => exact .some (thrifty_textForeOf _ v)
  | textBack => exact .some (thrifty_textBackOf _ v)
  | peek => exact .some (thrifty_peekOf _ v)
  | printMonad => exact .some (thrifty_printMonadOf v)
  | resolve => exact .some (thrifty_resolveOf site hv)
  | _ => exact helementary

theorem thrifty_performNone? (b : Builtin) : Thrifty? n Value.Below b.performNone? := by
  cases b with
  | takeData => exact .some thrifty_nextDatum
  | restore => exact .some thrifty_restoreOf
  | clear => exact .some thrifty_clearOf
  | readText => exact .some thrifty_readTextOf
  | clearScreen => exact .some thrifty_clearScreenOf
  | keysDown => exact .some thrifty_keysDownOf
  | _ => exact .none

theorem thrifty_performAny? (b : Builtin) (separators : List Separator) {vs : List Value}
    (hvs : AllBelow n vs) : Thrifty? n Value.Below (b.performAny? separators vs) := by
  have hlast : (vs.getLastD .null).Below n := by
    rw [List.getLastD_eq_getLast?]
    cases h : vs.getLast? with
    | none => exact Value.below_null
    | some v => exact hvs v (List.mem_of_getLast? h)
  cases b with
  | dim => exact .some (thrifty_dimOf _ vs)
  | sequence => exact .some (.value hlast)
  | data => exact .some (thrifty_dataOf hvs)
  | print => exact .some (thrifty_printOf false separators vs)
  | emit => exact .some (thrifty_printOf true separators vs)
  | _ => exact .none

theorem thrifty_performRaw? (b : Builtin) (site : Site) {operands : List Operand}
    (h : ∀ x ∈ operands, x.Below n) : Thrifty? n Operand.Below (b.performRaw? site operands) := by
  unfold performRaw?
  split
  · exact .some (thrifty_assignOf _ _ (h _ (by simp)))
  · exact .some (thrifty_memberOf _ (h _ (by simp)))
  · exact .some (thrifty_loopOf _ site (h _ (by simp)))
  · exact .some (thrifty_loopOverOf _ site (h _ (by simp)))
  · exact .some (thrifty_nextOf _ _)
  · exact .some (thrifty_gotoOf _ (h _ (by simp)))
  · exact .some (thrifty_gosubOf _ site (h _ (by simp)))
  · exact .some thrifty_comeBackOf
  · exact .some (Operand.thrifty_pure trivial)
  · exact .some (thrifty_readOf _ _)
  · exact .some (thrifty_labelOf site _)
  · exact .some (thrifty_inputOf _ _)
  · exact .some (thrifty_resolveVarOf _)
  · exact .none

section
variable {enter : Closure → List Value → Action Value} (henter : EntersThriftily enter)

include henter

theorem thrifty_performTwo? (b : Builtin) {v w : Value} (hv : v.Below n) (hw : w.Below n) :
    Thrifty? n Value.Below (b.performTwo? enter v w) := by
  cases b with
  | plus => exact .some (thrifty_plusOf v w)
  | minus | times | min | max => exact .some (thrifty_arithmetic _ _ v w)
  | divide => exact .some (thrifty_divideOf _ v w)
  | quotient => exact .some (thrifty_quotientOf _ v w)
  | modulo => exact .some (thrifty_moduloOf _ v w)
  | power => exact .some (thrifty_powerOf _ v w)
  | equal | unequal | unlike =>
    exact .some (.bind (frugal_areEqual v w) fun _ _ _ ↦ .value (Value.below_boolean _))
  | less | greater | lessEq | eqLess | greaterEq | eqGreater =>
    exact .some (thrifty_compared _ _ _ v w)
  | shiftLeft | shiftRight => exact .some (thrifty_shift _ _ v w)
  | bitAnd | bitOr | bitXor => exact .some (thrifty_bitwise _ _ v w)
  | and | or => exact .some (thrifty_logical _ _ v w)
  | «to» => exact .some (thrifty_rangeOf _ v w)
  | step => exact .some (thrifty_stepOf _ v w)
  | cons => exact .some (thrifty_consOf hv hw)
  | snoc => exact .some (thrifty_snocOf hv hw)
  | concat => exact .some (thrifty_concatOf hv hw)
  | compose => exact .some (thrifty_composeOf _ hv hw)
  | apply => exact .some (thrifty_applyOf henter _ hv hw)
  | curry => exact .some (thrifty_curryOf hv hw)
  | bind => exact .some (thrifty_bindOf henter hv hw)
  | andThen => exact .some (thrifty_thenOf hw)
  | left => exact .some (thrifty_leftOf _ v w)
  | right => exact .some (thrifty_rightOf _ v w)
  | map => exact .some (thrifty_mapOf henter _ hv hw)
  | filter => exact .some (thrifty_filterOf henter _ hv hw)
  | moveCursor => exact .some (thrifty_moveCursorOf _ v w)
  | poke => exact .some (thrifty_pokeOf _ v w)
  | _ => exact .none

theorem thrifty_perform? (b : Builtin) (site : Site) (separators : List Separator)
    {vs : List Value} (hvs : AllBelow n vs) :
    Thrifty? n Value.Below (b.perform? enter site separators vs) := by
  refine .orElse (b.thrifty_performAny? separators hvs) ?_
  split
  · exact .none
  · exact .none
  · exact .some (thrifty_midOf _ _ _ _)
  · exact .some (thrifty_foldOf henter _ (hvs _ (by simp)) (hvs _ (by simp)) (hvs _ (by simp)))
  · exact .some (thrifty_plotOf _ _ _ _)
  · exact b.thrifty_performNone?
  · exact b.thrifty_performOne? site (hvs _ (by simp))
  · exact thrifty_performTwo? henter b (hvs _ (by simp)) (hvs _ (by simp))
  · exact .none

theorem thrifty_invoke (b : Builtin) (site : Site) (separators : List Separator)
    {operands : List Operand} (h : ∀ x ∈ operands, x.Below n) :
    Thrifty n Operand.Below (b.invoke enter site separators operands) := by
  refine .ite (fun _ ↦ .fail _) fun _ ↦ ?_
  have hraw : Thrifty? n Operand.Below (b.performRaw? site operands) :=
    b.thrifty_performRaw? site h
  generalize b.performRaw? site operands = raw at hraw
  cases raw with
  | some act => exact hraw act rfl
  | none =>
    refine .bind (Operand.thrifty_resolveAll h) fun _ vs hvs ↦ ?_
    have hperform := thrifty_perform? henter b site separators hvs
    generalize b.perform? enter site separators vs = act at hperform
    cases act with
    | some act => exact .bind (hperform act rfl) fun _ _ hv ↦ Operand.thrifty_pure hv
    | none => exact .fail _

end

end Builtin

/-! ## Subscripts -/

namespace Operand

theorem frugal_offset? (name : String) (size : Nat) (arg : Value) :
    Frugal n (offset? name size arg) := by
  unfold offset?
  split
  · refine .bind (.ofNumber _) fun _ k _ ↦ .bind (Action.frugal_position k size) fun _ place _ ↦ ?_
    cases place with
    | element k => exact .any
    | inexact => exact .any
    | outside => exact .fail _
  · exact .bind (Action.frugal_typed _) fun _ _ _ ↦ .fail _

theorem thrifty_descend (base : Nat) (name : String) (count place : Nat) (way : List Nat)
    (arg : Value) (args : List Value) :
    Thrifty n Operand.Below (descend base name count place way arg args) := by
  induction args generalizing place way arg n with
  | nil =>
    refine .get fun s _ _ ↦ .bind (frugal_offset? name _ arg) fun _ found _ ↦ ?_
    cases found with
    | some index => exact thrifty_pure trivial
    | none => exact thrifty_pure trivial
  | cons next args ih =>
    refine .get fun s _ _ ↦ .bind (frugal_offset? name _ arg) fun _ found _ ↦ ?_
    cases found with
    | some index =>
      refine .get fun s _ _ ↦ ?_
      cases s.heap.child? place index with
      | some inner => exact ih _ _ _
      | none => exact .fail _
    | none => exact .throw _

theorem thrifty_subscripted (base : Nat) (way : List Nat) (name : String) (args : List Value) :
    Thrifty n Operand.Below (subscripted base way name args) := by
  cases args with
  | nil => exact .fail _
  | cons arg more =>
    exact .get fun _ _ _ ↦ .bind (.anyStop _)
      fun _ _ _ ↦ thrifty_descend _ _ _ _ _ _ _

end Operand

/-! ## Functions -/

section
variable {enter : Closure → List Value → Action Value} (henter : EntersThriftily enter)

include henter

theorem thrifty_applyValue {v : Value} (hv : v.Below n) {args : List Value}
    (hargs : AllBelow n args) (name : String) :
    Thrifty n Operand.Below (applyValue enter v args name) := by
  unfold applyValue
  split
  · have hf := Value.below_of_callable? hv ‹_›
    exact .bind (Callable.thrifty_call henter hf hargs) fun _ _ hw ↦ Operand.thrifty_pure hw
  · exact Operand.thrifty_subscripted _ _ _ _
  · split
    · exact .bind (Builtin.thrifty_of_unwrap? hv ‹_›) fun _ _ hw ↦ Operand.thrifty_pure hw
    · exact Operand.thrifty_pure hv
    · exact .bind (Action.frugal_typed _) fun _ _ _ ↦ .fail _

theorem thrifty_applyOperand {callee : Operand} (hcallee : callee.Below n) {args : List Value}
    (hargs : AllBelow n args) (name : String) :
    Thrifty n Operand.Below (applyOperand enter callee args name) := by
  refine .bind (Operand.thrifty_resolve hcallee) fun hm v hv ↦ ?_
  split
  · exact Operand.thrifty_subscripted _ _ _ _
  · exact thrifty_applyValue henter hv (hargs.mono hm) name

theorem thrifty_callBuiltin (site : Site) (b : Builtin) (separators : List Separator)
    {operands : Action (List Operand)}
    (h : Thrifty n (fun m xs ↦ ∀ x ∈ xs, x.Below m) operands) :
    Thrifty n Operand.Below (callBuiltin enter site b separators operands) :=
  .get fun _ hn _ ↦ .bind (.anyFault _) fun hm _ _ ↦
    .bind (h.later (Nat.le_trans hn hm)) fun _ _ hxs ↦
      Builtin.thrifty_invoke henter b site separators hxs

end

theorem frugal_calleeName (callee : Operand) (t : Tree) : Frugal n (calleeName callee t) := by
  unfold calleeName
  split
  · exact .any
  · exact .any
  · exact .get fun _ _ _ ↦ .anyStop _

theorem frugal_selected (kind : JumpKind) (count : Nat) (v : Value) :
    Frugal n (selected kind count v) := by
  unfold selected
  split
  · refine .bind (.ofNumber _) fun _ k _ ↦ .bind (Action.frugal_position k count) fun _ place _ ↦ ?_
    cases place with
    | element k => exact .any
    | inexact => exact .throw _
    | outside => exact .any
  · exact .bind (Action.frugal_typed _) fun _ _ _ ↦ .fail _

/-- After a call, with the stack from before. -/
theorem Session.Spends.leave {s s' : Session} {b : Binders.Stack}
    (h : Session.Spends { s with binders := b } s') (hs : s.IsClosed) :
    s.Spends { s' with binders := s.binders } where
  size := h.size
  closed :=
    { nil := h.closed.nil
      frames := fun frame hframe v hv ↦ (hs.frames frame hframe v hv).mono h.size
      all := ⟨h.closed.all.heap, h.closed.all.vars, h.closed.all.loops, h.closed.all.data⟩ }
  program := h.program
  settings := h.settings
  used := h.used

/-- A call is thrifty if what is done inside it is. -/
theorem thrifty_inCall {c : Closure} (hc : (Value.closure c).Below n) {args : Frame}
    (hargs : AllBelow n args) {act : Action Value} (h : Thrifty n Value.Below act) :
    Thrifty n Value.Below (Action.inCall c args act) := by
  refine ⟨fun s hn hs ↦ ?_⟩
  cases hfull : s.binders.isFull with
  | true =>
    rw [inCall_of_isFull hfull]
    exact .error hs.refl
  | false =>
    have hframes : ∀ frame ∈ args :: c.captured, ∀ v ∈ frame, v.Below s.heap.size :=
      List.forall_mem_cons.2 ⟨hargs.mono hn, fun frame hframe v hv ↦
        ((Value.below_closure.1 hc).1 frame hframe v hv).mono hn⟩
    have hinner := h.run { s with binders := s.binders.enter c args } hn
      (hs.replace rfl rfl hframes hs.all.loops hs.all.data)
    rw [inCall_of_not_isFull hfull]
    generalize act { s with binders := s.binders.enter c args } = r at hinner
    cases hinner with
    | ok hs' ha => exact .ok (hs'.leave hs) ha
    | error hs' => exact .error (hs'.leave hs)

/-! ## Trees by their parts -/

/-- A tree that is evaluated thriftily, with places of a heap of the given size. -/
abbrev Prudent (enter : Closure → List Value → Action Value) (site : Site) (n : Nat) (t : Tree) :
    Prop :=
  Thrifty n Operand.Below (eval enter site t)

section
variable {enter : Closure → List Value → Action Value} {site : Site}

theorem thrifty_evalAll {ts : List Tree} (h : ∀ t ∈ ts, Prudent enter site n t) :
    Thrifty n (fun m xs ↦ ∀ x ∈ xs, x.Below m) (evalAll enter site ts) := by
  induction ts generalizing n with
  | nil => exact .pure fun _ _ ↦ List.forall_mem_nil _
  | cons t ts ih =>
    rw [List.forall_mem_cons] at h
    refine .bind h.1 fun hm x hx ↦ .bind (ih fun t ht ↦ (h.2 t ht).later hm) fun hm' xs hxs ↦ ?_
    exact .pure fun _ hk ↦ List.forall_mem_cons.2
      ⟨hx.mono (Nat.le_trans hm' hk), fun y hy ↦ (hxs y hy).mono hk⟩

theorem thrifty_evalValues {ts : List Tree} (h : ∀ t ∈ ts, Prudent enter site n t) :
    Thrifty n AllBelow (evalValues enter site ts) := by
  induction ts generalizing n with
  | nil => exact .values .nil
  | cons t ts ih =>
    rw [List.forall_mem_cons] at h
    refine .bind h.1 fun hm x hx ↦ .bind (Operand.thrifty_resolve hx) fun hm' v hv ↦ ?_
    refine .bind (ih fun t ht ↦ (h.2 t ht).later (Nat.le_trans hm hm')) fun hk vs hvs ↦ ?_
    exact .values (.cons (hv.mono hk) hvs)

theorem thrifty_evalAt {ts : List Tree} (h : ∀ t ∈ ts, Prudent enter site n t) (position : Nat) :
    Thrifty n (fun m xs ↦ ∀ x ∈ xs, x.Below m) (evalAt enter site ts position) := by
  induction ts generalizing position with
  | nil => exact .pure fun _ _ ↦ List.forall_mem_nil _
  | cons t ts ih =>
    rw [List.forall_mem_cons] at h
    cases position with
    | zero => exact .bind h.1 fun _ _ hx ↦ .pure fun _ hm ↦ List.forall_mem_singleton.2 (hx.mono hm)
    | succ position => exact ih h.2 position

namespace Prudent

theorem array {elements : List Tree} (h : ∀ t ∈ elements, Prudent enter site n t) :
    Prudent enter site n (.array elements) :=
  .bind (thrifty_evalValues h) fun _ _ hvs ↦ .bind (Action.thrifty_newArray hvs) fun _ _ hv ↦
    Operand.thrifty_pure hv

theorem branch {condition yes : Tree} {no : Option Tree}
    (hcondition : Prudent enter site n condition) (hyes : Prudent enter site n yes)
    (hno : ∀ t ∈ no, Prudent enter site n t) : Prudent enter site n (.branch condition yes no) := by
  refine .bind hcondition fun hm x hx ↦ .bind (Operand.thrifty_resolve hx) fun hm' v _ ↦ ?_
  have hm := Nat.le_trans hm hm'
  refine .ite (fun _ ↦ hyes.later hm) fun _ ↦ ?_
  cases no with
  | none => exact Operand.thrifty_pure Value.below_null
  | some no => exact (hno no rfl).later hm

theorem parameter (depth index : Nat) : Prudent enter site n (.parameter depth index) := by
  refine .get fun s _ hs ↦ .bind (.ofFault fun _ hm v hv ↦ ?_) fun _ _ hv ↦ Operand.thrifty_pure hv
  obtain ⟨frame, hframe, hmem⟩ := Binders.Stack.mem_of_lookup_eq_ok hv
  exact (hs.frames frame hframe v hmem).mono hm

theorem lambda {names : List String} {body : Tree} (h : ∀ v ∈ body.values, v.Below n) :
    Prudent enter site n (.lambda names body) :=
  .get fun _ hn hs ↦ Operand.thrifty_pure
    (Value.below_closure.2 ⟨hs.frames, fun v hv ↦ (h v hv).mono hn⟩)

section
variable (henter : EntersThriftily enter)

include henter

theorem unary {op : UnaryOperator} {operand : Tree} (h : Prudent enter site n operand) :
    Prudent enter site n (.unary op operand) :=
  thrifty_callBuiltin henter site _ _ (.bind h fun _ _ hx ↦ .pure fun _ hm ↦
    List.forall_mem_singleton.2 (hx.mono hm))

theorem binary {op : Operator} {left right : Tree} (hleft : Prudent enter site n left)
    (hright : Prudent enter site n right) : Prudent enter site n (.binary op left right) := by
  unfold Prudent eval
  cases Builtin.ofOperator? op with
  | none => exact .fail _
  | some b =>
    exact thrifty_callBuiltin henter site b _ (.bind hleft fun hm _ hx ↦
      .bind (hright.later hm) fun hm' _ hy ↦ .pure fun _ hk ↦ List.forall_mem_cons.2
        ⟨hx.mono (Nat.le_trans hm' hk), List.forall_mem_singleton.2 (hy.mono hk)⟩)

theorem call {name : String} {args : List Tree} {separators : List Separator}
    (h : ∀ t ∈ args, Prudent enter site n t) :
    Prudent enter site n (.call name args separators) := by
  unfold Prudent eval
  cases Builtin.ofName? name with
  | none =>
    have hname : ∀ {m}, (Operand.reference name).Below m := trivial
    exact .bind (thrifty_evalValues h) fun _ _ hvs ↦ thrifty_applyOperand henter hname hvs name
  | some b => exact thrifty_callBuiltin henter site b separators (thrifty_evalAll h)

theorem apply {callee : Tree} {args : List Tree} {separators : List Separator}
    (hcallee : Prudent enter site n callee) (h : ∀ t ∈ args, Prudent enter site n t) :
    Prudent enter site n (.apply callee args separators) := by
  refine .bind hcallee fun hm f hf ↦ .bind (frugal_calleeName f callee) fun hm' name _ ↦ ?_
  have hargs := thrifty_evalValues fun t ht ↦ (h t ht).later (Nat.le_trans hm hm')
  refine .bind hargs fun hk _ hvs ↦ ?_
  exact thrifty_applyOperand henter (hf.mono (Nat.le_trans hm' hk)) hvs name

theorem select {kind : JumpKind} {test : Tree} {targets : List Tree}
    (htest : Prudent enter site n test) (h : ∀ t ∈ targets, Prudent enter site n t) :
    Prudent enter site n (.select kind test targets) := by
  refine .bind htest fun hm x hx ↦ .bind (Operand.thrifty_resolve hx) fun hm' v _ ↦ ?_
  refine .bind (frugal_selected kind _ v) fun hk found _ ↦ ?_
  have hk := Nat.le_trans (Nat.le_trans hm hm') hk
  cases found with
  | none => exact Operand.thrifty_pure Value.below_null
  | some position =>
    exact .bind (thrifty_evalAt (fun t ht ↦ (h t ht).later hk) position) fun _ _ hxs ↦
      Builtin.thrifty_invoke henter _ site [] hxs

end
end Prudent
end

/-! ## Trees and calls -/

section
variable {enter : Closure → List Value → Action Value} {site : Site}

theorem thrifty_eval (henter : EntersThriftily enter) {t : Tree} (h : ∀ v ∈ t.values, v.Below n) :
    Prudent enter site n t := by
  induction t using Tree.parts_induction with
  | step t ih =>
  have hparts : ∀ u ∈ t.parts, Prudent enter site n u := fun u hu ↦
    ih u hu (Tree.forall_values_parts h u hu)
  cases t with
  | null => exact Operand.thrifty_pure Value.below_null
  | number x => exact Operand.thrifty_pure (Value.below_number x)
  | string s => exact Operand.thrifty_pure (Value.below_string s)
  | boolean b => exact Operand.thrifty_pure (Value.below_boolean b)
  | ident name => exact Operand.thrifty_pure trivial
  | unary op operand => exact .unary henter (hparts operand (by simp [Tree.parts]))
  | binary op left right =>
    exact .binary henter (hparts left (by simp [Tree.parts])) (hparts right (by simp [Tree.parts]))
  | call name args separators => exact .call henter hparts
  | apply callee args separators =>
    obtain ⟨hcallee, hargs⟩ := List.forall_mem_cons.1 hparts
    exact .apply henter hcallee hargs
  | array elements => exact .array hparts
  | params names => exact .fail _
  | lambda names body => exact .lambda h
  | parameter depth index => exact .parameter depth index
  | branch condition yes no =>
    exact .branch (hparts condition (by simp [Tree.parts])) (hparts yes (by simp [Tree.parts]))
      fun t ht ↦ hparts t (by simp [Tree.parts, Option.mem_def.1 ht])
  | select kind test targets =>
    obtain ⟨htest, htargets⟩ := List.forall_mem_cons.1 hparts
    exact .select henter htest htargets
  | define name names body =>
    exact .get fun _ _ _ ↦ .bind (.anyStop _) fun _ _ _ ↦
      .fail _
  | value v => exact Operand.thrifty_pure (h v (List.mem_singleton_self v))

end

theorem thrifty_callWithin (site : Site) (room : Nat) : EntersThriftily (callWithin site room) := by
  induction room with
  | zero => exact fun c args _ _ ↦ .get fun _ _ _ ↦ .fail _
  | succ room ih =>
    exact fun c args hc hargs ↦ thrifty_inCall hc hargs
      (.bind (thrifty_eval ih (Value.below_closure.1 hc).2) fun _ _ hx ↦ Operand.thrifty_resolve hx)

theorem thrifty_evaluate (site : Site) {t : Tree} (h : ∀ v ∈ t.values, v.Below n) :
    Thrifty n Operand.Below (evaluate site t) :=
  .get fun _ hn _ ↦ thrifty_eval (thrifty_callWithin site _) fun v hv ↦ (h v hv).mono hn

/-! ## Statements -/

theorem Lands.settled {α : Type} {Q : Nat → α → Prop} {act : Action α} {s : Session}
    (h : Lands s Q (act s)) (site : Site) : Lands s Q (act.settled site s) := by
  unfold Action.settled
  generalize act s = r at h
  cases h with
  | ok hs ha => exact .ok hs ha
  | error hs => exact .error hs

theorem Operand.frugal_outcome (site : Site) {x : Operand} (h : x.Below n) :
    Frugal n (x.outcome site) := by
  cases x with
  | jump target => exact .any
  | _ => exact .bind (thrifty_resolve h) fun _ _ _ ↦ .any

/-- A statement without values in it uses no more memory than was used, or than there is. -/
theorem frugal_execute (site : Site) {t : Tree} (h : t.values = []) :
    Frugal n (execute site t) := by
  have hvalues : ∀ v ∈ t.values, v.Below n := by
    rw [h]
    exact List.forall_mem_nil _
  have hact : Frugal n (evaluate site t >>= Operand.outcome site) :=
    .bind (thrifty_evaluate site hvalues) fun _ _ hx ↦ Operand.frugal_outcome site hx
  exact ⟨fun s hn hs ↦ (hact.run s hn hs).settled site⟩

end LineBasic
