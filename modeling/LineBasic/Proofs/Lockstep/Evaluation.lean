import LineBasic.Evaluation
import LineBasic.Proofs.Lockstep.Statements
import LineBasic.Proofs.Tree.Induction

/-!
# Evaluation in lockstep

Two runs that enter functions in lockstep also call builtins, apply operands and evaluate trees in
lockstep.  There is one lemma for each kind of tree: if its parts are evaluated in lockstep, so is
it.  The parts may differ between the runs.

* `Builtin.lockstep_invoke`, `lockstep_applyOperand`, `lockstep_inCall` — builtins and functions.
* `Lockstep.unary`, `Lockstep.call`, … — trees by their parts.
* `lockstep_eval`, `lockstep_callWithin` — trees and calls that fit a world.
-/

set_option autoImplicit false
namespace LineBasic

variable {W : World} {F F' : List Frame}

/-! ## Builtins -/

/-- Two actions in lockstep that there may be, or neither. -/
inductive Lockstep? {α : Type} (W : World) (F F' : List Frame) (Q : α → Prop) :
    Option (Action α) → Option (Action α) → Prop
  | none : Lockstep? W F F' Q none none
  | some {act act' : Action α} (h : Lockstep W F F' Q act act') :
      Lockstep? W F F' Q (some act) (some act')

theorem Lockstep?.orElse {α : Type} {Q : α → Prop} {x x' y y' : Option (Action α)}
    (hx : Lockstep? W F F' Q x x') (hy : Lockstep? W F F' Q y y') :
    Lockstep? W F F' Q (x <|> y) (x' <|> y') := by
  cases hx with
  | none => exact hy
  | some h => exact .some h

namespace Builtin

theorem steady_performOne? (b : Builtin) (site : Site) {v : Value} (hv : W.good v) :
    Lockstep? W F F' W.good (b.performOne? site v) (b.performOne? site v) := by
  have helementary : Lockstep? W F F' W.good ((elementary? b).map fun f ↦ b.elementaryOf f v)
      ((elementary? b).map fun f ↦ b.elementaryOf f v) := by
    cases elementary? b with
    | none => exact .none
    | some f => exact .some (b.steady_elementaryOf f v)
  cases b with
  | negate | positive =>
    exact .some (.bind (steady_number _ v) fun _ _ ↦ .pure (W.number _))
  | not => exact .some (.pure (W.boolean _))
  | bitNot => exact .some (steady_bitNotOf _ v)
  | ret => exact .some (.pure (W.memoMonad.2 hv))
  | join => exact .some (steady_joinOf hv)
  | random => exact .some (steady_randomOf _ v)
  | spaces => exact .some (steady_spacesOf _ v)
  | chr => exact .some (steady_chrOf _ v)
  | len => exact .some (steady_lenOf _ hv)
  | head => exact .some (steady_endOf _ List.mem_of_head? hv)
  | last => exact .some (steady_endOf _ List.mem_of_getLast? hv)
  | tail => exact .some (steady_cutOf _ List.mem_of_mem_tail hv)
  | init => exact .some (steady_cutOf _ (List.dropLast_subset _ ·) hv)
  | reduce => exact .some (steady_reduceOf _ hv)
  | listOf => exact .some (steady_listMonadOf _ hv)
  | typeOf => exact .some (.pure (W.string _))
  | test => exact .some (.pure hv)
  | optionBase => exact .some (steady_optionBaseOf _ v)
  | optionDebug => exact .some (steady_optionDebugOf _ v)
  | optionTrace => exact .some (steady_optionTraceOf _ v)
  | textFore => exact .some (steady_textForeOf _ v)
  | textBack => exact .some (steady_textBackOf _ v)
  | peek => exact .some (steady_peekOf _ v)
  | printMonad => exact .some (steady_printMonadOf v)
  | resolve => exact .some (steady_resolveOf site hv)
  | _ => exact helementary

theorem steady_performNone? (b : Builtin) :
    Lockstep? W F F' W.good b.performNone? b.performNone? := by
  cases b with
  | takeData => exact .some steady_nextDatum
  | restore => exact .some steady_restoreOf
  | clear => exact .some steady_clearOf
  | readText => exact .some steady_readTextOf
  | clearScreen => exact .some steady_clearScreenOf
  | keysDown => exact .some steady_keysDownOf
  | _ => exact .none

theorem steady_performAny? (b : Builtin) (separators : List Separator) {vs : List Value}
    (hvs : ∀ v ∈ vs, W.good v) :
    Lockstep? W F F' W.good (b.performAny? separators vs) (b.performAny? separators vs) := by
  have hlast : W.good (vs.getLastD .null) := by
    rw [List.getLastD_eq_getLast?]
    cases h : vs.getLast? with
    | none => exact W.null
    | some v => exact hvs v (List.mem_of_getLast? h)
  cases b with
  | dim => exact .some (steady_dimOf _ vs)
  | sequence => exact .some (.pure hlast)
  | data => exact .some (steady_dataOf hvs)
  | print => exact .some (steady_printOf false separators vs)
  | emit => exact .some (steady_printOf true separators vs)
  | _ => exact .none

theorem steady_performRaw? (b : Builtin) (site : Site) {operands : List Operand}
    (h : ∀ x ∈ operands, x.IsGood W) :
    Lockstep? W F F' (Operand.IsGood W) (b.performRaw? site operands)
      (b.performRaw? site operands) := by
  unfold performRaw?
  split
  · exact .some (steady_assignOf _ _ (h _ (by simp)))
  · exact .some (steady_memberOf _ (h _ (by simp)))
  · exact .some (steady_loopOf _ site (h _ (by simp)))
  · exact .some (steady_loopOverOf _ site (h _ (by simp)))
  · exact .some (steady_nextOf _ _)
  · exact .some (steady_gotoOf _ (h _ (by simp)))
  · exact .some (steady_gosubOf _ site (h _ (by simp)))
  · exact .some steady_comeBackOf
  · exact .some (.pure trivial)
  · exact .some (steady_readOf _ _)
  · exact .some (steady_labelOf site _)
  · exact .some (steady_inputOf _ _)
  · exact .some (steady_resolveVarOf _)
  · exact .none

section
variable {enter enter' : Closure → List Value → Action Value} (henter : Enters W F F' enter enter')

include henter

theorem lockstep_performTwo? (b : Builtin) {v w : Value} (hv : W.good v) (hw : W.good w) :
    Lockstep? W F F' W.good (b.performTwo? enter v w) (b.performTwo? enter' v w) := by
  cases b with
  | plus => exact .some (steady_plusOf v w)
  | minus | times | min | max => exact .some (steady_arithmetic _ _ v w)
  | divide => exact .some (steady_divideOf _ v w)
  | quotient => exact .some (steady_quotientOf _ v w)
  | modulo => exact .some (steady_moduloOf _ v w)
  | power => exact .some (steady_powerOf _ v w)
  | equal | unequal | unlike =>
    exact .some (.bind (steady_areEqual v w) fun _ _ ↦ .pure (W.boolean _))
  | less | greater | lessEq | eqLess | greaterEq | eqGreater =>
    exact .some (steady_compared _ _ _ v w)
  | shiftLeft | shiftRight => exact .some (steady_shift _ _ v w)
  | bitAnd | bitOr | bitXor => exact .some (steady_bitwise _ _ v w)
  | and | or => exact .some (steady_logical _ _ v w)
  | «to» => exact .some (steady_rangeOf _ v w)
  | step => exact .some (steady_stepOf _ v w)
  | cons => exact .some (steady_consOf hv hw)
  | snoc => exact .some (steady_snocOf hv hw)
  | concat => exact .some (steady_concatOf hv hw)
  | compose => exact .some (steady_composeOf _ hv hw)
  | apply => exact .some (lockstep_applyOf henter _ hv hw)
  | curry => exact .some (steady_curryOf hv hw)
  | bind => exact .some (lockstep_bindOf henter hv hw)
  | andThen => exact .some (steady_thenOf hw)
  | left => exact .some (steady_leftOf _ v w)
  | right => exact .some (steady_rightOf _ v w)
  | map => exact .some (lockstep_mapOf henter _ hv hw)
  | filter => exact .some (lockstep_filterOf henter _ hv hw)
  | moveCursor => exact .some (steady_moveCursorOf _ v w)
  | poke => exact .some (steady_pokeOf _ v w)
  | _ => exact .none

theorem lockstep_perform? (b : Builtin) (site : Site) (separators : List Separator)
    {vs : List Value} (hvs : ∀ v ∈ vs, W.good v) :
    Lockstep? W F F' W.good (b.perform? enter site separators vs)
      (b.perform? enter' site separators vs) := by
  refine .orElse (b.steady_performAny? separators hvs) ?_
  split
  · exact .none
  · exact .none
  · exact .some (steady_midOf _ _ _ _)
  · exact .some (lockstep_foldOf henter _ (hvs _ (by simp)) (hvs _ (by simp)) (hvs _ (by simp)))
  · exact .some (steady_plotOf _ _ _ _)
  · exact b.steady_performNone?
  · exact b.steady_performOne? site (hvs _ (by simp))
  · exact lockstep_performTwo? henter b (hvs _ (by simp)) (hvs _ (by simp))
  · exact .none

theorem lockstep_invoke (b : Builtin) (site : Site) (separators : List Separator)
    {operands : List Operand} (h : ∀ x ∈ operands, x.IsGood W) :
    Lockstep W F F' (Operand.IsGood W) (b.invoke enter site separators operands)
      (b.invoke enter' site separators operands) := by
  refine .ite (fun _ ↦ .fail trivial) fun _ ↦ ?_
  have hraw : Lockstep? W F F' (Operand.IsGood W) (b.performRaw? site operands)
      (b.performRaw? site operands) := b.steady_performRaw? site h
  generalize b.performRaw? site operands = raw at hraw
  cases hraw with
  | some hact => exact hact
  | none =>
    refine .bind (Operand.steady_resolveAll h) fun vs hvs ↦ ?_
    have hperform := lockstep_perform? henter b site separators hvs
    generalize b.perform? enter site separators vs = act,
      b.perform? enter' site separators vs = act' at hperform
    cases hperform with
    | some hact => exact .bind hact fun _ hv ↦ .pure hv
    | none => exact .fail trivial

end

end Builtin

/-! ## Subscripts -/

namespace Operand

theorem steady_offset? (name : String) (size : Nat) (arg : Value) :
    Steady W F F' (fun _ ↦ True) (offset? name size arg) := by
  unfold offset?
  split
  · refine .bind (.ofNumber fun _ _ ↦ trivial) fun n _ ↦
      .bind (Action.steady_position n size) fun place _ ↦ ?_
    cases place with
    | element k => exact .pure trivial
    | inexact => exact .pure trivial
    | outside => exact .fail trivial
  · exact .bind (Action.steady_typed _) fun _ _ ↦ .fail trivial

theorem steady_descend (base : Nat) (name : String) (count place : Nat) (way : List Nat)
    (arg : Value) (args : List Value) :
    Steady W F F' (IsGood W) (descend base name count place way arg args) := by
  induction args generalizing place way arg with
  | nil =>
    refine .get fun s _ _ ↦ .bind (steady_offset? name _ arg) fun found _ ↦ ?_
    cases found with
    | some index => exact .pure trivial
    | none => exact .pure trivial
  | cons next args ih =>
    refine .get fun s _ _ ↦ .bind (steady_offset? name _ arg) fun found _ ↦ ?_
    cases found with
    | some index =>
      refine .get fun s _ _ ↦ ?_
      rw [Session.withFrames_heap]
      cases s.heap.child? place index with
      | some inner => exact ih _ _ _
      | none => exact .fail trivial
    | none => exact .throw (W.stops_other id)

theorem steady_subscripted (base : Nat) (way : List Nat) (name : String) (args : List Value) :
    Steady W F F' (IsGood W) (subscripted base way name args) := by
  cases args with
  | nil => exact .fail trivial
  | cons arg more =>
    exact .get fun s _ _ ↦ .bind (.ofStop (s.heap.faultless_follow base way) fun _ _ ↦ trivial)
      fun _ _ ↦ steady_descend _ _ _ _ _ _ _

end Operand

/-! ## Functions -/

section
variable {enter enter' : Closure → List Value → Action Value} (henter : Enters W F F' enter enter')

include henter

theorem lockstep_applyValue {v : Value} (hv : W.good v) {args : List Value}
    (hargs : ∀ w ∈ args, W.good w) (name : String) :
    Lockstep W F F' (Operand.IsGood W) (applyValue enter v args name)
      (applyValue enter' v args name) := by
  unfold applyValue
  split
  · have hf := Value.isGood_of_callable? hv ‹_›
    exact .bind (Callable.lockstep_call henter hf hargs) fun _ hw ↦ .pure hw
  · exact Operand.steady_subscripted _ _ _ _
  · split
    · exact .bind (Builtin.steady_of_unwrap? hv ‹_›) fun _ hw ↦ .pure hw
    · exact .pure hv
    · exact .bind (Action.steady_typed _) fun _ _ ↦ .fail trivial

theorem lockstep_applyOperand {callee : Operand} (hcallee : callee.IsGood W) {args : List Value}
    (hargs : ∀ w ∈ args, W.good w) (name : String) :
    Lockstep W F F' (Operand.IsGood W) (applyOperand enter callee args name)
      (applyOperand enter' callee args name) := by
  refine .bind (Operand.steady_resolve hcallee) fun v hv ↦ ?_
  split
  · exact Operand.steady_subscripted _ _ _ _
  · exact lockstep_applyValue henter hv hargs name

theorem lockstep_callBuiltin (site : Site) (b : Builtin) (separators : List Separator)
    {operands operands' : Action (List Operand)}
    (h : Lockstep W F F' (fun xs ↦ ∀ x ∈ xs, x.IsGood W) operands operands') :
    Lockstep W F F' (Operand.IsGood W) (callBuiltin enter site b separators operands)
      (callBuiltin enter' site b separators operands') := by
  refine .get fun s _ _ ↦ ?_
  have henabled : (s.withFrames F').checkEnabled b = s.checkEnabled b := rfl
  rw [henabled]
  exact .bind (.ofFault (s.onlyFails_checkEnabled b) fun _ _ ↦ trivial) fun _ _ ↦
    .bind h fun _ hxs ↦ Builtin.lockstep_invoke henter b site separators hxs

end

theorem steady_calleeName (callee : Operand) (t : Tree) :
    Steady W F F' (fun _ ↦ True) (calleeName callee t) := by
  unfold calleeName
  split
  · exact .pure trivial
  · exact .pure trivial
  · exact .get fun s _ _ ↦ .ofStop (s.heap.faultless_describeTree t) fun _ _ ↦ trivial

theorem steady_selected (kind : JumpKind) (count : Nat) (v : Value) :
    Steady W F F' (fun _ ↦ True) (selected kind count v) := by
  unfold selected
  split
  · refine .bind (.ofNumber fun _ _ ↦ trivial) fun n _ ↦
      .bind (Action.steady_position n count) fun place _ ↦ ?_
    cases place with
    | element k => exact .pure trivial
    | inexact => exact .throw (W.stops_other id)
    | outside => exact .pure trivial
  · exact .bind (Action.steady_typed _) fun _ _ ↦ .fail trivial

/-- Calls are in lockstep if what is done inside them is. -/
theorem lockstep_inCall {α : Type} {P : α → Prop} {c c' : Closure} {args args' : Frame}
    (hname : c'.name = c.name) {act act' : Action α}
    (h : Lockstep W (args :: c.captured) (args' :: c'.captured) P act act') :
    Lockstep W F F' P (Action.inCall c args act) (Action.inCall c' args' act') := by
  refine ⟨fun s _ hs ↦ ?_⟩
  let inner : Session := { s with binders := s.binders.enter c args }
  have hentered : { s.withFrames F' with binders := (s.withFrames F').binders.enter c' args' } =
      inner.withFrames (args' :: c'.captured) := by
    simp only [inner, Binders.Stack.enter, Binders.Stack.callName, hname, Session.withFrames]
  have hfull : (s.withFrames F').binders.isFull = s.binders.isFull := rfl
  unfold Action.inCall Binders.Stack.enter?
  rw [hfull]
  cases s.binders.isFull with
  | true =>
    exact .fail hs trivial
  | false =>
    have hinner := h.run inner rfl ⟨hs.heap, hs.vars, hs.loops, hs.data⟩
    simp only [Bool.false_eq_true, if_false, hentered]
    generalize act inner = r, act' (inner.withFrames (args' :: c'.captured)) = r' at hinner
    have hback : ∀ {s' t : Session}, Kept W (args' :: c'.captured) inner s' t →
        Kept W F' s { s' with binders := s.binders }
          { t with binders := (s.withFrames F').binders } := by
      rintro s' t ⟨-, rfl, hall⟩
      exact ⟨rfl, rfl, hall.heap, hall.vars, hall.loops, hall.data⟩
    cases hinner with
    | ok ha hkept => exact .ok ha (hback hkept)
    | error he hkept => exact .error he (hback hkept)
    | escape he => exact .escape he

/-! ## Trees by their parts -/

/-- Two trees that are evaluated in lockstep. -/
abbrev Alike (W : World) (F F' : List Frame) (enter enter' : Closure → List Value → Action Value)
    (site : Site) (t t' : Tree) : Prop :=
  Lockstep W F F' (Operand.IsGood W) (eval enter site t) (eval enter' site t')

section
variable {enter enter' : Closure → List Value → Action Value} {site : Site} {σ : Tree → Tree}

theorem lockstep_evalAll {ts : List Tree}
    (h : ∀ t ∈ ts, Alike W F F' enter enter' site t (σ t)) :
    Lockstep W F F' (fun xs ↦ ∀ x ∈ xs, x.IsGood W) (evalAll enter site ts)
      (evalAll enter' site (ts.map σ)) := by
  induction ts with
  | nil => exact .pure (List.forall_mem_nil _)
  | cons t ts ih =>
    rw [List.forall_mem_cons] at h
    exact .bind h.1 fun _ hx ↦ .bind (ih h.2) fun _ hxs ↦ .pure (List.forall_mem_cons.2 ⟨hx, hxs⟩)

theorem lockstep_evalValues {ts : List Tree}
    (h : ∀ t ∈ ts, Alike W F F' enter enter' site t (σ t)) :
    Lockstep W F F' (fun vs ↦ ∀ v ∈ vs, W.good v) (evalValues enter site ts)
      (evalValues enter' site (ts.map σ)) := by
  induction ts with
  | nil => exact .pure (List.forall_mem_nil _)
  | cons t ts ih =>
    rw [List.forall_mem_cons] at h
    exact .bind h.1 fun _ hx ↦ .bind (Operand.steady_resolve hx) fun _ hv ↦
      .bind (ih h.2) fun _ hvs ↦ .pure (List.forall_mem_cons.2 ⟨hv, hvs⟩)

theorem lockstep_evalAt {ts : List Tree}
    (h : ∀ t ∈ ts, Alike W F F' enter enter' site t (σ t)) (position : Nat) :
    Lockstep W F F' (fun xs ↦ ∀ x ∈ xs, x.IsGood W) (evalAt enter site ts position)
      (evalAt enter' site (ts.map σ) position) := by
  induction ts generalizing position with
  | nil => exact .pure (List.forall_mem_nil _)
  | cons t ts ih =>
    rw [List.forall_mem_cons] at h
    cases position with
    | zero => exact .bind h.1 fun _ hx ↦ .pure (by simpa using hx)
    | succ position => exact ih h.2 position

theorem Alike.null : Alike W F F' enter enter' site .null .null :=
  .pure W.null

theorem Alike.number (x : Float) : Alike W F F' enter enter' site (.number x) (.number x) :=
  .pure (W.number x)

theorem Alike.string (s : String) : Alike W F F' enter enter' site (.string s) (.string s) :=
  .pure (W.string s)

theorem Alike.boolean (b : Bool) : Alike W F F' enter enter' site (.boolean b) (.boolean b) :=
  .pure (W.boolean b)

theorem Alike.ident {name : String} (hname : ∀ b ∈ Builtin.ofName? name, W.uses b) :
    Alike W F F' enter enter' site (.ident name) (.ident name) :=
  .pure hname

theorem Alike.value {v : Value} (hv : W.good v) :
    Alike W F F' enter enter' site (.value v) (.value v) :=
  .pure hv

theorem Alike.params (names : List String) :
    Alike W F F' enter enter' site (.params names) (.params names) :=
  .fail trivial

theorem Alike.define (name : String) (names : List String) (body : Tree) :
    Alike W F F' enter enter' site (.define name names body) (.define name names body) :=
  .get fun s _ _ ↦ .bind (.ofStop (s.heap.faultless_describeTree _) fun _ _ ↦ trivial) fun _ _ ↦
    .fail trivial

theorem Alike.array {elements : List Tree}
    (h : ∀ t ∈ elements, Alike W F F' enter enter' site t (σ t)) :
    Alike W F F' enter enter' site (.array elements) (.array (elements.map σ)) :=
  .bind (lockstep_evalValues h) fun _ hvs ↦ .bind (Action.steady_newArray hvs) fun _ hv ↦ .pure hv

theorem Alike.branch {condition yes : Tree} {no : Option Tree}
    (hcondition : Alike W F F' enter enter' site condition (σ condition))
    (hyes : Alike W F F' enter enter' site yes (σ yes))
    (hno : ∀ t ∈ no, Alike W F F' enter enter' site t (σ t)) :
    Alike W F F' enter enter' site (.branch condition yes no)
      (.branch (σ condition) (σ yes) (no.map σ)) := by
  refine .bind hcondition fun x hx ↦ .bind (Operand.steady_resolve hx) fun v _ ↦
    .ite (fun _ ↦ hyes) fun _ ↦ ?_
  cases no with
  | none => exact .pure W.null
  | some no => exact hno no rfl

section
variable (henter : Enters W F F' enter enter')

include henter

theorem Alike.unary {op : UnaryOperator} {operand operand' : Tree}
    (h : Alike W F F' enter enter' site operand operand') :
    Alike W F F' enter enter' site (.unary op operand) (.unary op operand') :=
  lockstep_callBuiltin henter site _ _ (.bind h fun _ hx ↦ .pure (by simpa using hx))

theorem Alike.binary {op : Operator} {left left' right right' : Tree}
    (hleft : Alike W F F' enter enter' site left left')
    (hright : Alike W F F' enter enter' site right right') :
    Alike W F F' enter enter' site (.binary op left right) (.binary op left' right') := by
  unfold Alike eval
  cases Builtin.ofOperator? op with
  | none => exact .fail trivial
  | some b =>
    exact lockstep_callBuiltin henter site b _ (.bind hleft fun _ hx ↦ .bind hright fun _ hy ↦
      .pure (by simpa using ⟨hx, hy⟩))

theorem Alike.call {name : String} {args : List Tree} {separators : List Separator}
    (h : ∀ t ∈ args, Alike W F F' enter enter' site t (σ t)) :
    Alike W F F' enter enter' site (.call name args separators)
      (.call name (args.map σ) separators) := by
  unfold Alike eval
  cases hb : Builtin.ofName? name with
  | none =>
    have hname : (Operand.reference name).IsGood W := by
      intro b hsome
      cases hb.symm.trans hsome
    exact .bind (lockstep_evalValues h) fun _ hvs ↦ lockstep_applyOperand henter hname hvs name
  | some b => exact lockstep_callBuiltin henter site b separators (lockstep_evalAll h)

/-- The callee is shown in diagnostics, so it has to be the same. -/
theorem Alike.apply {callee : Tree} {args : List Tree} {separators : List Separator}
    (hcallee : Alike W F F' enter enter' site callee callee)
    (h : ∀ t ∈ args, Alike W F F' enter enter' site t (σ t)) :
    Alike W F F' enter enter' site (.apply callee args separators)
      (.apply callee (args.map σ) separators) :=
  .bind hcallee fun f hf ↦ .bind (steady_calleeName f callee) fun name _ ↦
    .bind (lockstep_evalValues h) fun _ hvs ↦ lockstep_applyOperand henter hf hvs name

theorem Alike.select {kind : JumpKind} {test test' : Tree} {targets : List Tree}
    (htest : Alike W F F' enter enter' site test test')
    (h : ∀ t ∈ targets, Alike W F F' enter enter' site t (σ t)) :
    Alike W F F' enter enter' site (.select kind test targets)
      (.select kind test' (targets.map σ)) := by
  refine .bind htest fun x hx ↦ .bind (Operand.steady_resolve hx) fun v _ ↦ ?_
  rw [List.length_map]
  refine .bind (steady_selected kind _ v) fun found _ ↦ ?_
  cases found with
  | none => exact .pure W.null
  | some position =>
    exact .bind (lockstep_evalAt h position) fun _ hxs ↦
      Builtin.lockstep_invoke henter _ site [] hxs

end
end

/-! ## Trees and calls that fit -/

section
variable {enter enter' : Closure → List Value → Action Value} {site : Site}

theorem Alike.parameter {depth index : Nat} (h : W.fits F (.parameter depth index)) :
    Alike W F F enter enter' site (.parameter depth index) (.parameter depth index) := by
  refine .get fun s hF _ ↦ ?_
  have hframes : (s.withFrames F).binders = s.binders := by rw [← hF]; rfl
  rw [hframes]
  rw [← hF] at h
  cases hlookup : s.binders.lookup depth index with
  | ok v => exact .bind (P := W.good) (.pure (W.argument h hlookup)) fun _ hv ↦ .pure hv
  | error f => exact .throw (W.missing h hlookup)

theorem Alike.lambda {names : List String} {body : Tree} (h : W.fits F (.lambda names body)) :
    Alike W F F enter enter' site (.lambda names body) (.lambda names body) := by
  refine .get fun s hF _ ↦ ?_
  rw [Session.withFrames_frames, hF]
  exact .pure (W.lambda h)

/-- A tree that fits is evaluated in lockstep with itself. -/
theorem lockstep_eval (henter : Enters W F F enter enter') {t : Tree} (h : W.fits F t) :
    Alike W F F enter enter' site t t := by
  induction t using Tree.parts_induction with
  | step t ih =>
  have hparts : ∀ u ∈ t.parts, Alike W F F enter enter' site u (id u) := fun u hu ↦
    ih u hu (W.part h u hu)
  cases t with
  | null => exact .null
  | number x => exact .number x
  | string s => exact .string s
  | boolean b => exact .boolean b
  | ident name => exact .ident fun _ hb ↦ W.ident h hb
  | unary op operand => exact .unary henter (hparts operand (by simp [Tree.parts]))
  | binary op left right =>
    exact .binary henter (hparts left (by simp [Tree.parts])) (hparts right (by simp [Tree.parts]))
  | call name args separators =>
    have hcall : Alike W F F enter enter' site _ (.call name (args.map id) separators) :=
      .call henter hparts
    rwa [List.map_id] at hcall
  | apply callee args separators =>
    obtain ⟨hcallee, hargs⟩ := List.forall_mem_cons.1 hparts
    have happly : Alike W F F enter enter' site _ (.apply callee (args.map id) separators) :=
      .apply henter hcallee hargs
    rwa [List.map_id] at happly
  | array elements =>
    have harray : Alike W F F enter enter' site _ (.array (elements.map id)) := .array hparts
    rwa [List.map_id] at harray
  | params names => exact .params names
  | lambda names body => exact .lambda h
  | parameter depth index => exact .parameter h
  | branch condition yes no =>
    have hbranch : Alike W F F enter enter' site _ (.branch condition yes (no.map id)) :=
      .branch (hparts condition (by simp [Tree.parts])) (hparts yes (by simp [Tree.parts]))
        fun t ht ↦ hparts t (by simp [Tree.parts, Option.mem_def.1 ht])
    rwa [Option.map_id] at hbranch
  | select kind test targets =>
    obtain ⟨htest, htargets⟩ := List.forall_mem_cons.1 hparts
    have hselect : Alike W F F enter enter' site _ (.select kind test (targets.map id)) :=
      .select henter htest htargets
    rwa [List.map_id] at hselect
  | define name names body => exact .define name names body
  | value v => exact .value (W.value h)

end

theorem lockstep_callWithin
    (hbody : ∀ c args, W.good (.closure c) → (∀ v ∈ args, W.good v) →
      W.fits (args :: c.captured) c.body) (site : Site) (room : Nat) :
    Enters W F F' (callWithin site room) (callWithin site room) := by
  induction room generalizing F F' with
  | zero => exact fun c args _ _ ↦ .get fun s _ _ ↦ .fail trivial
  | succ room ih =>
    exact fun c args hc hargs ↦ lockstep_inCall rfl
      (.bind (lockstep_eval ih (hbody c args hc hargs)) fun _ hx ↦ Operand.steady_resolve hx)

end LineBasic
