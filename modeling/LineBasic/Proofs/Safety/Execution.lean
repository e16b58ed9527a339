import LineBasic.Proofs.Safety.Statements
import LineBasic.Proofs.Session.Reachable

/-!
# Statements end well

A statement ends with a value or with a fault, or for want of input; in a session with unfit
settings it may need one of them.  The only other way to end is a handle to an element that leads
nowhere: it was live when it was made, and an array that it leads through was replaced before it was
used.

* `lives_eval`, `entering_callWithin` — trees and calls.
* `place_of_execute` — the place of a fault.
* `execute_halts` — statements.
* `not_forall_reachable_execute_fault` — a handle that leads nowhere, in a session that is reached.
-/

set_option autoImplicit false
namespace LineBasic

variable {first s : Session}

/-! ## Builtins -/

/-- Actions that end well, where there is one. -/
def Safe? (first : Session) (o : Option (Action Value)) : Prop :=
  ∀ act ∈ o, Safe first act

namespace Safe?

theorem none : Safe? first none := nofun

theorem some {act : Action Value} (h : Safe first act) : Safe? first (some act) := by
  rintro _ ⟨⟩
  exact h

theorem orElse {x y : Option (Action Value)} (hx : Safe? first x) (hy : Safe? first y) :
    Safe? first (x <|> y) := by
  cases x with
  | none => exact hy
  | some act => exact hx

end Safe?

namespace Builtin

theorem safe_performOne? (b : Builtin) (site : Site) (v : Value) :
    Safe? first (b.performOne? site v) := by
  have helementary : Safe? first ((elementary? b).map fun f ↦ b.elementaryOf f v) := by
    cases elementary? b with
    | none => exact .none
    | some f => exact .some (b.safe_elementaryOf f v)
  cases b with
  | negate | positive => exact .some (.bind (safe_number _ v) fun _ ↦ .pure trivial)
  | not | ret | typeOf | test => exact .some (.pure trivial)
  | bitNot => exact .some (safe_bitNotOf _ v)
  | join => exact .some (safe_joinOf v)
  | random => exact .some (safe_randomOf _ v)
  | spaces => exact .some (safe_spacesOf _ v)
  | chr => exact .some (safe_chrOf _ v)
  | len => exact .some (safe_lenOf _ v)
  | head | last => exact .some (safe_endOf _ _ v)
  | tail | init => exact .some (safe_cutOf _ _ v)
  | reduce => exact .some (safe_reduceOf _ v)
  | listOf => exact .some (safe_listMonadOf _ v)
  | optionBase => exact .some (safe_optionBaseOf _ v)
  | optionDebug => exact .some (safe_optionDebugOf _ v)
  | optionTrace => exact .some (safe_optionTraceOf _ v)
  | textFore => exact .some (safe_textForeOf _ v)
  | textBack => exact .some (safe_textBackOf _ v)
  | peek => exact .some (safe_peekOf _ v)
  | printMonad => exact .some (safe_printMonadOf v)
  | resolve => exact .some (safe_resolveOf site v)
  | _ => exact helementary

theorem safe_performNone? (b : Builtin) : Safe? first b.performNone? := by
  cases b with
  | takeData => exact .some safe_nextDatum
  | restore => exact .some safe_restoreOf
  | clear => exact .some safe_clearOf
  | readText => exact .some safe_readTextOf
  | clearScreen => exact .some safe_clearScreenOf
  | keysDown => exact .some safe_keysDownOf
  | _ => exact .none

theorem safe_performAny? (b : Builtin) (separators : List Separator) (vs : List Value) :
    Safe? first (b.performAny? separators vs) := by
  cases b with
  | dim => exact .some (safe_dimOf _ vs)
  | sequence => exact .some (.pure trivial)
  | data => exact .some (safe_dataOf vs)
  | print | emit => exact .some (safe_printOf _ separators vs)
  | _ => exact .none

section
variable {enter : Closure → List Value → Action Value} (henter : Entering first enter)

include henter

theorem safe_performTwo? (b : Builtin) (v w : Value) : Safe? first (b.performTwo? enter v w) := by
  cases b with
  | plus => exact .some (safe_plusOf v w)
  | minus | times | min | max => exact .some (safe_arithmetic _ _ v w)
  | divide => exact .some (safe_divideOf _ v w)
  | quotient => exact .some (safe_quotientOf _ v w)
  | modulo => exact .some (safe_moduloOf _ v w)
  | power => exact .some (safe_powerOf _ v w)
  | equal | unequal | unlike => exact .some (.bind (safe_areEqual v w) fun _ ↦ .pure trivial)
  | less | greater | lessEq | eqLess | greaterEq | eqGreater =>
    exact .some (safe_compared _ _ _ v w)
  | shiftLeft | shiftRight => exact .some (safe_shift _ _ v w)
  | bitAnd | bitOr | bitXor => exact .some (safe_bitwise _ _ v w)
  | and | or => exact .some (safe_logical _ _ v w)
  | «to» => exact .some (safe_rangeOf _ v w)
  | step => exact .some (safe_stepOf _ v w)
  | cons => exact .some (safe_consOf v w)
  | snoc => exact .some (safe_snocOf v w)
  | concat => exact .some (safe_concatOf v w)
  | compose => exact .some (safe_composeOf _ v w)
  | apply => exact .some (safe_applyOf henter _ v w)
  | curry => exact .some (safe_curryOf v w)
  | bind => exact .some (safe_bindOf henter v w)
  | andThen => exact .some (safe_thenOf v w)
  | left => exact .some (safe_leftOf _ v w)
  | right => exact .some (safe_rightOf _ v w)
  | map => exact .some (safe_mapOf henter _ v w)
  | filter => exact .some (safe_filterOf henter _ v w)
  | moveCursor => exact .some (safe_moveCursorOf _ v w)
  | poke => exact .some (safe_pokeOf _ v w)
  | _ => exact .none

theorem safe_perform? (b : Builtin) (site : Site) (separators : List Separator) (vs : List Value) :
    Safe? first (b.perform? enter site separators vs) := by
  refine .orElse (b.safe_performAny? separators vs) ?_
  split
  · exact .none
  · exact .none
  · exact .some (safe_midOf _ _ _ _)
  · exact .some (safe_foldOf henter _ _ _ _)
  · exact .some (safe_plotOf _ _ _ _)
  · exact b.safe_performNone?
  · exact b.safe_performOne? site _
  · exact safe_performTwo? henter b _ _
  · exact .none

end

theorem closes_performRaw? (b : Builtin) (site : Site) {operands : List Operand}
    (hs : first.Evolves s) (h : ∀ x ∈ operands, x.WasLive first s) :
    ∀ act ∈ b.performRaw? site operands, Closes first s (fun x _ ↦ ¬ x.IsHandle) (act s) := by
  intro act hact
  unfold performRaw? at hact
  split at hact
  · cases hact
    exact closes_assignOf _ hs (h _ (by simp)) (h _ (by simp))
  · cases hact
    exact closes_memberOf _ hs (h _ (by simp))
  · cases hact
    exact (steers_loopOf _ site _).run s hs
  · cases hact
    exact (steers_loopOverOf _ site _).run s hs
  · cases hact
    exact (steers_nextOf _ _).run s hs
  · cases hact
    exact closes_gotoOf _ hs (h _ (by simp))
  · cases hact
    exact closes_gosubOf _ site hs (h _ (by simp))
  · cases hact
    exact steers_comeBackOf.run s hs
  · cases hact
    exact .pure id
  · cases hact
    exact closes_readOf _ hs (h _ (by simp))
  · cases hact
    exact (steers_labelOf site _).run s hs
  · cases hact
    exact closes_inputOf _ hs (h _ (by simp))
  · cases hact
    exact (steers_resolveVarOf _).run s hs
  · cases hact

theorem closes_invoke {enter : Closure → List Value → Action Value} (henter : Entering first enter)
    (b : Builtin) (site : Site) (separators : List Separator) {operands : List Operand}
    (hs : first.Evolves s) (h : ∀ x ∈ operands, x.WasLive first s) :
    Closes first s (fun x _ ↦ ¬ x.IsHandle) (b.invoke enter site separators operands s) := by
  rw [invoke]
  split
  · exact .throw (.fault rfl)
  have hraw := b.closes_performRaw? site hs h
  generalize b.performRaw? site operands = raw at hraw
  cases raw with
  | some act => exact hraw act rfl
  | none =>
    refine (Operand.closes_resolveAll hs h).bind hs fun vs s' hs' _ _ ↦ Yields.run ?_ s' hs'
    have hperform := safe_perform? henter b site separators vs
    generalize b.perform? enter site separators vs = act at hperform
    cases act with
    | some act => exact .bind (hperform act rfl) fun _ ↦ .pure id
    | none => exact .fail rfl

end Builtin

/-! ## Subscripts -/

theorem Heap.follow_append {h : Heap} {base place : Nat} {way : List Nat}
    (hfollow : h.follow base way = .ok place) {index inner : Nat}
    (hchild : h.child? place index = some inner) :
    h.follow base (way ++ [index]) = .ok inner := by
  induction way generalizing base with
  | nil =>
    cases hfollow
    rw [child?] at hchild
    split at hchild
    · rename_i heq
      cases hchild
      rw [List.nil_append, follow, heq]
      rfl
    · cases hchild
  | cons i way ih =>
    rw [follow] at hfollow
    rw [List.cons_append, follow]
    split at hfollow
    · cases hfollow
    · exact ih hfollow
    · cases hfollow

namespace Operand

/-- The offset of an element that there is; only index bases that are no integers give none. -/
theorem closes_offset? (hs : first.Evolves s) (name : String) (size : Nat) (arg : Value) :
    Closes first s (fun found s' ↦ s' = s ∧ (∀ k, found = some k → k < size) ∧
      (found = none → s.indexBase.whole? = none)) (offset? name size arg s) := by
  unfold offset?
  split
  · rename_i x
    cases Number.truncate x with
    | error mishap => exact .error .refl (.inherent trivial)
    | ok n =>
      change Closes first s _ ((Action.position n size >>= _) s)
      refine (Action.closes_position hs n size).bind hs fun found s' _ _ hfound ↦ ?_
      obtain ⟨rfl, hindex, hbase⟩ := hfound
      cases found with
      | element k => exact .ok .refl ⟨rfl, fun j hj ↦ Option.some.inj hj ▸ hindex k rfl, nofun⟩
      | inexact => exact .ok .refl ⟨rfl, nofun, fun _ ↦ hbase rfl⟩
      | outside => exact .throw (.fault rfl)
  · exact ((Action.safe_typed _).run s hs).bind hs fun _ _ _ _ _ ↦ .throw (.fault rfl)

theorem closes_descend (hs : first.Evolves s) (base : Nat) (name : String) (count : Nat)
    {place : Nat} {way : List Nat} (hfollow : s.heap.follow base way = .ok place) (arg : Value)
    (args : List Value) :
    Closes first s (fun x s' ↦ x.IsLive s') (descend base name count place way arg args s) := by
  induction args generalizing place way arg with
  | nil =>
    refine .get ?_
    refine (closes_offset? hs name _ arg).bind hs fun found s' _ _ hfound ↦ ?_
    obtain ⟨rfl, hindex, hbase⟩ := hfound
    cases found with
    | some index =>
      have hsome : (s'.heap.elements place)[index]? = some _ :=
        Array.getElem?_eq_getElem (hindex index rfl)
      have hread := Heap.readElement_eq_ok.2 ⟨place, hfollow, hsome⟩
      exact .ok .refl ⟨access_element.2 ⟨_, hread⟩, nofun⟩
    | none =>
      refine .ok .refl ⟨access_inexact.2 ⟨place, hfollow⟩, fun _ _ _ _ ↦ hbase rfl⟩
  | cons next args ih =>
    refine .get ?_
    refine (closes_offset? hs name _ arg).bind hs fun found s' _ _ hfound ↦ ?_
    obtain ⟨rfl, -, hbase⟩ := hfound
    cases found with
    | some index =>
      refine .get ?_
      cases hchild : s'.heap.child? place index with
      | some inner => exact ih (Heap.follow_append hfollow hchild) next
      | none => exact .throw (.fault rfl)
    | none => exact .throw (.misfit (hs.isUnfit (.inl (hbase rfl))))

/-- Subscripts lead to an element, if there is an array that they start from. -/
theorem closes_subscripted (hs : first.Evolves s) {base place : Nat} {way : List Nat}
    (hfollow : s.heap.follow base way = .ok place) (name : String) (args : List Value) :
    Closes first s (fun x s' ↦ x.IsLive s') (subscripted base way name args s) := by
  cases args with
  | nil => exact .throw (.fault rfl)
  | cons arg more =>
    refine .get ?_
    rw [hfollow]
    exact closes_descend hs base name _ hfollow arg more

end Operand

/-! ## Functions -/

section
variable {enter : Closure → List Value → Action Value} (henter : Entering first enter)

include henter

theorem lives_applyValue (v : Value) (args : List Value) (name : String) :
    Lives first (applyValue enter v args name) := by
  have hvalue : ∀ {act : Action Value}, Safe first act →
      Lives first (do return .value (← act)) := fun hact ↦
    Steers.lives (.bind hact fun _ ↦ .pure id)
  unfold applyValue
  split
  · exact hvalue (Callable.safe_call henter _ _)
  · exact ⟨fun s hs ↦ Operand.closes_subscripted hs rfl _ _⟩
  · split
    · exact hvalue (Builtin.safe_of_unwrap? ‹_›)
    · exact Steers.lives (.pure id)
    · exact .bind (Action.safe_typed _) fun _ ↦ .fail rfl

theorem closes_applyOperand (hs : first.Evolves s) {callee : Operand}
    (hcallee : callee.WasLive first s) (args : List Value) (name : String) :
    Closes first s (fun x s' ↦ x.IsLive s') (applyOperand enter callee args name s) := by
  unfold applyOperand
  refine (Operand.closes_resolve hs hcallee).bind hs fun v s' hs' _ hread ↦ ?_
  split
  · rename_i base way index name' inner
    obtain ⟨place, hfollow, hv⟩ := Heap.readElement_eq_ok.1 (hread base way index name' rfl)
    have hchild : s'.heap.child? place index = some inner := by rw [Heap.child?, hv]
    exact Operand.closes_subscripted hs' (Heap.follow_append hfollow hchild) name args
  · exact (lives_applyValue henter v args name).run s' hs'

theorem closes_callBuiltin (hs : first.Evolves s) (site : Site) (b : Builtin)
    (separators : List Separator) {operands : Action (List Operand)}
    (h : Closes first s (fun xs s' ↦ ∀ x ∈ xs, x.WasLive first s') (operands s)) :
    Closes first s (fun x s' ↦ x.IsLive s')
      (callBuiltin enter site b separators operands s) := by
  refine .get ?_
  cases henabled : s.checkEnabled b with
  | error f => exact .throw (.fault (s.refuses_of_checkEnabled b f henabled).isUnplaced)
  | ok _ =>
    change Closes first s _ ((operands >>= b.invoke enter site separators) s)
    refine h.bind hs fun xs s' hs' _ hxs ↦ ?_
    exact (Builtin.closes_invoke henter b site separators hs' hxs).mono fun _ _ _ hx ↦
      Operand.isLive_of_not_isHandle hx

end

theorem safe_calleeName (callee : Operand) (t : Tree) : Safe first (calleeName callee t) := by
  unfold calleeName
  split
  · exact .pure trivial
  · exact .pure trivial
  · exact .get fun s _ ↦ .ofInherent (s.heap.inherent_describeTree t)

theorem safe_selected (kind : JumpKind) (count : Nat) (v : Value) :
    Safe first (selected kind count v) := by
  unfold selected
  split
  · refine .bind (.ofNumber _) fun n ↦ ⟨fun s hs ↦ ?_⟩
    refine (Action.closes_position hs n count).bind hs fun found s' _ _ hfound ↦ ?_
    obtain ⟨rfl, -, hbase⟩ := hfound
    cases found with
    | element k => exact .ok .refl trivial
    | inexact => exact .throw (.misfit (hs.isUnfit (.inl (hbase rfl))))
    | outside => exact .ok .refl trivial
  · exact .bind (Action.safe_typed _) fun _ ↦ .fail rfl

theorem safe_inCall {α : Type} {act : Action α} (h : Safe first act) (c : Closure) (args : Frame) :
    Safe first (Action.inCall c args act) := by
  refine ⟨fun s hs ↦ ?_⟩
  rw [Action.inCall]
  cases henter : s.binders.enter? c args with
  | error f =>
    rw [Binders.Stack.enter?] at henter
    split at henter
    · cases henter
      exact .error .refl (.fault rfl)
    · cases henter
  | ok inner =>
    have hframed : s.Change { s with binders := inner } := .framed inner
    have hact := h.run _ (hs.tail hframed)
    simp only
    generalize act { s with binders := inner } = r at hact
    cases hact with
    | ok hs' _ => exact .ok ((Relation.ReflTransGen.head hframed hs').tail (.framed _)) trivial
    | error hs' hstop =>
      exact .error ((Relation.ReflTransGen.head hframed hs').tail (.framed _)) (hstop.framed _)

/-! ## Trees -/

section
variable {enter : Closure → List Value → Action Value} {site : Site}

theorem closes_evalAll {ts : List Tree} (h : ∀ t ∈ ts, Lives first (eval enter site t))
    (hs : first.Evolves s) :
    Closes first s (fun xs s' ↦ ∀ x ∈ xs, x.WasLive first s') (evalAll enter site ts s) := by
  induction ts generalizing s with
  | nil => exact .ok .refl (List.forall_mem_nil _)
  | cons t ts ih =>
    rw [List.forall_mem_cons] at h
    refine (h.1.run s hs).bind hs fun x s₁ hs₁ _ hx ↦
      (ih h.2 hs₁).bind hs₁ fun xs s₂ _ hsince hxs ↦ ?_
    exact .ok .refl (List.forall_mem_cons.2 ⟨(hx.wasLive hs₁).mono hsince, hxs⟩)

theorem safe_evalValues {ts : List Tree} (h : ∀ t ∈ ts, Lives first (eval enter site t)) :
    Safe first (evalValues enter site ts) := by
  induction ts with
  | nil => exact .pure trivial
  | cons t ts ih =>
    rw [List.forall_mem_cons] at h
    exact h.1.resolve_bind fun _ ↦ .bind (ih h.2) fun _ ↦ .pure trivial

theorem closes_evalAt {ts : List Tree} (h : ∀ t ∈ ts, Lives first (eval enter site t))
    (hs : first.Evolves s) (position : Nat) :
    Closes first s (fun xs s' ↦ ∀ x ∈ xs, x.WasLive first s')
      (evalAt enter site ts position s) := by
  induction ts generalizing position with
  | nil => exact .ok .refl (List.forall_mem_nil _)
  | cons t ts ih =>
    rw [List.forall_mem_cons] at h
    cases position with
    | zero =>
      refine (h.1.run s hs).bind hs fun x s' hs' _ hx ↦ .ok .refl ?_
      simpa using hx.wasLive hs'
    | succ position => exact ih h.2 position

/-- A tree is evaluated to a live operand, or ends well. -/
theorem lives_eval (henter : Entering first enter) (t : Tree) :
    Lives first (eval enter site t) := by
  have hplain : ∀ {act : Action Operand}, Steers first act → Lives first act := Steers.lives
  induction t using Tree.parts_induction with
  | step t ih =>
  cases t with
  | null | number | string | boolean | ident | value => exact hplain (.pure id)
  | unary op operand =>
    have hoperand := ih operand (by simp [Tree.parts])
    refine ⟨fun s hs ↦ closes_callBuiltin henter hs site _ _ ?_⟩
    refine (hoperand.run s hs).bind hs fun x s' hs' _ hx ↦ .ok .refl ?_
    simpa using hx.wasLive hs'
  | binary op left right =>
    have hleft := ih left (by simp [Tree.parts])
    have hright := ih right (by simp [Tree.parts])
    unfold eval
    cases Builtin.ofOperator? op with
    | none => exact .fail rfl
    | some b =>
      refine ⟨fun s hs ↦ closes_callBuiltin henter hs site _ _ ?_⟩
      refine (hleft.run s hs).bind hs fun x s₁ hs₁ _ hx ↦
        (hright.run s₁ hs₁).bind hs₁ fun y s₂ hs₂ hsince hy ↦ .ok .refl ?_
      simpa using ⟨(hx.wasLive hs₁).mono hsince, hy.wasLive hs₂⟩
  | call name args separators =>
    unfold eval
    cases Builtin.ofName? name with
    | none =>
      refine .bind (safe_evalValues ih) fun vs ↦ ⟨fun s hs ↦ ?_⟩
      have hname : (Operand.reference name).IsLive s := Operand.isLive_of_not_isHandle id
      exact closes_applyOperand henter hs (hname.wasLive hs) vs name
    | some b => exact ⟨fun s hs ↦ closes_callBuiltin henter hs site b _ (closes_evalAll ih hs)⟩
  | apply callee args separators =>
    obtain ⟨hcallee, hargs⟩ := List.forall_mem_cons.1 ih
    refine ⟨fun s hs ↦ (hcallee.run s hs).bind hs fun f s₁ hs₁ _ hf ↦ ?_⟩
    refine ((safe_calleeName f callee).run s₁ hs₁).bind hs₁ fun name s₂ hs₂ hsince₂ _ ↦ ?_
    refine ((safe_evalValues hargs).run s₂ hs₂).bind hs₂ fun vs s₃ hs₃ hsince₃ _ ↦ ?_
    exact closes_applyOperand henter hs₃ ((hf.wasLive hs₁).mono (hsince₂.trans hsince₃)) vs name
  | array elements =>
    exact hplain (.bind (safe_evalValues ih) fun vs ↦
      .bind (Action.safe_newArray vs) fun _ ↦ .pure id)
  | params names => exact .fail rfl
  | lambda names body => exact hplain (.get fun _ _ ↦ .pure id)
  | parameter depth index =>
    refine hplain (.get fun s _ ↦ .bind (.ofFault ?_) fun _ ↦ .pure id)
    refine (s.binders.unbound_of_lookup depth index).mono ?_
    rintro f ⟨context, rfl⟩
    rfl
  | branch condition yes no =>
    have hcondition := ih condition (by simp [Tree.parts])
    have hyes := ih yes (by simp [Tree.parts])
    have hno : Lives first (evalElse enter site no) := by
      cases no with
      | none => exact hplain (.pure id)
      | some no => exact ih no (by simp [Tree.parts])
    exact hcondition.resolve_bind fun _ ↦ .ite (fun _ ↦ hyes) fun _ ↦ hno
  | select kind test targets =>
    obtain ⟨htest, htargets⟩ := List.forall_mem_cons.1 ih
    refine htest.resolve_bind fun v ↦ .bind (safe_selected kind _ v) fun found ↦ ?_
    cases found with
    | none => exact hplain (.pure id)
    | some position =>
      refine hplain ⟨fun s hs ↦ ?_⟩
      refine (closes_evalAt htargets hs position).bind hs fun xs s' hs' _ hxs ↦ ?_
      exact Builtin.closes_invoke henter _ site [] hs' hxs
  | define name names body =>
    exact .get fun s _ ↦ .bind (.ofInherent (s.heap.inherent_describeTree _)) fun _ ↦ .fail rfl

end

theorem entering_callWithin (site : Site) (room : Nat) : Entering first (callWithin site room) := by
  induction room with
  | zero => exact fun c args ↦ .get fun _ _ ↦ .fail rfl
  | succ room ih =>
    intro c args
    have hbody : Safe first (do (← eval (callWithin site room) site c.body).resolve) :=
      ⟨fun s hs ↦ ((lives_eval ih c.body).run s hs).bind hs fun _ _ hs' _ hx ↦
        (Operand.closes_resolve hs' (hx.wasLive hs')).mono fun _ _ _ _ ↦ trivial⟩
    exact safe_inCall hbody c args

/-! ## Statements -/

theorem lives_evaluate (site : Site) (t : Tree) : Lives first (evaluate site t) :=
  .get fun s _ ↦ lives_eval (entering_callWithin site s.room) t

/-- What a statement stops with: what lies in the values at hand has become a fault. -/
theorem Session.MayStop.settle {stop : Stop} (h : first.MayStop s stop) (site : Site) :
    first.Halts s (stop.settle site) := by
  cases h with
  | halts h _ =>
    cases h with
    | fault f => exact .fault _
    | endOfInput h => exact .endOfInput h
    | stale hstop hmade hsince hlive hdead =>
      have hsame : stop.settle site = stop := by
        obtain rfl | rfl := hstop <;> rfl
      rw [hsame]
      exact .stale hstop hmade hsince hlive hdead
    | misfit h => exact .misfit h
  | inherent h =>
    cases stop with
    | mishap mishap => cases mishap <;> exact .fault _
    | endlessNesting => exact .fault _
    | _ => cases h

/-- A fault that a statement stops with is attributed to the place of the statement. -/
theorem Session.MayStop.place_of_settle {stop : Stop} (h : first.MayStop s stop) {site : Site}
    (hsite : 0 ≤ site.line) {f : Fault} (hf : stop.settle site = .fault f) :
    f.line = some site.line ∧ f.statement = some ↑site.statement := by
  have hlocated (g : Fault) (hg : g.IsUnplaced) (hfault : Stop.settle.located site g = .fault f) :
      f.line = some site.line ∧ f.statement = some ↑site.statement := by
    cases hfault
    rw [Fault.locate, if_pos ⟨hg, hsite⟩]
    exact ⟨rfl, rfl⟩
  cases stop with
  | fault g =>
    cases h with
    | halts _ hplace => exact hlocated g hplace hf
    | inherent h => cases h
  | mishap mishap =>
    cases mishap with
    | overflow text => exact hlocated (.divisionByZero text) rfl hf
    | undefined text => exact hlocated (.badCall text) rfl hf
  | endlessNesting => exact hlocated .endless rfl hf
  | endOfInput | staleArray | staleSubscript | misfit | outOfFuel => cases hf

/-- What a statement does before its stops are settled. -/
theorem closes_outcome (site : Site) (t : Tree) (s : Session) : Closes s s (fun _ _ ↦ True)
    ((evaluate site t >>= fun x ↦ x.outcome site) s) := by
  refine ((lives_evaluate site t).run s .refl).bind .refl fun x s' hs' _ hx ↦ ?_
  have hresolved : Closes s s' (fun _ _ ↦ True)
      ((do return (← x.resolve, site.next) : Action (Value × Site)) s') :=
    (Operand.closes_resolve hs' (hx.wasLive hs')).bind hs' fun _ _ _ _ _ ↦ .ok .refl trivial
  cases x with
  | jump target => exact .ok .refl trivial
  | _ => exact hresolved

/-- A fault of a stored statement is attributed to the place of the statement. -/
theorem place_of_execute {site : Site} {t : Tree} {f : Fault} {s' : Session}
    (h : execute site t s = .error (.fault f) s') (hsite : 0 ≤ site.line) :
    f.line = some site.line ∧ f.statement = some ↑site.statement := by
  have houtcome := closes_outcome site t s
  rw [execute, Action.settled] at h
  generalize (evaluate site t >>= fun x ↦ x.outcome site) s = r at houtcome h
  cases houtcome with
  | ok => cases h
  | error _ hstop =>
    obtain ⟨hf, -⟩ := EStateM.Result.error.inj h
    exact hstop.place_of_settle hsite hf

theorem closes_execute (site : Site) (t : Tree) (s : Session) :
    (∃ p s', execute site t s = .ok p s' ∧ s.Evolves s') ∨
      ∃ stop s', execute site t s = .error stop s' ∧ s.Evolves s' ∧ s.Halts s' stop := by
  have houtcome := closes_outcome site t s
  rw [execute, Action.settled]
  generalize (evaluate site t >>= fun x ↦ x.outcome site) s = r at houtcome
  cases houtcome with
  | ok hs _ => exact .inl ⟨_, _, rfl, hs⟩
  | error hs hstop => exact .inr ⟨_, _, rfl, hs, hstop.settle site⟩

theorem isLive_of_evaluate {site : Site} {t : Tree} {x : Operand} {s' : Session}
    (h : evaluate site t s = .ok x s') : x.IsLive s' := by
  have hlives := (lives_evaluate site t).run s .refl
  rw [h] at hlives
  cases hlives with
  | ok _ hx => exact hx

/-- A statement ends with a value, with a fault, for want of input when there is none, for want of
a fitting setting when one is unfit, or at a handle that was live earlier in the statement and leads
nowhere now.  A handle is live when it is made, and one that leads nowhere later does so because
something else was put in the place of an array in an array in the meantime. -/
theorem execute_halts (site : Site) (t : Tree) (s : Session) :
    ((∃ p s', execute site t s = .ok p s' ∧ s.Evolves s') ∨
      ∃ stop s', execute site t s = .error stop s' ∧ s.Evolves s' ∧ s.Halts s' stop) ∧
    (∀ x s', evaluate site t s = .ok x s' → x.IsLive s') ∧
    ∀ (made s' : Session) (operand : Operand) (stop : Stop), made.Evolves s' →
      operand.access made.heap = .ok () → operand.access s'.heap = .error stop →
      ∃ s₁ s₂, made.Evolves s₁ ∧ s₁.Replaces s₂ ∧ s₂.Evolves s' :=
  ⟨closes_execute site t s, fun _ _ hx ↦ isLive_of_evaluate hx,
    fun _ _ _ _ hsince hlive hdead ↦ hsince.exists_replaces hlive hdead⟩

/-- After `A = {{TRUE}}`, the statement `A(0, 0) = (A(0) = TRUE)` replaces the inner array before it
assigns to an element of it. -/
theorem exists_reachable_staleArray : ∃ past s t s', s.Reachable past ∧ t.IsResolved ∧
    execute ⟨1, 1⟩ t s = .error .staleArray s' := by
  let assignment : Tree := .binary .assign (.ident "A") (.array [.array [.boolean true]])
  let replacement : Tree := .binary .assign (.call "A" [.number 0, .number 0] [])
    (.binary .assign (.call "A" [.number 0] []) (.boolean true))
  have hassignment : assignment.resolve.IsResolved :=
    ⟨assignment, .expression ⟨trivial, ⟨trivial, trivial⟩, trivial⟩, rfl⟩
  have hreplacement : replacement.resolve.IsResolved :=
    ⟨replacement, .expression ⟨⟨trivial, trivial, trivial⟩, ⟨trivial, trivial⟩, trivial⟩, rfl⟩
  have hends : Ends (fun s ↦ Ends (fun _ ↦ True) (fun _ ↦ False) (· = .staleArray)
      (execute ⟨1, 1⟩ replacement.resolve s)) (fun _ ↦ True) (fun _ ↦ False)
      (execute ⟨1, 0⟩ assignment.resolve (.start {} {} .unavailable 0)) := by decide +kernel
  obtain ⟨_, s, hassigned, -, hfails⟩ := hends.exists_ok
  obtain ⟨_, s', hreplaced, rfl, -⟩ := hfails.exists_error
  exact ⟨_, s, _, s', (Session.Reachable.start {} {} .unavailable 0).executed hassignment hassigned,
    hreplacement, hreplaced⟩

/-- Not every statement that is executed in a reachable session ends with a value, with a fault or
for want of input. -/
theorem not_forall_reachable_execute_fault :
    ¬ ∀ past s, Session.Reachable past s → ∀ site t, t.IsResolved →
      (∃ p s', execute site t s = .ok p s') ∨
      (∃ f s', execute site t s = .error (.fault f) s') ∨
      ∃ s', execute site t s = .error .endOfInput s' ∧ s'.console.input = [] := by
  intro h
  obtain ⟨past, s, t, s', hs, ht, hstale⟩ := exists_reachable_staleArray
  obtain ⟨p, s₁, hok⟩ | ⟨f, s₁, hfault⟩ | ⟨s₁, hinput, -⟩ := h past s hs ⟨1, 1⟩ t ht
  · cases hstale.symm.trans hok
  · cases hstale.symm.trans hfault
  · cases hstale.symm.trans hinput

/-- In such a session, an array was replaced that a handle leads through. -/
theorem execute_halts_of_replaced : ∃ past s t s', s.Reachable past ∧
    execute ⟨1, 1⟩ t s = .error .staleArray s' ∧ s.Evolves s' ∧
    ∃ (made : Session) (operand : Operand) (s₁ s₂ : Session), s.Evolves made ∧
      operand.access made.heap = .ok () ∧ made.Evolves s₁ ∧ s₁.Replaces s₂ ∧ s₂.Evolves s' := by
  obtain ⟨past, s, t, s', hs, -, hstale⟩ := exists_reachable_staleArray
  obtain ⟨hends, -, hreplaced⟩ := execute_halts ⟨1, 1⟩ t s
  obtain ⟨p, s₁, hok, -⟩ | ⟨stop, s₁, herror, hevolves, hhalts⟩ := hends
  · cases hstale.symm.trans hok
  · cases hstale.symm.trans herror
    cases hhalts with
    | @stale made operand stop _ hmade hsince hlive hdead =>
      obtain ⟨s₁, s₂, h₁, h₁₂, h₂⟩ := hreplaced made s' operand _ hsince hlive hdead
      exact ⟨past, s, t, s', hs, hstale, hevolves, made, operand, s₁, s₂, hmade, hlive, h₁, h₁₂, h₂⟩

end LineBasic
