import LineBasic.Proofs.Session.Assigned
import LineBasic.Proofs.Writes.Builtins

/-!
# What the head of a loop changes

The head of a loop has to come to an assignment: that of a value to a target, made by `=` or by
`READ`, or named by `IN`.  The loop variable is the variable that the assignment names.  Where the
target is a variable, opening the loop gives it its first value and does nothing else.  Where the
target is an element of an array, what the loop runs over is written to the element, and the loop
variable is the one that the array was reached by.

* `Tree.EndsIn`, `Tree.endsIn_of_eval` — the call that a tree comes to an assignment by.
* `Builtin.Pairs`, `Operand.Puts` — a target and a value, and writing the one to the other.
* `Session.Opens` — a session in which a loop was opened.
* `execute_loopHead` — the result.
-/

set_option autoImplicit false
namespace LineBasic

/-! ## Assignments to any name -/

section
variable {s s' : Session} {name : String} {v : Value}

/-- Whatever the name, it has the value that was assigned to it, and other names have theirs. -/
theorem Session.takes_of_assign (h : s.assign name v = .ok s') : s.Takes name v s.loops s' := by
  obtain ⟨vars, hvars, rfl⟩ := eq_of_assign h
  rw [Variables.define] at hvars
  split at hvars
  · cases hvars
  · rename_i hconstant
    cases hvars
    refine ⟨?_, fun other hother ↦ ?_, rfl⟩
    · rw [Option.not_isSome_iff_eq_none] at hconstant
      rw [Variables.lookup?, hconstant]
      exact Table.get?_insert_self _ _ _
    · simp only [Variables.lookup?, Table.get?_insert_of_ne _ _ hother]

theorem Session.eq_withVars (h : s.assign name v = .ok s') : s' = { s with vars := s'.vars } := by
  obtain ⟨vars, -, rfl⟩ := eq_of_assign h
  rfl

end

/-! ## What comes to an assignment -/

/-- The builtins that come to an assignment: those that make one and `IN`, which names one. -/
def Builtin.isAssigner : Builtin → Bool
  | .assign | .member | .read | .input => true
  | _ => false

/-- Anything but an assignment. -/
def Operand.IsOther (x : Operand) : Prop :=
  ∀ name v, x ≠ .assignment name v

theorem Operand.isOther_value (v : Value) : (value v).IsOther :=
  nofun

theorem Operand.IsControl.isOther {x : Operand} (h : x.IsControl) : x.IsOther := by
  rintro name v rfl
  exact h

section
variable {enter : Closure → List Value → Action Value} {site : Site}

namespace Builtin

theorem gives_performRaw? {b : Builtin} {xs : List Operand} {act : Action Operand}
    (hb : b.isAssigner = false) (h : b.performRaw? site xs = some act) :
    Gives Operand.IsOther act := by
  have hcontrol {act : Action Operand} (h : Gives Operand.IsControl act) :
      Gives Operand.IsOther act := h.mono fun _ ↦ Operand.IsControl.isOther
  unfold performRaw? at h
  split at h <;> cases h <;> try contradiction
  · exact hcontrol (gives_loopOf _ site _)
  · exact hcontrol (gives_loopOverOf _ site _)
  · exact hcontrol (gives_nextOf _ _)
  · exact hcontrol (gives_gotoOf _ _)
  · exact hcontrol (gives_gosubOf _ site _)
  · exact hcontrol gives_comeBackOf
  · exact .pure nofun
  · exact hcontrol (gives_labelOf site _)
  · exact (gives_resolveVarOf _).mono fun _ ⟨_, hx⟩ ↦ hx ▸ nofun

theorem gives_invoke {b : Builtin} (hb : b.isAssigner = false) (separators : List Separator)
    (xs : List Operand) : Gives Operand.IsOther (b.invoke enter site separators xs) := by
  refine .ite (.fail _) ?_
  cases hraw : b.performRaw? site xs with
  | some act => exact gives_performRaw? hb hraw
  | none =>
    refine .bind fun vs ↦ ?_
    cases b.perform? enter site separators vs with
    | some act => exact .bind fun _ ↦ .pure nofun
    | none => exact .fail _

end Builtin

theorem gives_callBuiltin {b : Builtin} (hb : b.isAssigner = false) (separators : List Separator)
    (operands : Action (List Operand)) :
    Gives Operand.IsOther (callBuiltin enter site b separators operands) :=
  .bind fun _ ↦ .bind fun _ ↦ .bind fun xs ↦ Builtin.gives_invoke hb separators xs

theorem Operand.gives_descend (base : Nat) (name : String) (count place : Nat) (way : List Nat)
    (arg : Value) (args : List Value) :
    Gives IsOther (descend base name count place way arg args) := by
  induction args generalizing place way arg with
  | nil =>
    refine .bind fun _ ↦ .bind fun found ↦ ?_
    cases found with
    | some index => exact .pure nofun
    | none => exact .pure nofun
  | cons next args ih =>
    refine .bind fun _ ↦ .bind fun found ↦ ?_
    cases found with
    | none => exact .throw _
    | some index =>
      refine .bind fun s ↦ ?_
      split
      · exact ih _ _ _
      · exact .fail _

theorem Operand.gives_subscripted (base : Nat) (way : List Nat) (name : String)
    (args : List Value) : Gives IsOther (subscripted base way name args) := by
  cases args with
  | nil => exact .fail _
  | cons arg more => exact .bind fun _ ↦ .bind fun _ ↦ gives_descend _ _ _ _ _ _ _

theorem gives_applyValue (v : Value) (args : List Value) (name : String) :
    Gives Operand.IsOther (applyValue enter v args name) := by
  unfold applyValue
  split
  · exact .bind fun _ ↦ .pure nofun
  · exact Operand.gives_subscripted _ _ _ _
  · split
    · exact .bind fun _ ↦ .pure nofun
    · exact .pure nofun
    · exact .bind fun _ ↦ .fail _

theorem gives_applyOperand (callee : Operand) (args : List Value) (name : String) :
    Gives Operand.IsOther (applyOperand enter callee args name) := by
  refine .bind fun v ↦ ?_
  split
  · exact Operand.gives_subscripted _ _ _ _
  · exact gives_applyValue _ _ _

/-- A tree comes to what a builtin gives for operands, once these are there: as an operator between
its operands, as a call, or in the branch that a conditional goes on with. -/
inductive Tree.EndsIn (enter : Closure → List Value → Action Value) (site : Site) :
    Tree → Session → Builtin → List Operand → Session → Prop
  | binary {op b left right s x s₁ y s₂} (hb : Builtin.ofOperator? op = some b)
      (hleft : eval enter site left s = .ok x s₁) (hright : eval enter site right s₁ = .ok y s₂) :
      EndsIn enter site (.binary op left right) s b [x, y] s₂
  | call {name args separators b s xs s'} (hb : Builtin.ofName? name = some b)
      (hargs : evalAll enter site args s = .ok xs s') :
      EndsIn enter site (.call name args separators) s b xs s'
  | yes {condition yes no s v s₁ b xs s'}
      (hcondition : (eval enter site condition >>= Operand.resolve) s = .ok v s₁)
      (hv : v.isTruthy = true) (h : EndsIn enter site yes s₁ b xs s') :
      EndsIn enter site (.branch condition yes no) s b xs s'
  | no {condition yes no s v s₁ b xs s'}
      (hcondition : (eval enter site condition >>= Operand.resolve) s = .ok v s₁)
      (hv : v.isTruthy = false) (h : EndsIn enter site no s₁ b xs s') :
      EndsIn enter site (.branch condition yes (some no)) s b xs s'

/-- A tree that comes to an assignment ends in the call of a builtin that does. -/
theorem Tree.endsIn_of_eval {t : Tree} {s s' : Session} {name : String} {v : Value}
    (h : eval enter site t s = .ok (.assignment name v) s') :
    ∃ b separators xs s₁, b.isAssigner = true ∧ t.EndsIn enter site s b xs s₁ ∧
      b.invoke enter site separators xs s₁ = .ok (.assignment name v) s' := by
  have hassigner {b : Builtin} {separators : List Separator} {xs : List Operand} {s₁ : Session}
      (h : b.invoke enter site separators xs s₁ = .ok (.assignment name v) s') :
      b.isAssigner = true := by
    refine Bool.of_not_eq_false fun hb ↦ ?_
    exact Builtin.gives_invoke hb separators xs s₁ _ s' h name v rfl
  have hother {act : Action Operand} (hact : Gives Operand.IsOther act) {s : Session}
      (h : act s = .ok (.assignment name v) s') : False := hact s _ s' h name v rfl
  have hvalue (v : Value) : (Operand.value v).IsOther := Operand.isOther_value v
  induction t using Tree.parts_induction generalizing s with
  | step t ih =>
  cases t with
  | null | number | string | boolean | value | ident => cases h
  | parameter => exact (hother (.bind fun _ ↦ .bind fun _ ↦ .pure (hvalue _)) h).elim
  | lambda => exact (hother (.bind fun _ ↦ .pure (hvalue _)) h).elim
  | params => exact (hother (.fail _) h).elim
  | array elements => exact (hother (.bind fun _ ↦ .bind fun _ ↦ .pure (hvalue _)) h).elim
  | define name names body => exact (hother (.bind fun _ ↦ .bind fun _ ↦ .fail _) h).elim
  | apply callee args separators =>
    exact (hother (.bind fun _ ↦ .bind fun _ ↦ .bind fun _ ↦ gives_applyOperand _ _ _) h).elim
  | unary op operand =>
    have hunary : (Builtin.ofUnary op).isAssigner = false := by cases op <;> rfl
    exact (hother (gives_callBuiltin hunary _ _) h).elim
  | select kind test targets =>
    have hkind : kind.builtin.isAssigner = false := by cases kind <;> rfl
    refine (hother (.bind fun _ ↦ .bind fun _ ↦ .bind fun found ↦ ?_) h).elim
    cases found with
    | none => exact .pure nofun
    | some position => exact .bind fun xs ↦ Builtin.gives_invoke hkind _ xs
  | binary op left right =>
    unfold eval at h
    cases hb : Builtin.ofOperator? op with
    | none => rw [hb] at h; cases h
    | some b =>
      rw [hb] at h
      obtain ⟨xs, s₂, hxs, h⟩ := callBuiltin_eq_ok h
      obtain ⟨x, s₁, hx, hxs⟩ := bind_run_eq_ok.1 hxs
      obtain ⟨y, _, hy, hxs⟩ := bind_run_eq_ok.1 hxs
      cases hxs
      exact ⟨b, [], _, _, hassigner h, .binary hb hx hy, h⟩
  | call keyword args separators =>
    unfold eval at h
    cases hb : Builtin.ofName? keyword with
    | none =>
      rw [hb] at h
      exact (hother (.bind fun _ ↦ gives_applyOperand _ _ _) h).elim
    | some b =>
      rw [hb] at h
      obtain ⟨xs, s₁, hxs, h⟩ := callBuiltin_eq_ok h
      exact ⟨b, separators, xs, s₁, hassigner h, .call hb hxs, h⟩
  | branch condition yes no =>
    unfold eval at h
    obtain ⟨x, s₁, hx, h⟩ := bind_run_eq_ok.1 h
    obtain ⟨c, s₂, hc, h⟩ := bind_run_eq_ok.1 h
    have hcondition : (eval enter site condition >>= Operand.resolve) s = .ok c s₂ :=
      bind_run_eq_ok.2 ⟨x, s₁, hx, hc⟩
    split at h
    · rename_i htrue
      obtain ⟨b, separators, xs, s₃, hb, hends, h⟩ := ih yes (by simp [parts]) h
      exact ⟨b, separators, xs, s₃, hb, .yes hcondition htrue hends, h⟩
    · rename_i hfalse
      cases no with
      | none => cases h
      | some no =>
        obtain ⟨b, separators, xs, s₃, hb, hends, h⟩ := ih no (by simp [parts]) h
        exact ⟨b, separators, xs, s₃, hb, .no hcondition (Bool.not_eq_true _ ▸ hfalse)
          hends, h⟩

end

/-! ## Targets and their values -/

/-- A builtin pairs a target with a value, and the session is then as given.  Of these, `READ` takes
the value from the data. -/
inductive Builtin.Pairs : Builtin → List Operand → Session → Operand → Value → Session → Prop
  | assign {target y s w} (hw : y.resolve s = .ok w s) : Pairs .assign [target, y] s target w s
  | member {name y s w} (hw : y.resolve s = .ok w s) :
      Pairs .member [.reference name, y] s (.reference name) w s
  | read {target s w} (hw : s.data[s.cursor]? = some w) :
      Pairs .read [target] s target w { s with cursor := s.cursor + 1 }

/-- A value is written to an element, and to a variable nothing yet; the name is that of the
assignment. -/
inductive Operand.Puts (v : Value) (s : Session) : Operand → String → Session → Prop
  | reference (name : String) : Puts v s (.reference name) name s
  | element {base way index name place} (hfollow : s.heap.follow base way = .ok place)
      (hindex : index < (s.heap.elements place).size) :
      Puts v s (.element base way index name) name { s with heap := s.heap.set place index v }

/-- The items of a sequence. -/
def Heap.sequence? (h : Heap) : Value → Option (List Value)
  | .array place => some (h.elements place).toList
  | .generator g => some (g.numbers.map .number)
  | .listMonad elements => some elements
  | _ => none

/-- The first value of a loop over a range or a sequence, and what it has yet to run over. -/
inductive Builtin.Starts (h : Heap) : Builtin → Value → Value → LoopSource → Prop
  | range (g : Generator) : Starts h .loop (.generator g) (.number g.start)
      (.range (.fresh g.start g.stop g.step))
  | items {v items} (hitems : h.sequence? v = some items) :
      Starts h .loopOver v (items.headD .null) (.rest items.tail)

/-- A session in which a loop was opened over a value.  The loop variable has the first value, the
loop is the innermost one, and nothing else has changed. -/
def Session.Opens (s : Session) (b : Builtin) (site : Site) (name : String) (w : Value)
    (s' : Session) : Prop :=
  ∃ first source, b.Starts s.heap w first source ∧
    s.Takes name first (⟨name, source, site⟩ :: s.loops) s' ∧
    s' = { s with vars := s'.vars, loops := s'.loops }

section
variable {b : Builtin} {site : Site} {s s₁ s' : Session} {name : String} {v w first : Value}
  {x z : Operand} {source : LoopSource}

theorem Session.Opens.exists_sequence? (h : s.Opens b site name w s') :
    ∃ items, s.heap.sequence? w = some items := by
  obtain ⟨first, source, hstarts, -⟩ := h
  cases hstarts with
  | range g => exact ⟨_, rfl⟩
  | items hitems => exact ⟨_, hitems⟩

theorem Session.Opens.of_assign (hassign : s.assign name w = .ok s₁)
    (h : s₁.Opens b site name w s') : s.Opens b site name w s' := by
  obtain ⟨first, source, hstarts, htakes, heq⟩ := h
  have htakes₁ := takes_of_assign hassign
  have heq₁ := eq_withVars hassign
  rw [htakes₁.loops] at htakes
  refine ⟨first, source, ?_, htakes₁.trans htakes, ?_⟩
  · rw [heq₁] at hstarts
    exact hstarts
  · rw [heq, heq₁]

/-- What storing a value in a target does beside assigning it to a variable. -/
theorem Operand.puts_of_store {target : Operand} {statement : String}
    (h : target.store v statement s = .ok name s') :
    ∃ s₁, target.Puts v s name s₁ ∧ (s' = s₁ ∨ s₁.assign name v = .ok s') := by
  cases target with
  | reference name' =>
    obtain ⟨hassign, rfl⟩ := store_reference_eq_ok.1 h
    exact ⟨s, .reference _, .inr hassign⟩
  | element base way index name' =>
    rw [store_element] at h
    cases hwrite : s.heap.writeElement base way index v with
    | error stop => rw [hwrite] at h; cases h
    | ok heap =>
      rw [hwrite] at h
      cases h
      obtain ⟨place, hfollow, hindex, rfl⟩ := Heap.writeElement_eq_ok hwrite
      exact ⟨_, .element hfollow hindex, .inl rfl⟩
  | inexact base way name' =>
    obtain ⟨_, _, -, h⟩ := bind_run_eq_ok.1 h
    obtain ⟨_, _, -, h⟩ := bind_run_eq_ok.1 h
    cases h
  | _ =>
    obtain ⟨_, _, -, h⟩ := bind_run_eq_ok.1 h
    cases h

namespace Builtin

theorem sequence?_of_items {items : List Value} (h : b.items v s = .ok items s') :
    s' = s ∧ s.heap.sequence? v = some items := by
  obtain rfl := eq_of_items h
  refine ⟨rfl, ?_⟩
  cases v with
  | array | generator | listMonad =>
    cases h
    rfl
  | _ =>
    obtain ⟨_, _, -, h⟩ := bind_run_eq_ok.1 h
    cases h

theorem opens_of_enterLoop (hstarts : b.Starts s.heap w first source)
    (h : enterLoop name first source site s = .ok z s') :
    z = .value .null ∧ s.Opens b site name w s' := by
  obtain ⟨_, s₁, hassign, h⟩ := bind_run_eq_ok.1 h
  cases h
  have hassign := Action.assign_eq_ok.1 hassign
  have htakes := Session.takes_of_assign hassign
  refine ⟨rfl, first, source, hstarts, htakes.loops ▸ htakes.withLoops _, ?_⟩
  rw [Session.eq_withVars hassign]

theorem loopHead_eq_ok {p : String × Value} (h : b.loopHead x s = .ok p s') :
    s' = s ∧ x = .assignment p.1 p.2 := by
  cases x with
  | assignment name v => cases h; exact ⟨rfl, rfl⟩
  | _ => cases h

theorem opens_of_loopOf (h : loop.loopOf site x s = .ok z s') :
    z = .value .null ∧ ∃ name w, x = .assignment name w ∧ s.Opens .loop site name w s' := by
  obtain ⟨⟨name, w⟩, s₁, hhead, hrest⟩ := bind_run_eq_ok.1 h
  obtain ⟨rfl, rfl⟩ := loopHead_eq_ok hhead
  cases w with
  | generator g =>
    obtain ⟨hz, hopens⟩ := opens_of_enterLoop (.range g) hrest
    exact ⟨hz, name, _, rfl, hopens⟩
  | _ =>
    obtain ⟨_, _, -, hfail⟩ := bind_run_eq_ok.1 hrest
    cases hfail

theorem opens_of_loopOverOf (h : loopOver.loopOverOf site x s = .ok z s') :
    z = .value .null ∧ ∃ name w, x = .assignment name w ∧ s.Opens .loopOver site name w s' := by
  obtain ⟨⟨name, w⟩, s₁, hhead, hrest⟩ := bind_run_eq_ok.1 h
  obtain ⟨rfl, rfl⟩ := loopHead_eq_ok hhead
  obtain ⟨items, s₂, hitems, henter⟩ := bind_run_eq_ok.1 hrest
  obtain ⟨rfl, hitems⟩ := sequence?_of_items hitems
  obtain ⟨hz, hopens⟩ := opens_of_enterLoop (.items hitems) henter
  exact ⟨hz, name, w, rfl, hopens⟩

theorem accepts_of_invoke {enter : Closure → List Value → Action Value}
    {separators : List Separator} {xs : List Operand}
    (h : b.invoke enter site separators xs s = .ok x s') : b.accepts xs.length = true := by
  unfold invoke at h
  cases haccepts : b.accepts xs.length with
  | true => rfl
  | false => rw [haccepts] at h; cases h

theorem nameFunction_eq {target : Operand} {items : List Value}
    (hitems : s.heap.sequence? (nameFunction target v) = some items) :
    nameFunction target v = v := by
  unfold nameFunction at hitems ⊢
  split at hitems
  · cases hitems
  · rfl

/-- What a builtin that comes to an assignment of a sequence does for it. -/
theorem pairs_of_invoke {enter : Closure → List Value → Action Value}
    {separators : List Separator} {xs : List Operand} (hassigner : b.isAssigner = true)
    (h : b.invoke enter site separators xs s = .ok (.assignment name v) s')
    {items : List Value} (hitems : s'.heap.sequence? v = some items) :
    ∃ target s₁ s₂, b.Pairs xs s target v s₁ ∧ target.Puts v s₁ name s₂ ∧
      (s' = s₂ ∨ s₂.assign name v = .ok s') := by
  have haccepts := accepts_of_invoke h
  have hraw {act : Action Operand} (hact : b.performRaw? site xs = some act) :
      act s = .ok (.assignment name v) s' := by
    rw [← invoke_of_raw enter separators haccepts hact]
    exact h
  cases b with
  | assign =>
    obtain ⟨target, y, rfl⟩ := exists_two rfl haccepts
    obtain ⟨w, s₁, hw, hrest⟩ := bind_run_eq_ok.1 (hraw rfl)
    obtain rfl := Operand.eq_of_resolve hw
    obtain ⟨_, s₂, hstore, hend⟩ := bind_run_eq_ok.1 hrest
    cases hend
    rw [nameFunction_eq hitems] at hstore ⊢
    obtain ⟨s₂, hputs, hs₂⟩ := Operand.puts_of_store hstore
    exact ⟨target, _, s₂, .assign hw, hputs, hs₂⟩
  | member =>
    obtain ⟨target, y, rfl⟩ := exists_two rfl haccepts
    have hmember : memberOf target y s = _ := hraw rfl
    cases target with
    | reference name' =>
      obtain ⟨w, s₁, hw, hend⟩ := bind_run_eq_ok.1 hmember
      obtain rfl := Operand.eq_of_resolve hw
      cases hend
      exact ⟨_, _, _, .member hw, .reference _, .inl rfl⟩
    | _ =>
      obtain ⟨_, _, -, hfail⟩ := bind_run_eq_ok.1 hmember
      cases hfail
  | read =>
    obtain ⟨target, rfl⟩ := exists_one rfl haccepts
    obtain ⟨w, s₁, hdatum, hrest⟩ := bind_run_eq_ok.1 (hraw rfl)
    obtain ⟨_, s₂, hstore, hend⟩ := bind_run_eq_ok.1 hrest
    cases hend
    rw [nextDatum_eq] at hdatum
    cases hw : s.data[s.cursor]? with
    | none => rw [hw] at hdatum; cases hdatum
    | some w' =>
      rw [hw] at hdatum
      cases hdatum
      obtain ⟨s₂, hputs, hs₂⟩ := Operand.puts_of_store hstore
      exact ⟨target, _, s₂, .read hw, hputs, hs₂⟩
  | input =>
    -- What is typed in is a number or a text.
    obtain ⟨target, rfl⟩ := exists_one rfl haccepts
    obtain ⟨_, _, -, hrest⟩ := bind_run_eq_ok.1 (hraw rfl)
    obtain ⟨line, _, -, hrest⟩ := bind_run_eq_ok.1 hrest
    obtain ⟨_, _, -, hend⟩ := bind_run_eq_ok.1 hrest
    cases hend
    unfold inputValue at hitems
    simp only at hitems
    split at hitems <;> cases hitems
  | _ => cases hassigner

end Builtin

end

/-! ## The result -/

/-- A session in which the variables, the open loops and the elements of all arrays are as they
were.  Arrays may have been made. -/
structure Session.Undisturbed (s s' : Session) : Prop where
  vars : s'.vars = s.vars
  loops : s'.loops = s.loops
  heap : s.heap.Grows s'.heap

/-- Opening a loop in a session that was left undisturbed changes nothing else, either. -/
theorem Session.Opens.of_undisturbed {b : Builtin} {site : Site} {s s₁ s' : Session} {name : String}
    {w : Value} (h : s₁.Opens b site name w s') (hundisturbed : s.Undisturbed s₁) :
    ∃ first source, b.Starts s₁.heap w first source ∧
      s.Takes name first (⟨name, source, site⟩ :: s.loops) s' ∧ s.heap.Grows s'.heap := by
  obtain ⟨first, source, hstarts, htakes, heq⟩ := h
  refine ⟨first, source, hstarts, ⟨htakes.value, fun other hother ↦ ?_, ?_⟩, ?_⟩
  · rw [htakes.others other hother, hundisturbed.vars]
  · rw [htakes.loops, hundisturbed.loops]
  · rw [heq]
    exact hundisturbed.heap

section
variable {b : Builtin} {keyword : String} {args : List Tree} {separators : List Separator}
  {site next : Site} {s s' : Session} {v : Value}

theorem eq_singleton_of_evalAll {enter : Closure → List Value → Action Value} {ts : List Tree}
    {x : Operand} (h : evalAll enter site ts s = .ok [x] s') :
    ∃ t, ts = [t] ∧ eval enter site t s = .ok x s' := by
  cases ts with
  | nil => cases h
  | cons t ts =>
    obtain ⟨y, s₁, hy, hrest⟩ := bind_run_eq_ok.1 h
    obtain ⟨ys, s₂, hys, hend⟩ := bind_run_eq_ok.1 hrest
    cases hend
    cases ts with
    | nil => cases hys; exact ⟨t, rfl, hy⟩
    | cons u us =>
      obtain ⟨_, _, -, hmore⟩ := bind_run_eq_ok.1 hys
      obtain ⟨_, _, -, hlast⟩ := bind_run_eq_ok.1 hmore
      cases hlast

/-- The head of a loop that is opened, and the assignment that it comes to. -/
theorem exists_loopHead (hkeyword : Builtin.ofName? keyword = some b)
    (hb : b = .loop ∨ b = .loopOver)
    (h : execute site (.call keyword args separators) s = .ok (v, next) s') :
    v = .null ∧ next = site.next ∧ ∃ head x w s₁, args = [head] ∧
      eval (callWithin site s.room) site head s = .ok (.assignment x w) s₁ ∧
      s₁.Opens b site x w s' := by
  obtain ⟨z, s₂, heval, houtcome⟩ := execute_eq_ok.1 h
  rw [evaluate_eq, eval, hkeyword] at heval
  obtain ⟨xs, s₁, hxs, hinvoke⟩ := callBuiltin_eq_ok heval
  have haccepts := Builtin.accepts_of_invoke hinvoke
  have harity : b.arity = some 1 := by
    obtain rfl | rfl := hb <;> rfl
  obtain ⟨y, rfl⟩ := Builtin.exists_one harity haccepts
  obtain ⟨hz, x, w, rfl, hopens⟩ : z = .value .null ∧
      ∃ x w, y = .assignment x w ∧ s₁.Opens b site x w s₂ := by
    obtain rfl | rfl := hb
    · rw [Builtin.invoke_of_raw _ _ haccepts rfl] at hinvoke
      exact Builtin.opens_of_loopOf hinvoke
    · rw [Builtin.invoke_of_raw _ _ haccepts rfl] at hinvoke
      exact Builtin.opens_of_loopOverOf hinvoke
  obtain ⟨head, rfl, hhead⟩ := eq_singleton_of_evalAll hxs
  subst hz
  cases houtcome
  exact ⟨rfl, rfl, head, x, w, s₁, rfl, hhead, hopens⟩

/-- Every loop that is opened is opened by an assignment, by `=`, by `IN` or by `READ`, of what it
runs over to a variable or to an element.  The value is written to an element, and that is all that
happens before the loop is opened for the variable that the assignment names.  If the target is a
variable and evaluating left the session undisturbed, then nothing but this variable has changed. -/
theorem execute_loopHead (hkeyword : Builtin.ofName? keyword = some b)
    (hb : b = .loop ∨ b = .loopOver)
    (h : execute site (.call keyword args separators) s = .ok (v, next) s') :
    v = .null ∧ next = site.next ∧ ∃ head assigner xs s₁ target w s₂ x s₃, args = [head] ∧
      head.EndsIn (callWithin site s.room) site s assigner xs s₁ ∧
      assigner.Pairs xs s₁ target w s₂ ∧ target.Puts w s₂ x s₃ ∧ s₃.Opens b site x w s' ∧
      ∀ y, target = .reference y → s.Undisturbed s₂ →
        ∃ first source, b.Starts s₂.heap w first source ∧
          s.Takes y first (⟨y, source, site⟩ :: s.loops) s' ∧ s.heap.Grows s'.heap := by
  obtain ⟨hv, hnext, head, x, w, s₄, hargs, hhead, hopens⟩ := exists_loopHead hkeyword hb h
  obtain ⟨items, hitems⟩ := hopens.exists_sequence?
  obtain ⟨assigner, _, xs, s₁, hassigner, hends, hinvoke⟩ := Tree.endsIn_of_eval hhead
  obtain ⟨target, s₂, s₃, hpairs, hputs, hs₄⟩ :=
    Builtin.pairs_of_invoke hassigner hinvoke hitems
  have hopened : s₃.Opens b site x w s' := by
    obtain rfl | hassign := hs₄
    · exact hopens
    · exact hopens.of_assign hassign
  refine ⟨hv, hnext, head, assigner, xs, s₁, target, w, s₂, x, s₃, hargs, hends, hpairs, hputs,
    hopened, ?_⟩
  rintro y rfl hundisturbed
  cases hputs
  exact hopened.of_undisturbed hundisturbed

/-- `FOR I = 1 TO 3` gives `I` the value one and changes nothing else. -/
theorem execute_loopHead_range :
    let s : Session := .start {} {} .unavailable 0
    ∃ s', execute ⟨1, 0⟩
        (.call "FOR" [.binary .assign (.ident "I") (.binary .to (.number 1) (.number 3))] []) s =
          .ok (.null, ⟨1, 1⟩) s' ∧
      s.Takes "I" (.number 1) [⟨"I", .range (.fresh 1 3 1), ⟨1, 0⟩⟩] s' ∧
      s.heap.Grows s'.heap := by
  intro s
  obtain ⟨v, next, s', h⟩ : ∃ v next s', execute ⟨1, 0⟩
      (.call "FOR" [.binary .assign (.ident "I") (.binary .to (.number 1) (.number 3))] []) s =
        .ok (v, next) s' := ⟨_, _, _, rfl⟩
  obtain ⟨rfl, rfl, head, assigner, xs, s₁, target, w, s₂, x, s₃, hhead, hends, hpairs, -, -,
    hclaim⟩ := execute_loopHead (b := .loop) (by decide) (.inl rfl) h
  cases hhead
  cases hends with
  | binary hassign hleft hright =>
    cases hassign
    cases hleft
    cases hright
    cases hpairs with
    | assign hw =>
      cases hw
      obtain ⟨first, source, hstarts, htakes, hgrows⟩ := hclaim "I" rfl ⟨rfl, rfl, .refl _⟩
      cases hstarts
      exact ⟨s', h, htakes, hgrows⟩

/-- After `DIM A(2)`, `FOR A(0) = 1 TO 3` puts the range into the array and loops over a variable
`A`, which the array is lost from. -/
theorem exists_execute_for_element : ∃ x s,
    evaluate ⟨1, 0⟩ (.binary .assign (.ident "A") (.call "DIM" [.number 2] []))
      (.start {} {} .unavailable 0) = .ok x s ∧
    1 < s.heap.size ∧ (s.heap.elements 1)[0]?.map Value.typeName = some "num" ∧
    (s.vars.lookup? "A").map Value.typeName = some "array" ∧
    ∃ p s', execute ⟨1, 0⟩ (.call "FOR" [.binary .assign (.call "A" [.number 0] [])
        (.binary .to (.number 1) (.number 3))] []) s = .ok p s' ∧
      (s'.heap.elements 1)[0]?.map Value.typeName = some "generator" ∧
      (s'.vars.lookup? "A").map Value.typeName = some "num" := by
  decide +kernel

/-- Not every loop over a range leaves all elements of arrays as they are. -/
theorem not_forall_execute_loopHead : ¬ ∀ site s left range v next s',
    (∀ enter s, ∃ y, eval enter site range s = .ok y s) →
    execute site (.call "FOR" [.binary .assign left range] []) s = .ok (v, next) s' →
      ∃ name first source, left = .ident name ∧
        s.Takes name first (⟨name, source, site⟩ :: s.loops) s' ∧ s.heap.Grows s'.heap := by
  intro h
  obtain ⟨x, s, -, hsize, hbefore, -, p, s', hexecute, hafter, -⟩ := exists_execute_for_element
  obtain ⟨-, -, -, -, -, hgrows⟩ := h _ s _ _ p.1 p.2 s' (fun _ _ ↦ ⟨_, rfl⟩) hexecute
  rw [hgrows.elements 1 hsize, hbefore] at hafter
  exact absurd hafter (by decide)

end

end LineBasic
