import LineBasic.Proofs.Evaluation.Composition
import LineBasic.Proofs.Session.Assigned

/-!
# The laws of monads

A binding gives what a monad holds to a function, which has to give a monad again.  The functions of
two bindings in a row can be put into one function that calls the first and binds what that gives to
the second.  This function has a frame and a call of its own, and the second function is looked up
inside it, after the first has run and before anything is said of what it gave.  Neither the frame
nor the call makes a difference to what is run inside, so the two ways of binding can only differ in
what they say of a result that is no monad.

* `Mention` — a variable or parameter that stands for a function.
* `Builtin.expectMonad`, `Builtin.bindOf_eq` — a binding as a call and a check.
* `bindAfter`, `sameRun_bindBody` — what is run inside the function that binds.
* `Reassociated` — how two bindings in a row end, compared with one.
* `monad_laws` — the result.
-/

set_option autoImplicit false
namespace LineBasic

theorem Operand.resolve_value (v : Value) : (Operand.value v).resolve = return v := rfl

/-! ## Functions in expressions -/

/-- How a function stands in an expression: as a variable, or as a parameter of a function around
the expression. -/
inductive Mention
  | named (name : String)
  | parameter (depth index : Nat)

namespace Mention

/-- The function by itself. -/
def tree : Mention → Tree
  | named name => .ident name
  | parameter depth index => .parameter depth index

/-- The function, called on arguments. -/
def applied (args : List Tree) : Mention → Tree
  | named name => .call name args []
  | parameter depth index => .apply (.parameter depth index) args []

/-- Whether a call looks up the function, as it does unless the name is that of a builtin. -/
def IsLookedUp : Mention → Prop
  | named name => Builtin.ofName? name = none
  | parameter .. => True

/-- The same function, inside one more function. -/
def inner : Mention → Mention
  | named name => named name
  | parameter depth index => parameter (depth + 1) index

/-- What the function is in a session. -/
def meaning (s : Session) : Mention → Except Fault Value
  | named name => s.lookup name
  | parameter depth index => s.binders.lookup depth index

/-- Looks up what the function is. -/
def read (f : Mention) : Action Value := do
  Action.ofFault (f.meaning (← get))

/-- What the function is once it was `v`: the value of a variable may change, a parameter keeps its
own. -/
def readAgain (v : Value) : Mention → Action Value
  | named name => Action.lookup name
  | parameter .. => return v

variable {f : Mention} {v : Value} {s s' : Session}

/-- What a parameter is depends on the frames in force only. -/
theorem meaning_parameter (depth index : Nat) (hframes : s'.binders.frames = s.binders.frames) :
    (parameter depth index).meaning s' = (parameter depth index).meaning s :=
  Binders.Stack.lookup_congr (by rw [hframes]) (by rw [hframes])

theorem read_run (h : f.meaning s = .ok v) : f.read s = .ok v s := by
  change Action.ofFault (f.meaning s) s = _
  rw [h]
  rfl

theorem read_eq_readAgain (h : f.meaning s = .ok v)
    (hframes : s'.binders.frames = s.binders.frames) : f.read s' = f.readAgain v s' := by
  cases f with
  | named name => rfl
  | parameter depth index =>
    exact read_run (f := parameter depth index) ((meaning_parameter depth index hframes).trans h)

/-- Inside a function, parameters are one frame further away. -/
theorem meaning_inner (h : f.meaning s = .ok v) (heap : Heap) {b : Binders.Stack} {args : Frame}
    (hframes : b.frames = args :: s.binders.frames) :
    f.inner.meaning { s with heap, binders := b } = .ok v := by
  cases f with
  | named name =>
    let inside : Session := { s with heap, binders := b }
    have hvalue : inside.builtinValue = s.builtinValue := rfl
    have hunresolved : inside.unresolved = s.unresolved := rfl
    have hlookup : inside.lookup name = s.lookup name := by
      simp only [Session.lookup, hvalue, hunresolved, inside]
    exact hlookup.trans h
  | parameter depth index =>
    obtain ⟨frame, hframe, hv⟩ := Binders.Stack.exists_of_lookup_eq_ok h
    have hframe : b.frames[depth + 1]? = some frame := by
      rw [hframes, List.getElem?_cons_succ]
      exact hframe
    exact Binders.Stack.lookup_eq_ok hframe hv

theorem readAgain_inner (f : Mention) (v : Value) : f.inner.readAgain v = f.readAgain v := by
  cases f <;> rfl

section
variable {enter : Closure → List Value → Action Value} {site : Site} {k : Callable}
  {args : List Tree} {vs : List Value}

theorem eval_tree (h : f.meaning s = .ok v) : ∃ x, eval enter site f.tree s = .ok x s ∧
    x.resolve s = .ok v s := by
  cases f with
  | named name =>
    have hlookup : Action.lookup name s = .ok v s := read_run (f := named name) h
    exact ⟨.reference name, by rw [tree, eval]; rfl, hlookup⟩
  | parameter depth index =>
    have hlookup : s.binders.lookup depth index = .ok v := h
    exact ⟨.value v, by rw [tree, eval_parameter, hlookup], rfl⟩

theorem eval_tree_resolve (f : Mention) :
    (eval enter site f.tree >>= Operand.resolve) = f.read := by
  cases f with
  | named name =>
    have hread : (named name).read = (Operand.reference name).resolve := rfl
    rw [tree, eval, pure_bind, hread]
  | parameter depth index =>
    rw [tree, eval]
    simp only [bind_assoc, pure_bind, Operand.resolve_value, bind_pure]
    rfl

/-- A function is looked up after its arguments if it is a variable, and before them if it is a
parameter. -/
theorem eval_applied (hf : f.IsLookedUp) (h : f.meaning s' = .ok v)
    (hframes : s'.binders.frames = s.binders.frames) (hv : v.callable? = some k)
    (hargs : evalValues enter site args s = .ok vs s') : eval enter site (f.applied args) s =
      (do return .value (← k.call enter vs) : Action Operand) s' := by
  cases f with
  | named name =>
    have hname : Builtin.ofName? name = none := hf
    rw [applied, eval, hname]
    refine (bind_run_of_ok hargs).trans ?_
    have hlookup : Action.lookup name s' = .ok v s' := read_run (f := named name) h
    rw [← applyValue_of_callable hv vs name]
    exact bind_run_of_ok hlookup
  | parameter depth index =>
    have hlookup : s.binders.lookup depth index = .ok v :=
      (meaning_parameter depth index hframes).symm.trans h
    have hcallee : eval enter site (.parameter depth index) s = .ok (.value v) s := by
      rw [eval_parameter, hlookup]
    rw [applied, eval]
    refine (bind_run_of_ok hcallee).trans ((bind_run_of_ok rfl).trans ?_)
    refine (bind_run_of_ok hargs).trans ?_
    rw [← applyValue_of_callable hv vs]
    rfl

end
end Mention

/-! ## Bindings -/

/-- What an action stops with that refuses a value, and has to tell what the value is. -/
def Session.refusal (s : Session) (refused : String → Fault) (v : Value) : Stop :=
  match s.heap.typed v with
  | .ok text => .fault (refused text)
  | .error e => e

theorem Action.fail_typed_run {α : Type} (refused : String → Fault) (v : Value) (s : Session) :
    (do Action.fail (refused (← Action.typed v)) : Action α) s =
      .error (s.refusal refused v) s := by
  change (Action.ofStop (s.heap.typed v) >>= _) s = _
  unfold Session.refusal
  cases s.heap.typed v <;> rfl

namespace Builtin

/-- A result that has to be a monad. -/
def expectMonad (w : Value) : Action Value := do
  if isMonad w then return w
  else
    Action.fail (.badCallOn "right-hand function did not return a monad" (← Action.typed w))

section
variable {enter : Closure → List Value → Action Value} {site : Site} {f v : Value} {k : Callable}
  {held : Action Value} {s s' : Session}

theorem bindOf_eq (hv : unwrap? v = some held) (hf : f.callable? = some k) :
    bindOf enter v f = held >>= fun w ↦ k.call enter [w] >>= expectMonad := by
  unfold bindOf
  rw [hv, hf]
  rfl

theorem isMonad_of_expectMonad {w : Value} (h : expectMonad w s = .ok v s') :
    v = w ∧ s' = s ∧ isMonad w = true := by
  unfold expectMonad at h
  split at h
  · cases h
    exact ⟨rfl, rfl, ‹_›⟩
  · obtain ⟨_, _, -, h⟩ := bind_run_eq_ok.1 h
    cases h

theorem expectMonad_of_isMonad {w : Value} (h : isMonad w = true) :
    expectMonad w = (return w : Action Value) := by
  rw [expectMonad, if_pos h]

theorem expectMonad_of_not_isMonad {w : Value} (h : isMonad w = false) (s : Session) :
    expectMonad w s =
      .error (s.refusal (.badCallOn "right-hand function did not return a monad") w) s := by
  rw [expectMonad, h]
  exact Action.fail_typed_run _ w s

theorem bindOf_of_not_isMonad (h : isMonad v = false) (s : Session) : bindOf enter v f s =
    .error (s.refusal (.badCallOn "left-hand side of '>>=' is not a monad") v) s := by
  have hv : unwrap? v = none := Option.isNone_iff_eq_none.1 (Option.isSome_eq_false_iff.1 h)
  unfold bindOf
  rw [hv]
  exact Action.fail_typed_run _ v s

/-- A binding comes to a monad, if it comes to anything. -/
theorem isMonad_of_bindOf {w : Value} (h : bindOf enter v f s = .ok w s') : isMonad w = true := by
  cases hv : unwrap? v with
  | none =>
    unfold bindOf at h
    rw [hv] at h
    obtain ⟨_, _, -, h⟩ := bind_run_eq_ok.1 h
    cases h
  | some held =>
    cases hf : f.callable? with
    | none =>
      unfold bindOf at h
      rw [hv, hf] at h
      obtain ⟨_, _, -, h⟩ := bind_run_eq_ok.1 h
      cases h
    | some k =>
      rw [bindOf_eq hv hf] at h
      obtain ⟨_, _, -, h⟩ := bind_run_eq_ok.1 h
      obtain ⟨r, _, -, h⟩ := bind_run_eq_ok.1 h
      obtain ⟨rfl, -, hmonad⟩ := isMonad_of_expectMonad h
      exact hmonad

/-- What a monad holds is there, or is put into a new array. -/
theorem unwrap?_run (h : unwrap? v = some held) (s : Session) :
    ∃ w heap, held s = .ok w { s with heap } := by
  unfold unwrap? at h
  split at h <;> cases h
  · exact ⟨_, _, rfl⟩
  · exact ⟨_, _, rfl⟩
  · exact ⟨_, _, rfl⟩

theorem invoke_bind (x y : Operand) : Builtin.bind.invoke enter site [] [x, y] =
    (do
      let v ← x.resolve
      let f ← y.resolve
      return .value (← bindOf enter v f)) := by
  change (Operand.resolveAll [x, y] >>= fun vs ↦ _) = _
  rw [Operand.resolveAll, List.mapM_cons, List.mapM_cons, List.mapM_nil]
  simp only [bind_assoc, pure_bind]
  rfl

end

end Builtin

section
variable {enter : Closure → List Value → Action Value} {site : Site} {g : Mention} {l r t : Tree}
  {args : List Tree} {v w k : Value} {s s' s₁ : Session}

/-- Two expressions that come to values one after the other. -/
theorem Supplies.pair {x : Operand} (hl : Supplies enter site [l] s [v] s₁)
    (hr : eval enter site r s₁ = .ok x s₁) (hx : x.resolve s₁ = .ok w s₁) :
    Supplies enter site [l, r] s [v, w] s₁ := by
  obtain ⟨xs, s₂, hxs, hvs⟩ := bind_run_eq_ok.1 hl
  obtain ⟨y, s₃, hy, hxs⟩ := bind_run_eq_ok.1 hxs
  cases hxs
  obtain ⟨rfl, -⟩ := Operand.of_resolveAll hvs
  obtain ⟨u, s₃, hu, hvs⟩ := bind_run_eq_ok.1 hvs
  cases hvs
  have hx : Operand.resolveAll [x] s₁ = .ok [w] s₁ := by
    rw [Operand.resolveAll, List.mapM_cons]
    exact bind_run_of_ok hx
  have hr : evalAll enter site [r] s₁ = .ok [x] s₁ := bind_run_of_ok hr
  refine bind_run_eq_ok.2 ⟨[y, x], s₁, (bind_run_of_ok hy).trans (bind_run_of_ok hr), ?_⟩
  rw [Operand.resolveAll, List.mapM_cons]
  exact (bind_run_of_ok hu).trans (bind_run_of_ok hx)

theorem Supplies.evalValues (h : Supplies enter site [t] s [v] s') :
    evalValues enter site [t] s = .ok [v] s' := by
  have hsettled : Settled enter site [t] s := trivial
  rw [← evalAll_resolveAll hsettled]
  exact h

theorem eval_bind_of_supplies (h : Supplies enter site [l, r] s [v, w] s') :
    eval enter site (.binary .bind l r) s =
      (do return .value (← Builtin.bindOf enter v w) : Action Operand) s' := by
  have happlies : Tree.Applies .bind [l, r] (.binary .bind l r) := .binary (by decide +kernel)
  rw [eval_of_supplies_arity happlies (Session.checkEnabled_eq_ok.2 ⟨nofun, nofun⟩) rfl rfl h]
  rfl

/-- A binding of what an action gives: the function is looked up when the action is done. -/
theorem eval_bind_tree {act : Action Value}
    (h : eval enter site l s = (do return .value (← act) : Action Operand) s₁) :
    eval enter site (.binary .bind l g.tree) s = (do
      let v ← act
      let f ← g.read
      return .value (← Builtin.bindOf enter v f) : Action Operand) s₁ := by
  have hbind : Builtin.ofOperator? .bind = some .bind := by decide +kernel
  have henabled : s.checkEnabled .bind = .ok () := Session.checkEnabled_eq_ok.2 ⟨nofun, nofun⟩
  rw [eval, hbind]
  simp only
  rw [callBuiltin_eq henabled, bind_assoc]
  refine (bind_run_congr h fun _ _ _ ↦ rfl).trans ?_
  rw [bind_assoc]
  refine bind_run_congr rfl fun v s₂ _ ↦ ?_
  rw [pure_bind, bind_assoc]
  simp only [pure_bind, Builtin.invoke_bind, Operand.resolve_value]
  rw [← g.eval_tree_resolve, bind_assoc]

end

/-! ## Calls and frames -/

section
variable {site : Site} {room : Nat} {args : List Tree} {vs : List Value} {v : Value} {k : Callable}
  {g : Mention} {s s' : Session}

theorem binders_of_supplies (h : Supplies (callWithin site room) site args s vs s') :
    s'.binders = s.binders := by
  obtain ⟨xs, s₁, hxs, hvs⟩ := bind_run_eq_ok.1 h
  obtain ⟨rfl, -⟩ := Operand.of_resolveAll hvs
  have hsteady : Steady anything s.binders.frames s.binders.frames
      (fun xs ↦ ∀ x ∈ xs, Operand.IsGood anything x)
      (evalAll (callWithin site room) site args) := by
    have halike (t : Tree) : Alike anything s.binders.frames s.binders.frames
        (callWithin site room) (callWithin site room) site t t :=
      lockstep_eval (lockstep_callWithin (fun _ _ _ _ ↦ trivial) site room) trivial
    have hall := lockstep_evalAll (σ := id) fun t (_ : t ∈ args) ↦ halike t
    rwa [List.map_id] at hall
  have hends := hsteady.balances
  rw [hxs] at hends
  exact hends.of_ok.2

theorem lockstep_call {F F' : List Frame} (site : Site) (room : Nat) (k : Callable)
    (vs : List Value) : Steady anything F F' (fun _ ↦ True) (k.call (callWithin site room) vs) :=
  (Callable.lockstep_call (lockstep_callWithin (fun _ _ _ _ ↦ trivial) site room)
    (fun _ _ ↦ trivial) fun _ _ ↦ trivial).mono fun _ _ ↦ trivial

theorem binders_of_call (h : k.call (callWithin site room) vs s = .ok v s') :
    s'.binders = s.binders := by
  have hsteady : Steady anything s.binders.frames s.binders.frames (fun _ ↦ True)
      (k.call (callWithin site room) vs) := lockstep_call site room k vs
  have hends := hsteady.balances
  rw [h] at hends
  exact hends.of_ok.2

/-- A function is called, and what it gives is bound to another function. -/
def bindAfter (enter : Closure → List Value → Action Value) (k : Callable) (v : Value) (g : Mention)
    (meant : Value) : Action Value := do
  let w ← k.call enter [v]
  let f ← g.readAgain meant
  Builtin.bindOf enter w f

theorem agree_bindAfter (site : Site) (room : Nat) (k : Callable) (v : Value) (g : Mention)
    (meant : Value) (s : Session) (frames : List Frame) :
    Agree anything frames (fun _ ↦ True) s (bindAfter (callWithin site room) k v g meant s)
      (bindAfter (callWithin site room) k v g meant (s.withFrames frames)) := by
  have hagain : Steady anything s.binders.frames frames (fun _ ↦ True) (g.readAgain meant) := by
    cases g with
    | named name => exact Action.steady_lookup_any name
    | parameter => exact .pure trivial
  have hsteady : Steady anything s.binders.frames frames (fun _ ↦ True)
      (bindAfter (callWithin site room) k v g meant) :=
    .bind (lockstep_call site room k [v]) fun _ _ ↦ .bind hagain fun _ _ ↦
      Builtin.lockstep_bindOf (lockstep_callWithin (fun _ _ _ _ ↦ trivial) site room) trivial
        trivial
  exact hsteady.run s rfl (s.all_of_forall fun _ ↦ trivial)

theorem abreast_bindAfter (site : Site) (room : Nat) (k : Callable) (v : Value) (g : Mention)
    (meant : Value) : Abreast (anyDepth site).likeness Eq
      (bindAfter (callWithin site (room + 1)) k v g meant)
      (bindAfter (callWithin site room) k v g meant) := by
  have hagain : Abreast (anyDepth site).likeness Eq (g.readAgain meant) (g.readAgain meant) := by
    cases g with
    | named name => exact (Action.detached_lookup name).abreast
    | parameter => exact .pure rfl
  have henter : Entered (anyDepth site) (callWithin site (room + 1)) (callWithin site room) :=
    entered_callWithin room
  refine .bind (Comparison.call (C := (anyDepth site).comparison) henter k [v]) ?_
  rintro w _ rfl
  refine .bind hagain ?_
  rintro f _ rfl
  exact Comparison.bindOf (C := (anyDepth site).comparison) henter w f

end

/-! ## Two bindings -/

/-- The body of a function that calls one function on its argument, and binds what that gives to
another. -/
def Mention.bindBody (f g : Mention) : Tree :=
  .binary .bind (f.inner.applied [.parameter 0 0]) g.inner.tree

section
variable {site : Site} {f g : Mention} {fv gv w : Value} {k : Callable} {s : Session}

theorem eval_bindBody (hf : f.IsLookedUp) (hfv : f.meaning s = .ok fv)
    (hk : fv.callable? = some k) (hgv : g.meaning s = .ok gv) (heap : Heap) {b : Binders.Stack}
    (hframes : b.frames = [w] :: s.binders.frames) (room : Nat) :
    (eval (callWithin site room) site (f.bindBody g) >>= Operand.resolve)
        { s with heap, binders := b } =
      bindAfter (callWithin site room) k w g gv { s with heap, binders := b } := by
  let inner : Session := { s with heap, binders := b }
  have hinner : f.inner.IsLookedUp := by cases f <;> exact hf
  have hoperand : evalAll (callWithin site room) site (Tree.parameters [w].length) inner =
      .ok ([w].map Operand.value) inner := evalAll_parameters hframes
  have hargument : evalValues (callWithin site room) site [.parameter 0 0] inner =
      .ok [w] inner := Supplies.evalValues (bind_run_eq_ok.2 ⟨_, _, hoperand, rfl⟩)
  have hmeaning : f.inner.meaning inner = .ok fv := Mention.meaning_inner hfv heap hframes
  have hcall := Mention.eval_applied hinner hmeaning rfl hk hargument
  refine (bind_run_congr (eval_bind_tree hcall) fun _ _ _ ↦ rfl).trans ?_
  simp only [bind_assoc]
  refine bind_run_congr rfl fun v s' hv ↦ ?_
  have hagain : g.inner.read s' = g.readAgain gv s' := by
    rw [Mention.read_eq_readAgain (Mention.meaning_inner hgv heap hframes)
      (congrArg _ (binders_of_call hv)), Mention.readAgain_inner]
  refine bind_run_congr hagain fun u s'' _ ↦ ?_
  simp only [pure_bind, Operand.resolve_value, bind_pure]

/-- The function with this body does what it does without a call of its own. -/
theorem sameRun_bindBody (hf : f.IsLookedUp) (hfv : f.meaning s = .ok fv)
    (hk : fv.callable? = some k) (hgv : g.meaning s = .ok gv) (heap : Heap) (room : Nat) :
    SameRun (bindAfter (callWithin site room) k w g gv { s with heap })
      (callWithin site room (.mk 1 (f.bindBody g) s.binders.frames "") [w] { s with heap }) := by
  cases room with
  | zero => exact .right rfl
  | succ room =>
    let c := Closure.mk 1 (f.bindBody g) s.binders.frames ""
    let outer : Session := { s with heap }
    rw [callWithin]
    cases hfull : outer.binders.isFull with
    | true =>
      rw [inCall_of_isFull hfull]
      exact .right rfl
    | false =>
      rw [inCall_of_not_isFull hfull]
      have hsame := sameRun_inside (agree_bindAfter site (room + 1) k w g gv outer)
        (abreast_bindAfter site room k w g gv) c [w]
      have hbody : (eval (callWithin site room) site (f.bindBody g) >>= Operand.resolve)
          { outer with binders := outer.binders.enter c [w] } =
          bindAfter (callWithin site room) k w g gv
            { outer with binders := outer.binders.enter c [w] } :=
        eval_bindBody hf hfv hk hgv heap rfl room
      rw [← hbody] at hsame
      exact hsame

end

/-! ## Results of two bindings -/

/-- Whether an action ends for want of calls. -/
def IsLimited {α : Type} (r : EStateM.Result Stop Session α) : Prop :=
  ∃ e s, r = .error e s ∧ e.IsLimit

/-- How two bindings in a row end, compared with one binding of a function that binds what the first
function gives. -/
inductive Reassociated {α : Type} (g : Mention) :
    EStateM.Result Stop Session α → EStateM.Result Stop Session α → Prop
  | same (r) : Reassociated g r r
  /-- The first function gave no monad. -/
  | noMonad (received : String) (s : Session) : Reassociated g
      (.error (.fault (.badCallOn "right-hand function did not return a monad" received)) s)
      (.error (.fault (.badCallOn "left-hand side of '>>=' is not a monad" received)) s)
  /-- The first function gave no monad, and then the second has no value. -/
  | lost {w : Value} {e : Stop} {fault : Fault} {s : Session} (h : Builtin.isMonad w = false)
      (he : Builtin.expectMonad w s = .error e s) (hg : g.meaning s = .error fault) :
      Reassociated g (.error e s) (.error (.fault fault) s)

section
variable {α β : Type} {g : Mention} {s : Session} {r r' : EStateM.Result Stop Session α}

theorem IsLimited.bind {x : Action α} {f : α → Action β} (h : IsLimited (x s)) :
    IsLimited ((x >>= f) s) := by
  obtain ⟨e, s', he, hlimit⟩ := h
  exact ⟨e, s', bind_run_of_error he, hlimit⟩

theorem not_isLimited_ok (a : α) (s : Session) : ¬ IsLimited (.ok a s) := by
  rintro ⟨e, s', he, -⟩
  cases he

theorem not_isLimited_error {e : Stop} (hr : r = .error e s) (h : ¬ e.IsLimit) :
    ¬ IsLimited r := by
  rintro ⟨e', s', he, hlimit⟩
  cases hr.symm.trans he
  exact h hlimit

theorem SameRun.eq (h : SameRun r r') (hr : ¬ IsLimited r) (hr' : ¬ IsLimited r') : r = r' :=
  h (fun e s he hlimit ↦ hr ⟨e, s, he, hlimit⟩) fun e s he hlimit ↦ hr' ⟨e, s, he, hlimit⟩

theorem Mention.not_isLimit_of_meaning {fault : Fault} (h : g.meaning s = .error fault) :
    ¬ (Stop.fault fault).IsLimit := by
  cases g with
  | named name =>
    have hrefuses := s.refuses_of_lookup name fault h
    cases hrefuses <;> nofun
  | parameter depth index =>
    obtain ⟨context, rfl⟩ := s.binders.unbound_of_lookup depth index fault h
    nofun

theorem Reassociated.not_isLimited (h : Reassociated g r r') (hr : ¬ IsLimited r) :
    ¬ IsLimited r' := by
  cases h with
  | same => exact hr
  | noMonad => exact not_isLimited_error rfl fun h ↦ by cases h
  | lost _ _ hg => exact not_isLimited_error rfl (Mention.not_isLimit_of_meaning hg)

end

section
variable {enter : Closure → List Value → Action Value} {g : Mention} {k : Callable}
  {gv w : Value} {s : Session}

/-- What is no monad is refused as the result of the first function, or later as what is bound to
the second. -/
theorem reassociated_refusal (h : Builtin.isMonad w = false) (β : Value → Action Operand) :
    Reassociated g ((Builtin.expectMonad w >>= β) s)
      ((do
        let f ← g.read
        return .value (← Builtin.bindOf enter w f) : Action Operand) s) := by
  have he := Builtin.expectMonad_of_not_isMonad h s
  rw [bind_run_of_error he]
  cases hg : g.meaning s with
  | error fault =>
    have hread : g.read s = .error (.fault fault) s := by
      change Action.ofFault (g.meaning s) s = _
      rw [hg]
      rfl
    rw [bind_run_of_error hread]
    exact .lost h he hg
  | ok f =>
    rw [bind_run_of_ok (Mention.read_run hg),
      bind_run_of_error (Builtin.bindOf_of_not_isMonad h s)]
    unfold Session.refusal
    cases s.heap.typed w with
    | ok text => exact .noMonad text s
    | error stop => exact .same _

/-- A binding that checks what the first function gave before it looks up the second, compared with
one that does so afterwards. -/
theorem reassociated_bindAfter (hagain : ∀ v s', k.call enter [w] s = .ok v s' →
      g.read s' = g.readAgain gv s') :
    Reassociated g ((do
      let v ← k.call enter [w] >>= Builtin.expectMonad
      let f ← g.read
      return .value (← Builtin.bindOf enter v f) : Action Operand) s)
      ((do return .value (← bindAfter enter k w g gv) : Action Operand) s) := by
  simp only [bindAfter, bind_assoc]
  cases hcall : k.call enter [w] s with
  | error e s' =>
    rw [bind_run_of_error hcall, bind_run_of_error hcall]
    exact .same _
  | ok v s' =>
    have hafter : (g.readAgain gv >>= fun f ↦ Builtin.bindOf enter v f >>= fun u ↦
        (return .value u : Action Operand)) s' =
        (g.read >>= fun f ↦ Builtin.bindOf enter v f >>= fun u ↦ return .value u) s' :=
      bind_run_congr (hagain v s' hcall).symm fun _ _ _ ↦ rfl
    rw [bind_run_of_ok hcall, bind_run_of_ok hcall, hafter]
    cases hmonad : Builtin.isMonad v with
    | true =>
      rw [Builtin.expectMonad_of_isMonad hmonad, pure_bind]
      exact .same _
    | false => exact reassociated_refusal hmonad _

end

/-! ## The laws -/

section
variable {site : Site} {room : Nat} {f g : Mention} {m e t : Tree} {fv gv mv v : Value}
  {k : Callable} {s s₁ : Session}

/-- A returned value is bound to a function by calling the function on it. -/
theorem eval_bind_ret (hf : f.IsLookedUp) (ht : t.Applies .ret [e])
    (he : Supplies (callWithin site room) site [e] s [v] s₁) (hfv : f.meaning s₁ = .ok fv)
    (hk : fv.callable? = some k)
    (hmonad : ∀ w s', eval (callWithin site room) site (f.applied [e]) s = .ok (.value w) s' →
      Builtin.isMonad w = true) :
    eval (callWithin site room) site (.binary .bind t f.tree) s =
      eval (callWithin site room) site (f.applied [e]) s := by
  have hframes : s₁.binders.frames = s.binders.frames := congrArg _ (binders_of_supplies he)
  have hcall := Mention.eval_applied hf hfv hframes hk he.evalValues
  have hret : eval (callWithin site room) site t s =
      ((return .memoMonad v) >>= fun u ↦ return .value u : Action Operand) s₁ :=
    eval_of_supplies_arity ht (Session.checkEnabled_eq_ok.2 ⟨nofun, nofun⟩) rfl rfl he
  have hunwrap : Builtin.unwrap? (.memoMonad v) = some (return v) := rfl
  rw [hcall] at hmonad ⊢
  rw [eval_bind_tree hret, pure_bind, bind_run_of_ok (Mention.read_run hfv),
    Builtin.bindOf_eq hunwrap hk, pure_bind, bind_assoc]
  refine bind_run_congr rfl fun w s' hw ↦ ?_
  rw [Builtin.expectMonad_of_isMonad (hmonad w s' (bind_run_of_ok hw)), pure_bind]

/-- Binding a monad of one value to the function that makes such monads changes nothing. -/
theorem eval_bind_name_ret {name : String} (hname : Builtin.ofName? name = some .ret)
    (hm : Supplies (callWithin site room) site [m] s [.memoMonad v] s₁)
    (hlimited : ¬ IsLimited
      (eval (callWithin site room) site (.binary .bind m (.ident name)) s)) :
    eval (callWithin site room) site (.binary .bind m (.ident name)) s =
      .ok (.value (.memoMonad v)) s₁ := by
  have henabled : s₁.checkEnabled .ret = .ok () := Session.checkEnabled_eq_ok.2 ⟨nofun, nofun⟩
  have hret : s₁.lookup name = .ok (.closure (Builtin.ret.closure 1)) := by
    rw [Session.lookup_of_ofName? hname, Session.builtinValue, henabled]
    rfl
  have hresolve : (Operand.reference name).resolve s₁ =
      .ok (.closure (Builtin.ret.closure 1)) s₁ := Action.lookup_eq_ok.2 ⟨hret, rfl⟩
  have hident : eval (callWithin site room) site (.ident name) s₁ = .ok (.reference name) s₁ := by
    rw [eval]
    rfl
  have hunwrap : Builtin.unwrap? (.memoMonad v) = some (return v) := rfl
  rw [eval_bind_of_supplies (hm.pair hident hresolve), Builtin.bindOf_eq hunwrap rfl, pure_bind,
    bind_assoc] at hlimited ⊢
  have hbody : (Builtin.ret.closure 1).body.Applies .ret (Tree.parameters [v].length) :=
    .call (by decide +kernel)
  have hcall : SameRun (Builtin.ret.onValues site room [v] s₁)
      (callWithin site room (Builtin.ret.closure 1) [v] s₁) :=
    sameRun_onValues henabled rfl hbody room
  have hvalues : Builtin.ret.onValues site room [v] s₁ = .ok (.memoMonad v) s₁ := rfl
  rw [hvalues] at hcall
  have hdone := hcall.eq (not_isLimited_ok _ s₁) fun h ↦ hlimited h.bind
  rw [Callable.call, bind_run_of_ok hdone.symm, Builtin.expectMonad_of_isMonad rfl]
  rfl

variable {held : Action Value} {w : Value} {s₂ : Session}

theorem eval_bind_twice (hm : Supplies (callWithin site room) site [m] s [mv] s₁)
    (hheld : Builtin.unwrap? mv = some held) (hw : held s₁ = .ok w s₂)
    (hfv : f.meaning s₁ = .ok fv) (hk : fv.callable? = some k) :
    eval (callWithin site room) site (.binary .bind (.binary .bind m f.tree) g.tree) s = (do
      let v ← k.call (callWithin site room) [w] >>= Builtin.expectMonad
      let f ← g.read
      return .value (← Builtin.bindOf (callWithin site room) v f) : Action Operand) s₂ := by
  obtain ⟨x, hx, hxv⟩ := Mention.eval_tree hfv
  rw [eval_bind_tree (eval_bind_of_supplies (hm.pair hx hxv)), Builtin.bindOf_eq hheld hk,
    bind_assoc, bind_run_of_ok hw]

theorem eval_bind_lambda (hm : Supplies (callWithin site room) site [m] s [mv] s₁)
    (hheld : Builtin.unwrap? mv = some held) (hw : held s₁ = .ok w s₂) (body : Tree) :
    eval (callWithin site room) site (.binary .bind m (.lambda ["X"] body)) s = (do
      let v ← callWithin site room (.mk 1 body s₁.binders.frames "") [w]
      return .value (← Builtin.expectMonad v) : Action Operand) s₂ := by
  have hlambda : eval (callWithin site room) site (.lambda ["X"] body) s₁ =
      .ok (.value (.closure (.mk 1 body s₁.binders.frames ""))) s₁ := by
    rw [eval]
    rfl
  rw [eval_bind_of_supplies (hm.pair hlambda rfl), Builtin.bindOf_eq hheld rfl, bind_assoc,
    bind_run_of_ok hw, bind_assoc]
  rfl

/-- Binding twice is binding once to a function that binds. -/
theorem reassociated_bind (hf : f.IsLookedUp)
    (hm : Supplies (callWithin site room) site [m] s [mv] s₁) (hmv : Builtin.isMonad mv = true)
    (hfv : f.meaning s₁ = .ok fv) (hk : fv.callable? = some k) (hgv : g.meaning s₁ = .ok gv)
    (hleft : ¬ IsLimited (eval (callWithin site room) site
      (.binary .bind (.binary .bind m f.tree) g.tree) s))
    (hright : ¬ IsLimited (eval (callWithin site room) site
      (.binary .bind m (.lambda ["X"] (f.bindBody g))) s)) :
    Reassociated g
      (eval (callWithin site room) site (.binary .bind (.binary .bind m f.tree) g.tree) s)
      (eval (callWithin site room) site (.binary .bind m (.lambda ["X"] (f.bindBody g))) s) := by
  obtain ⟨held, hheld⟩ := Option.isSome_iff_exists.1 hmv
  obtain ⟨w, heap, hw⟩ := Builtin.unwrap?_run hheld s₁
  rw [eval_bind_twice hm hheld hw hfv hk] at hleft ⊢
  rw [eval_bind_lambda hm hheld hw] at hright ⊢
  have hagain (v : Value) (s' : Session)
      (hv : k.call (callWithin site room) [w] { s₁ with heap } = .ok v s') :
      g.read s' = g.readAgain gv s' := by
    have hbinders := binders_of_call hv
    exact Mention.read_eq_readAgain hgv (congrArg _ hbinders)
  have hsteps := reassociated_bindAfter hagain
  have hmiddle := hsteps.not_isLimited hleft
  have hsame := (sameRun_bindBody hf hfv hk hgv heap room).eq (fun h ↦ hmiddle h.bind)
    fun h ↦ hright h.bind
  have hchecked : (do
      let v ← callWithin site room (.mk 1 (f.bindBody g) s₁.binders.frames "") [w]
      return .value (← Builtin.expectMonad v) : Action Operand) { s₁ with heap } =
      (do return .value (← bindAfter (callWithin site room) k w g gv) : Action Operand)
        { s₁ with heap } := by
    refine (bind_run_congr hsame fun v s' hv ↦ ?_).symm
    obtain ⟨u, s'', -, hv⟩ := bind_run_eq_ok.1 hv
    obtain ⟨u', s'', -, hv⟩ := bind_run_eq_ok.1 hv
    rw [Builtin.expectMonad_of_isMonad (Builtin.isMonad_of_bindOf hv), pure_bind]
  rw [hchecked]
  exact hsteps

end

/-- The laws of monads, for functions that variables or parameters stand for, whatever they do, and
as long as enough calls are left.  A returned value is bound to a function by calling the function
on it, where that gives a monad if it gives anything.  A monad of one value, bound to the function
that makes such monads, stays what it is, and nothing else happens.  And binding a monad to two
functions in a row is binding it to a function that calls the first and binds what that gives to the
second: results, effects and failures are the same, but what the first function gave, if it is no
monad, is refused in other words, and only after the second function was looked up, which may have
lost its value by then. -/
theorem monad_laws {f : Mention} (hf : f.IsLookedUp) {fv : Value}
    (hfv : fv.callable?.isSome = true) (site : Site) (room : Nat) :
    let result (t : Tree) (s : Session) := eval (callWithin site room) site t s
    (∀ (t e : Tree) (v : Value) (s s₁ : Session), t.Applies .ret [e] →
      Supplies (callWithin site room) site [e] s [v] s₁ → f.meaning s₁ = .ok fv →
      (∀ w s', result (f.applied [e]) s = .ok (.value w) s' → Builtin.isMonad w = true) →
      result (.binary .bind t f.tree) s = result (f.applied [e]) s) ∧
    (∀ (m : Tree) (name : String) (v : Value) (s s₁ : Session),
      Builtin.ofName? name = some .ret →
      Supplies (callWithin site room) site [m] s [.memoMonad v] s₁ →
      ¬ IsLimited (result (.binary .bind m (.ident name)) s) →
      result (.binary .bind m (.ident name)) s = .ok (.value (.memoMonad v)) s₁) ∧
    ∀ (g : Mention) (m : Tree) (mv gv : Value) (s s₁ : Session),
      Supplies (callWithin site room) site [m] s [mv] s₁ → Builtin.isMonad mv = true →
      f.meaning s₁ = .ok fv → g.meaning s₁ = .ok gv →
      ¬ IsLimited (result (.binary .bind (.binary .bind m f.tree) g.tree) s) →
      ¬ IsLimited (result (.binary .bind m (.lambda ["X"] (f.bindBody g))) s) →
      Reassociated g (result (.binary .bind (.binary .bind m f.tree) g.tree) s)
        (result (.binary .bind m (.lambda ["X"] (f.bindBody g))) s) := by
  obtain ⟨k, hk⟩ := Option.isSome_iff_exists.1 hfv
  intro result
  refine ⟨fun t e v s s₁ ht he hf₁ hmonad ↦ ?_, fun m name v s s₁ hname hm hlimited ↦ ?_,
    fun g m mv gv s s₁ hm hmv hf₁ hg₁ hleft hright ↦ ?_⟩
  · exact eval_bind_ret hf ht he hf₁ hk hmonad
  · exact eval_bind_name_ret hname hm hlimited
  · exact reassociated_bind hf hm hmv hf₁ hk hg₁ hleft hright

/-- A session with functions for some names. -/
def Session.withFunctions (functions : List (String × Tree)) : Session :=
  { Session.start {} {} .unavailable 0 with
    vars := ⟨functions.foldl (fun table p ↦ table.insert p.1 (.closure (.mk 1 p.2 [] p.1))) {}⟩ }

/-- A function that makes a monad, bound twice. -/
theorem monad_laws_wrap :
    let body := Tree.call "MRET" [.parameter 0 0] []
    let s := Session.withFunctions [("WRAP", body)]
    let f := Mention.named "WRAP"
    let m := Tree.call "MRET" [.string "A"] []
    eval (callWithin ⟨1, 0⟩ 3) ⟨1, 0⟩ (.binary .bind m f.tree) s =
        eval (callWithin ⟨1, 0⟩ 3) ⟨1, 0⟩ (f.applied [.string "A"]) s ∧
      Reassociated f
        (eval (callWithin ⟨1, 0⟩ 3) ⟨1, 0⟩ (.binary .bind (.binary .bind m f.tree) f.tree) s)
        (eval (callWithin ⟨1, 0⟩ 3) ⟨1, 0⟩ (.binary .bind m (.lambda ["X"] (f.bindBody f))) s) := by
  intro body s f m
  have hf : f.IsLookedUp := by
    change Builtin.ofName? "WRAP" = none
    decide +kernel
  have hret : Builtin.ofName? "MRET" = some .ret := by decide +kernel
  have hmeaning : f.meaning s = .ok (.closure (.mk 1 body [] "WRAP")) := by rfl
  have hcall : eval (callWithin ⟨1, 0⟩ 3) ⟨1, 0⟩ (f.applied [.string "A"]) s =
      .ok (.value (.memoMonad (.string "A"))) s := by rfl
  have hfunction : (Value.closure (.mk 1 body [] "WRAP")).callable?.isSome = true := rfl
  obtain ⟨hleft, -, hassoc⟩ := monad_laws hf hfunction ⟨1, 0⟩ 3
  refine ⟨hleft m (.string "A") (.string "A") s s (.call hret) rfl hmeaning ?_,
    hassoc f m (.memoMonad (.string "A")) _ s s rfl rfl hmeaning hmeaning ?_ ?_⟩
  · intro w s' hw
    cases hcall.symm.trans hw
    rfl
  · exact not_isLimited_ok _ _
  · exact not_isLimited_ok _ _

/-- Not all failures are alike: a function that clears the variables and gives no monad is refused,
unless the other function is looked up before that. -/
theorem reassociated_after_clear : ¬ ∀ (f g : Mention) (fv gv mv : Value) (m : Tree)
    (s s₁ : Session), f.IsLookedUp → fv.callable?.isSome = true → gv.callable?.isSome = true →
    Supplies (callWithin ⟨1, 0⟩ 3) ⟨1, 0⟩ [m] s [mv] s₁ → Builtin.isMonad mv = true →
    f.meaning s₁ = .ok fv → g.meaning s₁ = .ok gv →
    let result (t : Tree) := eval (callWithin ⟨1, 0⟩ 3) ⟨1, 0⟩ t s
    let left := result (.binary .bind (.binary .bind m f.tree) g.tree)
    let right := result (.binary .bind m (.lambda ["X"] (f.bindBody g)))
    ¬ IsLimited left → ¬ IsLimited right → left = right ∨ ∃ a b s₂ s₃,
      left = .error (.fault a) s₂ ∧ right = .error (.fault b) s₃ ∧ a.kind = b.kind := by
  intro h
  let body := Tree.call "DO" [.call "CLEAR" [] [], .string "A"] [.comma]
  let wrap := Tree.call "MRET" [.parameter 0 0] []
  let s := Session.withFunctions [("F", body), ("G", wrap)]
  let f := Mention.named "F"
  let g := Mention.named "G"
  let m := Tree.call "MRET" [.string "A"] []
  have hf : f.IsLookedUp := by
    change Builtin.ofName? "F" = none
    decide +kernel
  have hleft : ∃ a s', eval (callWithin ⟨1, 0⟩ 3) ⟨1, 0⟩
      (.binary .bind (.binary .bind m f.tree) g.tree) s = .error (.fault a) s' ∧
      a.kind = .badFunctionCall := ⟨_, _, rfl, rfl⟩
  have hright : ∃ a s', eval (callWithin ⟨1, 0⟩ 3) ⟨1, 0⟩
      (.binary .bind m (.lambda ["X"] (f.bindBody g))) s = .error (.fault a) s' ∧
      a.kind = .unresolvedReference := ⟨_, _, rfl, rfl⟩
  obtain ⟨a, s₂, hleft, ha⟩ := hleft
  obtain ⟨b, s₃, hright, hb⟩ := hright
  have hends := h f g (.closure (.mk 1 body [] "F")) (.closure (.mk 1 wrap [] "G"))
    (.memoMonad (.string "A")) m s s hf rfl rfl rfl rfl rfl rfl
  have hafar : ¬ (Stop.fault a).IsLimit := by
    rw [Stop.IsLimit, ha]
    nofun
  have hbfar : ¬ (Stop.fault b).IsLimit := by
    rw [Stop.IsLimit, hb]
    nofun
  have hdiffers : a.kind ≠ b.kind := by
    rw [ha, hb]
    decide
  obtain heq | ⟨a', b', s₂', s₃', ha', hb', hkind⟩ :=
    hends (not_isLimited_error hleft hafar) (not_isLimited_error hright hbfar)
  · cases hleft.symm.trans (heq.trans hright)
    exact hdiffers rfl
  · cases hleft.symm.trans ha'
    cases hright.symm.trans hb'
    exact hdiffers hkind

end LineBasic
