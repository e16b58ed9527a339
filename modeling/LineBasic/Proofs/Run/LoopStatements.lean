import LineBasic.Proofs.Run.Machine
import LineBasic.Proofs.Session.Names
import LineBasic.Proofs.Value.Ranges

/-!
# Executing the statements of a loop

What the head of a loop and its `NEXT` do to a session, where memory suffices.  The head evaluates
what the loop runs over, gives the loop variable its first value and opens the loop; `NEXT` gives it
the next one and jumps back, or closes the loop.

* `Comes`, `comes_range_iff` — what a tree comes to, and what `lo TO hi STEP step` does.
* `Budgeted` — actions that are refused for want of memory, or else succeed.
* `LoopSource.Gives` — the values that a loop has yet to take.
* `budgeted_for`, `budgeted_foreach`, `budgeted_next`, `budgeted_next_last` — the statements.
-/

set_option autoImplicit false
namespace LineBasic

variable {enter : Closure → List Value → Action Value} {site : Site} {s s₁ s₂ s' : Session}

theorem Action.ofFault_eq_ok {α : Type} {x : Except Fault α} {a : α} :
    Action.ofFault x s = .ok a s' ↔ x = .ok a ∧ s' = s := by
  cases x with
  | ok b => exact ⟨fun h ↦ by cases h; exact ⟨rfl, rfl⟩, fun ⟨h, hs⟩ ↦ by cases h; cases hs; rfl⟩
  | error f => exact ⟨nofun, nofun⟩

theorem Action.ofStop_eq_ok {α : Type} {x : Except Stop α} {a : α} :
    Action.ofStop x s = .ok a s' ↔ x = .ok a ∧ s' = s := by
  cases x with
  | ok b => exact ⟨fun h ↦ by cases h; exact ⟨rfl, rfl⟩, fun ⟨h, hs⟩ ↦ by cases h; cases hs; rfl⟩
  | error f => exact ⟨nofun, nofun⟩

theorem Action.lookup_eq_ok {name : String} {v : Value} :
    Action.lookup name s = .ok v s' ↔ s.lookup name = .ok v ∧ s' = s := by
  refine bind_run_eq_ok.trans ⟨?_, fun h ↦ ⟨s, s, rfl, Action.ofFault_eq_ok.2 h⟩⟩
  rintro ⟨_, _, hget, h⟩
  cases hget
  exact Action.ofFault_eq_ok.1 h

/-- Reading an operand changes nothing. -/
theorem Operand.eq_of_resolve {x : Operand} {v : Value} (h : x.resolve s = .ok v s') : s' = s := by
  cases x with
  | value | assignment | jump => cases h; rfl
  | reference name => exact (Action.lookup_eq_ok.1 h).2
  | element base way index name =>
    obtain ⟨_, _, hget, h⟩ := bind_run_eq_ok.1 h
    cases hget
    exact (Action.ofStop_eq_ok.1 h).2
  | inexact base way name =>
    obtain ⟨_, _, -, h⟩ := bind_run_eq_ok.1 h
    obtain ⟨_, _, -, h⟩ := bind_run_eq_ok.1 h
    cases h

theorem evaluate_eq (site : Site) (t : Tree) (s : Session) :
    evaluate site t s = eval (callWithin site s.room) site t s := rfl

/-- A tree of a statement comes to a value. -/
def Comes (site : Site) (t : Tree) (s : Session) (v : Value) (s' : Session) : Prop :=
  ∃ x, evaluate site t s = .ok x s' ∧ x.resolve s' = .ok v s'

theorem callBuiltin_eq {b : Builtin} {separators : List Separator}
    {operands : Action (List Operand)} (henabled : s.checkEnabled b = .ok ()) :
    callBuiltin enter site b separators operands s =
      (operands >>= b.invoke enter site separators) s := by
  change EStateM.bind (Action.ofFault (s.checkEnabled b)) _ s = _
  rw [henabled]
  rfl

theorem callBuiltin_eq_ok {b : Builtin} {separators : List Separator}
    {operands : Action (List Operand)} {x : Operand}
    (h : callBuiltin enter site b separators operands s = .ok x s') :
    ∃ xs s₁, operands s = .ok xs s₁ ∧ b.invoke enter site separators xs s₁ = .ok x s' := by
  cases henabled : s.checkEnabled b with
  | ok _ =>
    rw [callBuiltin_eq henabled] at h
    exact bind_run_eq_ok.1 h
  | error f =>
    rw [callBuiltin, get_bind_run, henabled] at h
    cases h

theorem eval_binary_eq_ok {op : Operator} {b : Builtin} {l r : Tree} {x : Operand}
    (hb : Builtin.ofOperator? op = some b) (henabled : s.checkEnabled b = .ok ()) :
    eval enter site (.binary op l r) s = .ok x s' ↔ ∃ y s₁ z s₂, eval enter site l s = .ok y s₁ ∧
      eval enter site r s₁ = .ok z s₂ ∧ b.invoke enter site [] [y, z] s₂ = .ok x s' := by
  rw [eval, hb]
  simp only
  rw [callBuiltin_eq henabled]
  constructor
  · intro h
    obtain ⟨ops, s₂, hops, h⟩ := bind_run_eq_ok.1 h
    obtain ⟨y, s₁, hy, hops⟩ := bind_run_eq_ok.1 hops
    obtain ⟨z, _, hz, hops⟩ := bind_run_eq_ok.1 hops
    cases hops
    exact ⟨y, s₁, z, _, hy, hz, h⟩
  · rintro ⟨y, s₁, z, s₂, hy, hz, h⟩
    refine bind_run_eq_ok.2 ⟨_, s₂, bind_run_eq_ok.2 ⟨y, s₁, hy, ?_⟩, h⟩
    exact bind_run_eq_ok.2 ⟨z, s₂, hz, rfl⟩

theorem Operand.resolveAll_two_eq_ok {y z : Operand} {vs : List Value} :
    Operand.resolveAll [y, z] s = .ok vs s' ↔ s' = s ∧ ∃ v w, vs = [v, w] ∧
      y.resolve s = .ok v s ∧ z.resolve s = .ok w s := by
  rw [Operand.resolveAll, List.mapM_cons, List.mapM_cons, List.mapM_nil]
  constructor
  · intro h
    obtain ⟨v, s₁, hv, hrest⟩ := bind_run_eq_ok.1 h
    obtain ⟨_, s₂, hlast, hend⟩ := bind_run_eq_ok.1 hrest
    obtain ⟨w, s₃, hw, hnil⟩ := bind_run_eq_ok.1 hlast
    cases hnil
    cases hend
    obtain rfl := Operand.eq_of_resolve hv
    obtain rfl := Operand.eq_of_resolve hw
    exact ⟨rfl, v, w, rfl, hv, hw⟩
  · rintro ⟨rfl, v, w, rfl, hv, hw⟩
    exact bind_run_eq_ok.2 ⟨v, s', hv, bind_run_eq_ok.2 ⟨[w], s',
      bind_run_eq_ok.2 ⟨w, s', hw, rfl⟩, rfl⟩⟩

theorem Builtin.invoke_two_eq_ok {b : Builtin} {y z x : Operand}
    {act : Value → Value → Action Value} (haccepts : b.accepts 2 = true)
    (hraw : b.performRaw? site [y, z] = none)
    (hact : ∀ v w, b.perform? enter site [] [v, w] = some (act v w)) :
    b.invoke enter site [] [y, z] s = .ok x s' ↔ ∃ v w u, y.resolve s = .ok v s ∧
      z.resolve s = .ok w s ∧ act v w s = .ok u s' ∧ x = .value u := by
  rw [invoke, hraw, List.length_cons, List.length_singleton, haccepts, if_neg (by decide)]
  constructor
  · intro h
    obtain ⟨vs, s₁, hvs, h⟩ := bind_run_eq_ok.1 h
    obtain ⟨rfl, v, w, rfl, hv, hw⟩ := Operand.resolveAll_two_eq_ok.1 hvs
    rw [hact] at h
    obtain ⟨u, s₂, hu, h⟩ := bind_run_eq_ok.1 h
    cases h
    exact ⟨v, w, u, hv, hw, hu, rfl⟩
  · rintro ⟨v, w, u, hv, hw, hu, rfl⟩
    refine bind_run_eq_ok.2 ⟨[v, w], s, Operand.resolveAll_two_eq_ok.2 ⟨rfl, v, w, rfl, hv, hw⟩, ?_⟩
    rw [hact]
    exact bind_run_eq_ok.2 ⟨u, s', hu, rfl⟩

theorem checkEnabled_eq_ok {b : Builtin} (hdebug : b.isDebugOnly = false)
    (hproduction : b.isNotForProduction = false) : s.checkEnabled b = .ok () := by
  simp [Session.checkEnabled, hdebug, hproduction]

theorem Builtin.number_eq_ok {b : Builtin} {v : Value} {x : Float} :
    b.number v s = .ok x s' ↔ v = .number x ∧ s' = s := by
  cases v with
  | number y =>
    exact ⟨fun h ↦ by cases h; exact ⟨rfl, rfl⟩, fun ⟨h, hs⟩ ↦ by cases h; cases hs; rfl⟩
  | _ =>
    refine ⟨fun h ↦ ?_, nofun⟩
    obtain ⟨_, _, -, h⟩ := bind_run_eq_ok.1 h
    cases h

theorem Builtin.rangeOf_eq_ok {b : Builtin} {v w u : Value} :
    b.rangeOf v w s = .ok u s' ↔ ∃ x y, v = .number x ∧ w = .number y ∧ s' = s ∧
      u = .generator (.fresh x y 1) := by
  constructor
  · intro h
    obtain ⟨_, _, hnumbers, hend⟩ := bind_run_eq_ok.1 h
    obtain ⟨x, _, hx, hrest⟩ := bind_run_eq_ok.1 hnumbers
    obtain ⟨y, _, hy, hpair⟩ := bind_run_eq_ok.1 hrest
    cases hpair
    cases hend
    obtain ⟨rfl, rfl⟩ := number_eq_ok.1 hx
    obtain ⟨rfl, rfl⟩ := number_eq_ok.1 hy
    exact ⟨x, y, rfl, rfl, rfl, rfl⟩
  · rintro ⟨x, y, rfl, rfl, rfl, rfl⟩
    rfl

theorem Builtin.stepOf_eq_ok {b : Builtin} {v w u : Value} :
    b.stepOf v w s = .ok u s' ↔ ∃ g z, v = .generator g ∧ w = .number z ∧ (z == 0) = false ∧
      s' = s ∧ u = .generator (.fresh g.start g.stop z) := by
  constructor
  · intro h
    cases v with
    | generator g =>
      obtain ⟨z, _, hz, hrest⟩ := bind_run_eq_ok.1 h
      obtain ⟨rfl, rfl⟩ := number_eq_ok.1 hz
      cases hzero : z == 0 with
      | true => rw [hzero] at hrest; cases hrest
      | false => rw [hzero] at hrest; cases hrest; exact ⟨g, z, rfl, rfl, hzero, rfl, rfl⟩
    | _ =>
      obtain ⟨_, _, -, hfail⟩ := bind_run_eq_ok.1 h
      cases hfail
  · rintro ⟨g, z, rfl, rfl, hzero, rfl, rfl⟩
    change (if (z == 0) = true then _ else _ : Action Value) s' = _
    rw [hzero]
    rfl

/-- The bounds and the step of a range, which come to numbers.  Both bounds are evaluated before
they are looked at. -/
def Bounds (enter : Closure → List Value → Action Value) (site : Site) (lo hi step : Tree)
    (s : Session) (x y z : Float) (s' : Session) : Prop :=
  ∃ a s₁ b s₂ c, eval enter site lo s = .ok a s₁ ∧ eval enter site hi s₁ = .ok b s₂ ∧
    a.resolve s₂ = .ok (.number x) s₂ ∧ b.resolve s₂ = .ok (.number y) s₂ ∧
    eval enter site step s₂ = .ok c s' ∧ c.resolve s' = .ok (.number z) s'

theorem eval_to_eq_ok {lo hi : Tree} {x : Operand} :
    eval enter site (.binary .«to» lo hi) s = .ok x s' ↔ ∃ a s₁ b p q,
      eval enter site lo s = .ok a s₁ ∧ eval enter site hi s₁ = .ok b s' ∧
      a.resolve s' = .ok (.number p) s' ∧ b.resolve s' = .ok (.number q) s' ∧
      x = .value (.generator (.fresh p q 1)) := by
  have hact : ∀ v w, Builtin.«to».perform? enter site [] [v, w] = some (Builtin.«to».rangeOf v w) :=
    fun _ _ ↦ rfl
  rw [eval_binary_eq_ok (b := .«to») rfl (checkEnabled_eq_ok rfl rfl)]
  constructor
  · rintro ⟨a, s₁, b, s₂, ha, hb, hinvoke⟩
    obtain ⟨v, w, u, hv, hw, hu, rfl⟩ := (Builtin.invoke_two_eq_ok rfl rfl hact).1 hinvoke
    obtain ⟨p, q, rfl, rfl, rfl, rfl⟩ := Builtin.rangeOf_eq_ok.1 hu
    exact ⟨a, s₁, b, p, q, ha, hb, hv, hw, rfl⟩
  · rintro ⟨a, s₁, b, p, q, ha, hb, hp, hq, rfl⟩
    exact ⟨a, s₁, b, s', ha, hb, (Builtin.invoke_two_eq_ok rfl rfl hact).2
      ⟨_, _, _, hp, hq, Builtin.rangeOf_eq_ok.2 ⟨p, q, rfl, rfl, rfl, rfl⟩, rfl⟩⟩

theorem eval_range_eq_ok {lo hi step : Tree} {x : Operand} :
    eval enter site (.binary .step (.binary .«to» lo hi) step) s = .ok x s' ↔
      ∃ p q r, Bounds enter site lo hi step s p q r s' ∧ (r == 0) = false ∧
        x = .value (.generator (.fresh p q r)) := by
  have hact : ∀ v w, Builtin.step.perform? enter site [] [v, w] = some (Builtin.step.stepOf v w) :=
    fun _ _ ↦ rfl
  rw [eval_binary_eq_ok (b := .step) rfl (checkEnabled_eq_ok rfl rfl)]
  constructor
  · rintro ⟨_, s₂, c, _, hrange, hc, hinvoke⟩
    obtain ⟨a, s₁, b, p, q, ha, hb, hp, hq, rfl⟩ := eval_to_eq_ok.1 hrange
    obtain ⟨v, w, u, hv, hw, hu, rfl⟩ := (Builtin.invoke_two_eq_ok rfl rfl hact).1 hinvoke
    obtain ⟨g, r, rfl, rfl, hr, rfl, rfl⟩ := Builtin.stepOf_eq_ok.1 hu
    cases hv
    exact ⟨p, q, r, ⟨a, s₁, b, s₂, c, ha, hb, hp, hq, hc, hw⟩, hr, rfl⟩
  · rintro ⟨p, q, r, ⟨a, s₁, b, s₂, c, ha, hb, hp, hq, hc, hw⟩, hr, rfl⟩
    refine ⟨_, s₂, c, s', eval_to_eq_ok.2 ⟨a, s₁, b, p, q, ha, hb, hp, hq, rfl⟩, hc, ?_⟩
    exact (Builtin.invoke_two_eq_ok rfl rfl hact).2
      ⟨_, _, _, rfl, hw, Builtin.stepOf_eq_ok.2 ⟨_, r, rfl, rfl, hr, rfl, rfl⟩, rfl⟩

/-- `lo TO hi STEP step` comes to the range from `lo` on. -/
theorem comes_range_iff {lo hi step : Tree} {v : Value} :
    Comes site (.binary .step (.binary .«to» lo hi) step) s v s' ↔
      ∃ x y z, Bounds (callWithin site s.room) site lo hi step s x y z s' ∧ (z == 0) = false ∧
        v = .generator (.fresh x y z) := by
  constructor
  · rintro ⟨o, heval, hresolve⟩
    rw [evaluate_eq] at heval
    obtain ⟨x, y, z, hbounds, hz, rfl⟩ := eval_range_eq_ok.1 heval
    cases hresolve
    exact ⟨x, y, z, hbounds, hz, rfl⟩
  · rintro ⟨x, y, z, hbounds, hz, rfl⟩
    refine ⟨.value (.generator (.fresh x y z)), ?_, rfl⟩
    rw [evaluate_eq]
    exact eval_range_eq_ok.2 ⟨x, y, z, hbounds, hz, rfl⟩


/-! ## Statements that may be refused for want of memory -/

/-- How an action ends that is refused for want of memory, or else succeeds. -/
inductive Budgeted {α : Type} (Q : α → Session → Prop) : EStateM.Result Stop Session α → Prop
  | ok {a : α} {s : Session} (h : Q a s) : Budgeted Q (.ok a s)
  | refused {stop : Stop} {s : Session} (h : stop.IsBudget) : Budgeted Q (.error stop s)

theorem Budgeted.bind {α β : Type} {Q : α → Session → Prop} {Q' : β → Session → Prop}
    {x : Action α} {f : α → Action β} (hx : Budgeted Q (x s))
    (hf : ∀ a s', Q a s' → Budgeted Q' (f a s')) : Budgeted Q' ((x >>= f) s) := by
  change Budgeted Q' (EStateM.bind x f s)
  unfold EStateM.bind
  generalize x s = r at hx
  cases hx with
  | ok h => exact hf _ _ h
  | refused h => exact .refused h

theorem Budgeted.mono {α : Type} {Q Q' : α → Session → Prop} {r : EStateM.Result Stop Session α}
    (h : Budgeted Q r) (hQ : ∀ a s, Q a s → Q' a s) : Budgeted Q' r := by
  cases h with
  | ok h => exact .ok (hQ _ _ h)
  | refused h => exact .refused h

/-- A session in which a variable has taken a value, and other loops are open. -/
structure Session.Takes (s : Session) (name : String) (v : Value) (loops : List Loop)
    (s' : Session) : Prop where
  value : s'.vars.lookup? name = some v
  others : ∀ other, Text.upper other ≠ Text.upper name →
    s'.vars.lookup? other = s.vars.lookup? other
  loops : s'.loops = loops

namespace Session.Takes

variable {name : String} {v w : Value} {loops loops' : List Loop}

theorem of_assign (hname : IsVariable name) (h : s.assign name v = .ok s') :
    s.Takes name v s.loops s' where
  value := Session.lookup?_of_assign hname h
  others _ hother := Session.lookup?_of_assign_of_ne hname hother h
  loops := by
    obtain ⟨_, _, heq⟩ := Session.eq_of_assign h
    rw [heq]

theorem withLoops (h : s.Takes name v loops s') (loops' : List Loop) :
    s.Takes name v loops' { s' with loops := loops' } where
  value := h.value
  others := h.others
  loops := rfl

theorem trans (h : s.Takes name v loops s₁) (h' : s₁.Takes name w loops' s₂) :
    s.Takes name w loops' s₂ where
  value := h'.value
  others other hother := (h'.others other hother).trans (h.others other hother)
  loops := h'.loops

end Session.Takes

section
variable {name : String} {v : Value}

theorem budgeted_assign (hname : IsVariable name) (v : Value) :
    Budgeted (fun _ s' ↦ s.Takes name v s.loops s') (Action.assign name v s) := by
  change Budgeted _ ((Action.ofStop (s.assign name v) >>= set) s)
  cases h : s.assign name v with
  | ok s' => exact .ok (.of_assign hname h)
  | error stop => exact .refused (Session.isBudget_of_assign hname stop h)

theorem budgeted_execute {t : Tree} {x : Operand} {target : Site} {Q : Session → Prop}
    (h : Budgeted (fun y s' ↦ y = x ∧ Q s') (evaluate site t s))
    (hx : ∀ s', x.outcome site s' = .ok (.null, target) s') :
    Budgeted (fun p s' ↦ p = (.null, target) ∧ Q s') (execute site t s) := by
  have hsettled : Budgeted (fun p s' ↦ p = (.null, target) ∧ Q s')
      ((evaluate site t >>= fun y ↦ y.outcome site) s) := by
    refine h.bind ?_
    rintro _ s' ⟨rfl, hs'⟩
    rw [hx]
    exact .ok ⟨rfl, hs'⟩
  rw [execute, Action.settled]
  generalize (evaluate site t >>= fun x ↦ x.outcome site) s = r at hsettled
  cases hsettled with
  | ok h => exact .ok h
  | refused h => exact .refused (h.settle site)

end

/-! ## Entering a loop -/

theorem Builtin.invoke_of_raw (enter : Closure → List Value → Action Value)
    (separators : List Separator) {b : Builtin} {operands : List Operand} {act : Action Operand}
    (haccepts : b.accepts operands.length = true)
    (hraw : b.performRaw? site operands = some act) :
    b.invoke enter site separators operands = act := by
  rw [invoke, hraw]
  exact if_neg (by rw [haccepts]; decide)

theorem eval_binary_of_raw {op : Operator} {b : Builtin} {l r : Tree} {x y : Operand}
    {act : Action Operand} (hop : Builtin.ofOperator? op = some b)
    (henabled : s.checkEnabled b = .ok ()) (haccepts : b.accepts 2 = true)
    (hl : eval enter site l s = .ok x s₁) (hr : eval enter site r s₁ = .ok y s₂)
    (hraw : b.performRaw? site [x, y] = some act) :
    eval enter site (.binary op l r) s = act s₂ := by
  rw [eval, hop]
  simp only
  rw [callBuiltin_eq henabled, ← Builtin.invoke_of_raw enter [] haccepts hraw]
  exact bind_run_of_ok ((bind_run_of_ok hl).trans (bind_run_of_ok hr))

theorem eval_call_of_raw {name : String} {b : Builtin} {t : Tree} {separators : List Separator}
    {act : Operand → Action Operand} (hname : Builtin.ofName? name = some b)
    (henabled : s.checkEnabled b = .ok ()) (haccepts : b.accepts 1 = true)
    (hraw : ∀ x, b.performRaw? site [x] = some (act x)) :
    eval enter site (.call name [t] separators) s = (eval enter site t >>= act) s := by
  rw [eval, hname]
  simp only
  rw [callBuiltin_eq henabled]
  have hinvoke : ∀ x, b.invoke enter site separators [x] = act x := fun x ↦
    Builtin.invoke_of_raw enter separators haccepts (hraw x)
  cases ht : eval enter site t s with
  | ok x s₁ =>
    rw [bind_run_of_ok ht, ← hinvoke]
    exact bind_run_of_ok (bind_run_of_ok ht)
  | error stop s₁ =>
    change EStateM.bind (EStateM.bind (eval enter site t) _) _ s =
      EStateM.bind (eval enter site t) _ s
    rw [EStateM.bind, EStateM.bind, EStateM.bind, ht]

/-! ### Ranges -/

theorem budgeted_enterLoop {name : String} (hname : IsVariable name) (v : Value)
    (source : LoopSource) :
    Budgeted (fun x s' ↦ x = .value .null ∧ s.Takes name v (⟨name, source, site⟩ :: s.loops) s')
      (Builtin.enterLoop name v source site s) :=
  (budgeted_assign hname v).bind fun _ _ h ↦ .ok ⟨rfl, h.loops ▸ h.withLoops _⟩

theorem budgeted_store {name : String} (hname : IsVariable name) (v : Value)
    (statement : String) : Budgeted (fun n s' ↦ n = name ∧ s.Takes name v s.loops s')
      ((Operand.reference name).store v statement s) :=
  (budgeted_assign hname v).bind fun _ _ h ↦ .ok ⟨rfl, h⟩

/-- A loop over a range is entered with the start of the range. -/
theorem budgeted_for {name : String} (hname : IsVariable name) {e : Tree} {g : Generator}
    (he : Comes site e s (.generator g) s₁) (separators : List Separator) :
    Budgeted (fun x s' ↦ x = .value .null ∧
        s₁.Takes name (.number g.start)
          (⟨name, .range (.fresh g.start g.stop g.step), site⟩ :: s₁.loops) s')
      (evaluate site (.call "FOR" [.binary .assign (.ident name) e] separators) s) := by
  obtain ⟨x, heval, hresolve⟩ := he
  rw [evaluate_eq] at heval ⊢
  rw [eval_call_of_raw (b := .loop) (by decide) (checkEnabled_eq_ok rfl rfl) rfl fun _ ↦ rfl]
  refine Budgeted.bind (Q := fun y s' ↦ y = .assignment name (.generator g) ∧
    s₁.Takes name (.generator g) s₁.loops s') ?_ ?_
  · rw [eval_binary_of_raw (b := .assign) (by decide) (checkEnabled_eq_ok rfl rfl) rfl rfl heval
      rfl, Builtin.assignOf, bind_run_of_ok hresolve]
    refine (budgeted_store hname _ _).bind fun n s' h ↦ ?_
    exact .ok ⟨h.1 ▸ rfl, h.2⟩
  · rintro _ s' ⟨rfl, htakes⟩
    change Budgeted _ (Builtin.enterLoop name _ _ site s')
    refine (budgeted_enterLoop hname _ _).mono fun y s₂ h ↦ ?_
    exact ⟨h.1, htakes.loops ▸ htakes.trans h.2⟩

/-- A loop over the items of a sequence is entered with the first of them, or with null. -/
theorem budgeted_foreach {name : String} (hname : IsVariable name) {e : Tree} {v : Value}
    (he : Comes site e s v s₁) {items : List Value}
    (hitems : Builtin.loopOver.items v s₁ = .ok items s₁) (separators : List Separator) :
    Budgeted (fun x s' ↦ x = .value .null ∧
        s₁.Takes name (items.headD .null) (⟨name, .rest items.tail, site⟩ :: s₁.loops) s')
      (evaluate site (.call "FOREACH" [.binary .member (.ident name) e] separators) s) := by
  obtain ⟨x, heval, hresolve⟩ := he
  rw [evaluate_eq] at heval ⊢
  rw [eval_call_of_raw (b := .loopOver) (by decide) (checkEnabled_eq_ok rfl rfl) rfl fun _ ↦ rfl]
  refine Budgeted.bind (Q := fun y s' ↦ y = .assignment name v ∧ s' = s₁) ?_ ?_
  · rw [eval_binary_of_raw (b := .member) (by decide) (checkEnabled_eq_ok rfl rfl) rfl rfl heval
      rfl]
    change Budgeted _ ((x.resolve >>= _) s₁)
    rw [bind_run_of_ok hresolve]
    exact .ok ⟨rfl, rfl⟩
  · rintro _ _ ⟨rfl, rfl⟩
    change Budgeted _ ((Builtin.loopOver.items v >>= _) _)
    rw [bind_run_of_ok hitems]
    exact budgeted_enterLoop hname _ _

/-! ## Stepping a loop on -/

/-- The values that a loop takes after the current value of its variable. -/
inductive LoopSource.Gives : LoopSource → Value → List Value → Prop
  | range {g : Generator} {x : Float} {xs : List Float} (h : g.Walks x (x :: xs)) :
      Gives (.range g) (.number x) (xs.map .number)
  | rest (v : Value) (more : List Value) : Gives (.rest more) v more

section
variable {name : String} {source : LoopSource} {head : Site} {outer : List Loop} {v w : Value}
  {rest ws : List Value}

theorem evaluate_next (hloops : s.loops = ⟨name, source, head⟩ :: outer) :
    evaluate site (.call "NEXT" [] []) s = Builtin.next.stepLoop ⟨name, source, head⟩ outer s := by
  rw [evaluate_eq, eval, show Builtin.ofName? "NEXT" = some .next by decide]
  simp only
  rw [callBuiltin_eq (checkEnabled_eq_ok rfl rfl)]
  change Builtin.next.invoke (callWithin site s.room) site [] [] s = _
  have hinvoke : Builtin.next.invoke (callWithin site s.room) site [] [] =
      Builtin.next.nextOf [] := Builtin.invoke_of_raw _ _ rfl rfl
  rw [hinvoke, Builtin.nextOf, get_bind_run, hloops]
  rfl

theorem stepLoop_range (hname : IsVariable name) {g : Generator} {x : Float}
    (hv : s.vars.lookup? name = some (.number x)) :
    Builtin.next.stepLoop ⟨name, .range g, head⟩ outer s =
      (match (g.advance x).2 with
        | some y => do
          Action.assign name (.number y)
          return .jump head.next
        | none => do
          Action.assign name (.number (g.advance x).1.current)
          Builtin.leaveLoop outer : Action Operand)
        { s with loops := ⟨name, .range (g.advance x).1, head⟩ :: outer } := by
  rw [Builtin.stepLoop]
  simp only
  rw [bind_run_of_ok (Action.lookup_eq_ok.2 ⟨Session.lookup_of_isVariable hname hv, rfl⟩)]
  rfl

/-- The last value of a loop was taken: the loop is left. -/
theorem budgeted_next_last (site : Site) (hname : IsVariable name)
    (hloops : s.loops = ⟨name, source, head⟩ :: outer) (hv : s.vars.lookup? name = some v)
    (hgives : source.Gives v []) :
    Budgeted (fun x s' ↦ x = .value .null ∧ s'.loops = outer ∧
        ∀ other, Text.upper other ≠ Text.upper name → s'.vars.lookup? other = s.vars.lookup? other)
      (evaluate site (.call "NEXT" [] []) s) := by
  rw [evaluate_next hloops]
  generalize hrest : ([] : List Value) = rest at hgives
  cases hgives with
  | @range g x xs h =>
    obtain rfl := List.map_eq_nil_iff.1 hrest.symm
    cases h with
    | last hlast =>
      rw [stepLoop_range hname hv, hlast]
      refine (budgeted_assign hname _).bind fun _ s' h ↦ ?_
      exact .ok ⟨rfl, rfl, h.others⟩
    | next _ hempty => cases hempty
  | rest v more =>
    subst hrest
    exact .ok ⟨rfl, rfl, fun _ _ ↦ rfl⟩

/-- A loop is stepped on to the next value. -/
theorem budgeted_next (site : Site) (hname : IsVariable name)
    (hloops : s.loops = ⟨name, source, head⟩ :: outer) (hv : s.vars.lookup? name = some v)
    (hgives : source.Gives v (w :: ws)) :
    Budgeted (fun x s' ↦ x = .jump head.next ∧ ∃ source', source'.Gives w ws ∧
        s.Takes name w (⟨name, source', head⟩ :: outer) s')
      (evaluate site (.call "NEXT" [] []) s) := by
  rw [evaluate_next hloops]
  generalize hrest : w :: ws = rest at hgives
  cases hgives with
  | @range g x xs h =>
    obtain ⟨y, ys, rfl, rfl, rfl⟩ := List.map_eq_cons_iff.1 hrest.symm
    cases h with
    | next hnext hwalks =>
      obtain rfl := hwalks.head_eq
      rw [stepLoop_range hname hv, hnext]
      have hgives' := LoopSource.Gives.range (hwalks.withCurrent (g.advance x).1.current)
      refine (budgeted_assign hname _).bind fun _ s' h ↦ .ok ⟨rfl, _, hgives', ?_⟩
      exact ⟨h.value, h.others, h.loops⟩
  | rest v more =>
    subst hrest
    change Budgeted _ ((Action.assign name w >>= _)
      { s with loops := ⟨name, .rest ws, head⟩ :: outer })
    refine (budgeted_assign hname _).bind fun _ s' h ↦ .ok ⟨rfl, _, .rest w ws, ?_⟩
    exact ⟨h.value, h.others, h.loops⟩

end
end LineBasic
