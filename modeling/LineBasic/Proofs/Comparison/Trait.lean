import LineBasic.Proofs.Comparison.Evaluation

/-!
# Traits of computations

What is true of the parts that statements are built of, and of all that is built of such parts, is
true of statements.  A trait is a property of this kind.  It is shown by comparing computations with
themselves.

* `Trait` — a property of computations at a site.
* `Trait.holds_call`, `Trait.holds_invoke`, `Trait.holds_eval` — functions, builtins and trees.
* `Trait.holds_evaluate` — whole evaluations, where all builtins are permitted.
-/

set_option autoImplicit false
namespace LineBasic

/-- The depth of calls that is left, which the calls under way tell. -/
def Binders.Stack.room (b : Binders.Stack) : Nat :=
  match b.limit.whole? with
  | some limit => (limit - b.depth).toNat
  | none => boundlessDepth

/-- A property of the computations at a site, with what it has to be known of. -/
structure Trait (site : Site) where
  holds : {α : Type} → Action α → Prop
  /-- The builtins that may be called. -/
  permits : Builtin → Bool
  pure : ∀ {α : Type} (a : α), holds (pure a)
  bind : ∀ {α β : Type} {x : Action α} {f : α → Action β}, holds x →
    (∀ a, (∃ s s', x s = .ok a s') → holds (f a)) → holds (x >>= f)
  detached : ∀ {α : Type} {act : Action α}, Detached act → holds act
  assign : ∀ name v, holds (Action.assign name v)
  write : ∀ {b : Builtin}, b.writes = true → permits b = true → ∀ base way index name v,
    holds ((Operand.element base way index name).store v b.name)
  /-- Looking at the frames in force and the calls under way. -/
  binders : ∀ {α : Type} (f : Binders.Stack → Action α), (∀ b, holds (f b)) →
    holds (do f (← get).binders)
  inCall : ∀ {act : Action Value} (c : Closure) (args : Frame), holds act →
    holds (Action.inCall c args act)
  /-- Looking at the open loops. -/
  loops : ∀ {α : Type} (f : List Loop → Action α), (∀ ls, holds (f ls)) →
    holds (do f (← get).loops)
  putLoops : ∀ ls, holds (modify fun s ↦ { s with loops := ls } : Action Unit)
  goSub : permits .gosub = true →
    holds (modify fun s ↦ { s with returns := site.next :: s.returns } : Action Unit)
  comeBack : permits .comeBack = true → holds Builtin.comeBackOf
  label : permits .label = true → ∀ x, holds (Builtin.labelOf site x)
  random : permits .random = true → ∀ v, holds (Builtin.random.randomOf v)
  collectData : permits .data = true → ∀ values, holds (Builtin.dataOf values)
  nextDatum : holds Builtin.nextDatum
  restore : holds Builtin.restoreOf
  clear : holds Builtin.clearOf

namespace Trait

variable {site : Site} (P : Trait site) {α β : Type}

/-- A computation with a trait, and with values that have to do with others. -/
structure Shows (Q : α → α → Prop) (act : Action α) : Prop where
  holds : P.holds act
  value : ∀ s a s', act s = .ok a s' → ∃ a', Q a a'

variable {P}

theorem shows {act : Action α} (h : P.holds act) : P.Shows Eq act :=
  ⟨h, fun _ a _ _ ↦ ⟨a, rfl⟩⟩

theorem Shows.bind {Q : α → α → Prop} {Q' : β → β → Prop} {x : Action α} {f : α → Action β}
    (hx : P.Shows Q x) (hf : ∀ a a', Q a a' → P.Shows Q' (f a)) : P.Shows Q' (x >>= f) := by
  have hthen (a : α) (h : ∃ s s', x s = .ok a s') : P.Shows Q' (f a) := by
    obtain ⟨s, s', hs⟩ := h
    obtain ⟨a', ha⟩ := hx.value s a s' hs
    exact hf a a' ha
  refine ⟨P.bind hx.holds fun a h ↦ (hthen a h).holds, fun s b s' h ↦ ?_⟩
  obtain ⟨a, s₁, ha, hb⟩ := bind_run_eq_ok.1 h
  exact (hthen a ⟨s, s₁, ha⟩).value s₁ b s' hb

theorem shows_operand {act : Action Operand} (h : P.holds act) :
    P.Shows (Operand.Same fun _ _ ↦ True) act :=
  ⟨h, fun _ x _ _ ↦ ⟨x, x.same_self fun _ ↦ trivial⟩⟩

variable (P)

/-- The comparison of computations with themselves. -/
@[reducible]
def comparison : Comparison site site where
  rel Q act _ := P.Shows Q act
  heads _ _ := True
  targets _ _ := True
  permits := P.permits
  pure h := ⟨P.pure _, fun _ _ _ hok ↦ by cases hok; exact ⟨_, h⟩⟩
  bind := .bind
  detached h := shows (P.detached h)
  assign name v := shows (P.assign name v)
  write hwrites hb base way index name v := shows (P.write hwrites hb base way index name v)
  frames f _ h := ⟨P.binders (fun b ↦ f b.frames) fun b ↦ (h b.frames).holds,
    fun s a s' ↦ (h s.binders.frames).value s a s'⟩
  inCall c args h := shows (P.inCall c args h.holds)
  loops f _ h := by
    have hself (ls : List Loop) := h ls ls (List.forall₂_same.2 fun _ _ ↦ ⟨rfl, rfl, trivial⟩)
    exact ⟨P.loops f fun ls ↦ (hself ls).holds, fun s a s' ↦ (hself s.loops).value s a s'⟩
  putLoops ls _ _ := shows (P.putLoops ls)
  head := trivial
  next _ := trivial
  finish := trivial
  line _ b x := ⟨P.detached (b.detached_targetLine x), fun _ n _ _ ↦ ⟨n, trivial⟩⟩
  goSub h := shows (P.goSub h)
  comeBack h := shows_operand (P.comeBack h)
  label h x := shows_operand (P.label h x)
  resolve _ := rfl
  random h v := shows (P.random h v)
  collectData h values := shows (P.collectData h values)
  nextDatum := shows P.nextDatum
  restore := shows P.restore
  clear := shows P.clear

/-! ## What follows -/

variable {P}

theorem holds_mapM {γ : Type} {f : γ → Action α} (h : ∀ c, P.holds (f c)) (cs : List γ) :
    P.holds (cs.mapM f) := by
  have hshows : P.comparison.rel Eq (cs.mapM f) (cs.mapM f) :=
    Comparison.mapM (fun c ↦ shows (h c)) cs
  exact hshows.holds

theorem holds_filterM {f : α → Action Bool} (h : ∀ a, P.holds (f a)) (as : List α) :
    P.holds (as.filterM f) := by
  have hshows : P.comparison.rel Eq (as.filterM f) (as.filterM f) :=
    Comparison.filterM (fun a ↦ shows (h a)) as
  exact hshows.holds

variable {enter : Closure → List Value → Action Value} (henter : ∀ c args, P.holds (enter c args))

include henter

theorem enters_self : P.comparison.Enters enter enter :=
  fun c args ↦ shows (henter c args)

theorem holds_call (f : Callable) (args : List Value) : P.holds (f.call enter args) :=
  (Comparison.call (enters_self henter) f args).holds

theorem holds_invoke {b : Builtin} (hb : P.permits b = true) (separators : List Separator)
    (operands : List Operand) : P.holds (b.invoke enter site separators operands) := by
  have hsame : List.Forall₂ (Operand.Same P.comparison.targets) operands operands :=
    List.forall₂_same.2 fun x _ ↦ x.same_self fun _ ↦ trivial
  exact (Comparison.gives_invoke (enters_self henter) hb separators hsame).holds

theorem holds_eval {t : Tree} (ht : t.callsOnly P.permits = true) :
    P.holds (eval enter site t) :=
  (Comparison.gives_eval (enters_self henter) ht).holds

theorem holds_callBody {c : Closure} (hc : c.body.callsOnly P.permits = true) (args : Frame) :
    P.holds (Action.inCall c args do (← eval enter site c.body).resolve) :=
  P.inCall c args <| P.bind (holds_eval henter hc) fun x _ ↦ P.detached x.detached_resolve

omit henter in
theorem holds_callWithin (hall : ∀ b, P.permits b = true) (room : Nat) (c : Closure)
    (args : List Value) : P.holds (callWithin site room c args) := by
  induction room generalizing c args with
  | zero => exact P.binders (fun b ↦ Action.fail b.tooDeep) fun _ ↦ P.detached (.fail _)
  | succ room ih => exact holds_callBody ih (Tree.callsOnly_of_forall hall _) args

omit henter in
/-- A trait that allows for all builtins is one of all evaluations. -/
theorem holds_evaluate (hall : ∀ b, P.permits b = true) (t : Tree) :
    P.holds (evaluate site t) :=
  P.binders (fun b ↦ eval (callWithin site b.room) site t) fun b ↦
    holds_eval (holds_callWithin hall b.room) (Tree.callsOnly_of_forall hall t)

end Trait
end LineBasic
