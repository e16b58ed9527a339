import LineBasic.Proofs.Session.Reachable
import LineBasic.Proofs.Writes

/-!
# What happens to variables

A variable gets a value when one is assigned to its name, and all of them are lost when they are
cleared.  Nothing else changes variables, so what happens to them can be told as a list of events,
however the assignments are spread over expressions, calls and loops.

* `VariableEvent`, `VariableEvent.Touches` — what happens, and to which name.
* `Assigns` — the events that an action goes through.
* `Assigns.ends`, `Assigns.ends_lookup?` — what events make of variables, and the names that they
  leave alone.
* `assigns_execute`, `assigns_evalValues` — what happens in statements and arguments.
* `Session.Passes`, `Dialogue.Turn.passes_exchange` — what happens in the course of a dialogue.
-/

set_option autoImplicit false
namespace LineBasic

/-! ## Events -/

/-- Something that happens to the variables. -/
inductive VariableEvent where
  | assigned (name : String) (v : Value)
  | cleared

namespace VariableEvent

/-- The variables after an event. -/
def on (vars : Variables) : VariableEvent → Variables
  | assigned name v => ⟨vars.table.insert (Text.upper name) v⟩
  | cleared => .empty

/-- Whether a name may mean something else after an event. -/
def Touches (name : String) : VariableEvent → Prop
  | assigned other _ => Text.upper other = Text.upper name
  | cleared => True

instance (name : String) : DecidablePred (Touches name)
  | assigned _ _ => inferInstanceAs (Decidable (_ = _))
  | cleared => inferInstanceAs (Decidable True)

theorem lookup?_on {name : String} {e : VariableEvent} (h : ¬ e.Touches name) (vars : Variables) :
    (e.on vars).lookup? name = vars.lookup? name := by
  cases e with
  | assigned other v =>
    have hother : Text.upper name ≠ Text.upper other := fun heq ↦ h heq.symm
    simp only [on, Variables.lookup?, Table.get?_insert_of_ne _ v hother]
  | cleared => exact absurd trivial h

theorem lookup?_foldl_on {name : String} {es : List VariableEvent}
    (h : ∀ e ∈ es, ¬ e.Touches name) (vars : Variables) :
    (es.foldl on vars).lookup? name = vars.lookup? name := by
  induction es generalizing vars with
  | nil => rfl
  | cons e es ih =>
    obtain ⟨he, hes⟩ := List.forall_mem_cons.1 h
    exact (ih hes _).trans (lookup?_on he vars)

end VariableEvent

/-- How an action ends that leaves the variables alone. -/
abbrev SameVariables {α : Type} (s : Session) (r : EStateM.Result Stop Session α) : Prop :=
  Ends (fun s' ↦ s'.vars = s.vars) (fun _ ↦ True) (fun _ ↦ True) r

/-- The events that an action goes through in a session. -/
inductive Assigns : {α : Type} → Action α → Session → List VariableEvent → Prop
  | spared {α : Type} {act : Action α} {s : Session} (h : SameVariables s (act s)) :
      Assigns act s []
  | assigned {s s' : Session} {name : String} {v : Value} (h : s.assign name v = .ok s') :
      Assigns (Action.assign name v) s [.assigned name v]
  | cleared {s : Session} : Assigns Builtin.clearOf s [.cleared]
  | bind {α β : Type} {x : Action α} {f : α → Action β} {s s₁ : Session} {a : α}
      {es es' : List VariableEvent} (hx : Assigns x s es) (ha : x s = .ok a s₁)
      (hf : Assigns (f a) s₁ es') : Assigns (x >>= f) s (es ++ es')
  | stopped {α β : Type} {x : Action α} {f : α → Action β} {s s₁ : Session} {e : Stop}
      {es : List VariableEvent} (hx : Assigns x s es) (he : x s = .error e s₁) :
      Assigns (x >>= f) s es
  | inCall {α : Type} {act : Action α} {s : Session} {c : Closure} {args : Frame}
      {es : List VariableEvent} (hfull : s.binders.isFull = false)
      (h : Assigns act { s with binders := s.binders.enter c args } es) :
      Assigns (Action.inCall c args act) s es
  | settled {α : Type} {act : Action α} {s : Session} {es : List VariableEvent} (site : Site)
      (h : Assigns act s es) : Assigns (act.settled site) s es

theorem Action.assign_of_ok {s s' : Session} {name : String} {v : Value}
    (h : s.assign name v = .ok s') : Action.assign name v s = .ok () s' := by
  rw [Action.assign, get_bind_run, h]
  rfl

section
variable {α : Type} {act : Action α} {s : Session} {es : List VariableEvent}

/-- However an action ends, the variables are as its events make them. -/
theorem Assigns.ends (h : Assigns act s es) :
    Ends (fun s' ↦ s'.vars = es.foldl VariableEvent.on s.vars) (fun _ ↦ True) (fun _ ↦ True)
      (act s) := by
  induction h with
  | spared h => exact h
  | @assigned s s' name v h =>
    obtain ⟨vars, hvars, rfl⟩ := Session.eq_of_assign h
    rw [Action.assign_of_ok h]
    refine .ok trivial ?_
    rw [Variables.define] at hvars
    split at hvars
    · cases hvars
    · exact (Except.ok.inj hvars).symm
  | cleared => exact .ok trivial rfl
  | @bind _ _ x f s s₁ a es es' _ ha _ ihx ihf =>
    have hfirst := (ha ▸ ihx).of_ok.2
    rw [bind_run_of_ok ha, List.foldl_append, ← hfirst]
    exact ihf
  | @stopped _ _ x f s s₁ e es _ he ih =>
    rw [bind_run_eq_error.2 (.inl he)]
    exact .error trivial (he ▸ ih).of_error.2
  | inCall hfull _ ih =>
    rw [inCall_of_not_isFull hfull]
    exact ih.putBack fun _ h ↦ h
  | settled site _ ih => exact ih.settled site

/-- A name that no event touches means what it meant before. -/
theorem Assigns.ends_lookup? (h : Assigns act s es) {name : String}
    (hes : ∀ e ∈ es, ¬ e.Touches name) :
    Ends (fun s' ↦ s'.vars.lookup? name = s.vars.lookup? name) (fun _ ↦ True) (fun _ ↦ True)
      (act s) :=
  h.ends.mono (fun _ hvars ↦ hvars ▸ VariableEvent.lookup?_foldl_on hes _) (fun _ ↦ id) fun _ ↦ id

end

/-! ## Statements -/

/-- An action in which, wherever it is started, nothing happens to variables but events. -/
def MakesAssignments {α : Type} (act : Action α) : Prop :=
  ∀ s, ∃ es, Assigns act s es

namespace MakesAssignments

variable {α β : Type}

theorem of_keeps {Q : α → Prop} {act : Action α} (h : ∀ vars, Keeps (·.vars = vars) Q act) :
    MakesAssignments act :=
  fun s ↦ ⟨[], .spared (((h s.vars).run s rfl).mono (fun _ ↦ id) (fun _ _ ↦ trivial) fun _ ↦ id)⟩

theorem bind {x : Action α} {f : α → Action β} (hx : MakesAssignments x)
    (hf : ∀ a, (∃ s s', x s = .ok a s') → MakesAssignments (f a)) :
    MakesAssignments (x >>= f) := by
  intro s
  obtain ⟨es, hes⟩ := hx s
  cases hxs : x s with
  | ok a s₁ =>
    obtain ⟨es', hes'⟩ := hf a ⟨s, s₁, hxs⟩ s₁
    exact ⟨es ++ es', .bind hes hxs hes'⟩
  | error e s₁ => exact ⟨es, .stopped hes hxs⟩

theorem get {f : Session → Action α} (h : ∀ s, MakesAssignments (f s)) :
    MakesAssignments (MonadState.get >>= f) :=
  .bind (.of_keeps fun _ ↦ (⟨fun _ hs ↦ .ok trivial hs⟩ : Keeps _ (fun _ ↦ True) _)) fun s _ ↦ h s

theorem assign (name : String) (v : Value) : MakesAssignments (Action.assign name v) := by
  intro s
  cases h : s.assign name v with
  | ok s' => exact ⟨_, .assigned h⟩
  | error stop =>
    refine ⟨[], .spared ?_⟩
    rw [Action.assign, get_bind_run, h]
    exact .error trivial rfl

theorem write (base : Nat) (way : List Nat) (index : Nat) (name : String) (v : Value)
    (statement : String) :
    MakesAssignments ((Operand.element base way index name).store v statement) := by
  refine fun s ↦ ⟨[], .spared ?_⟩
  rw [Operand.store_element]
  cases s.heap.writeElement base way index v with
  | ok heap => exact .ok trivial rfl
  | error stop => exact .error trivial rfl

theorem inCall {act : Action α} (c : Closure) (args : Frame) (h : MakesAssignments act) :
    MakesAssignments (Action.inCall c args act) := by
  intro s
  cases hfull : s.binders.isFull with
  | true =>
    refine ⟨[], .spared ?_⟩
    rw [inCall_of_isFull hfull]
    exact .error trivial rfl
  | false =>
    obtain ⟨es, hes⟩ := h { s with binders := s.binders.enter c args }
    exact ⟨es, .inCall hfull hes⟩

theorem settled {act : Action α} (h : MakesAssignments act) (site : Site) :
    MakesAssignments (act.settled site) := by
  intro s
  obtain ⟨es, hes⟩ := h s
  exact ⟨es, .settled site hes⟩

end MakesAssignments

theorem keeps_vars_randomOf {vars : Variables} (b : Builtin) (v : Value) :
    Keeps (·.vars = vars) (fun _ ↦ True) (b.randomOf v) := by
  refine .bind ((b.detached_number v).vars vars) fun x _ ↦ ?_
  have hlast : Keeps (·.vars = vars) (fun _ ↦ True)
      (do return .number (← get).random.last : Action Value) :=
    .get fun _ _ ↦ .pure trivial
  exact .ite (fun _ ↦ .bind (.modify fun _ ↦ id) fun _ _ ↦ hlast) fun _ ↦ hlast

/-- In all computations, nothing happens to variables but events. -/
@[reducible]
def assigning (site : Site) : Trait site where
  holds := MakesAssignments
  permits _ := true
  pure _ := .of_keeps fun _ ↦ Keeps.pure (Q := fun _ ↦ True) trivial
  bind := .bind
  detached h := .of_keeps h.vars
  assign := .assign
  write _ _ base way index name v := .write base way index name v _
  binders _ h := .get fun s ↦ h s.binders
  inCall := .inCall
  loops _ h := .get fun s ↦ h s.loops
  putLoops _ := .of_keeps fun _ ↦ .modify fun _ ↦ id
  goSub _ := .of_keeps fun _ ↦ .modify fun _ ↦ id
  comeBack _ := .of_keeps fun _ ↦ keeps_comeBackOf fun _ _ ↦ id
  label _ x := .of_keeps fun _ ↦ keeps_labelOf (fun _ _ ↦ id) site x
  random _ v := .of_keeps fun _ ↦ keeps_vars_randomOf _ v
  collectData _ values := .of_keeps fun _ ↦ keeps_dataOf (fun _ _ ↦ id) values
  nextDatum := .of_keeps fun _ ↦ keeps_nextDatum fun _ _ ↦ id
  restore := .of_keeps fun _ ↦ keeps_restoreOf fun _ _ ↦ id
  clear _ := ⟨_, .cleared⟩

/-- Nothing happens to variables in a statement but events. -/
theorem assigns_execute (site : Site) (t : Tree) (s : Session) :
    ∃ es, Assigns (execute site t) s es := by
  have hevaluate : MakesAssignments (evaluate site t) :=
    Trait.holds_evaluate (P := assigning site) (fun _ ↦ rfl) t
  have hoperand : MakesAssignments (evaluate site t >>= fun x ↦ x.outcome site) :=
    hevaluate.bind fun x _ ↦ .of_keeps (x.detached_outcome site).vars
  exact hoperand.settled site s

theorem assigns_evalValues (site : Site) (room : Nat) (ts : List Tree) (s : Session) :
    ∃ es, Assigns (evalValues (callWithin site room) site ts) s es := by
  have henter (c : Closure) (args : List Value) : MakesAssignments (callWithin site room c args) :=
    Trait.holds_callWithin (P := assigning site) (fun _ ↦ rfl) room c args
  have hshows : (assigning site).comparison.rel Eq (evalValues (callWithin site room) site ts)
      (evalValues (callWithin site room) site ts) :=
    Comparison.evalValues fun t _ ↦ Comparison.gives_eval (Trait.enters_self henter)
      (Tree.callsOnly_of_forall (fun _ ↦ rfl) t)
  exact hshows.holds s

/-! ## Dialogues -/

/-- What happens to the variables on the way from one session to another: by statements and by what
runs and dialogues do between statements. -/
inductive Session.Passes (s : Session) : List VariableEvent → Session → Prop
  | refl : Passes s [] s
  | executed {es es' s₁ s₂ site t} (h : Passes s es s₁) (hes' : Assigns (execute site t) s₁ es')
      (hend : Ends (· = s₂) (fun _ ↦ True) (fun _ ↦ True) (execute site t s₁)) :
      Passes s (es ++ es') s₂
  | books {es s₁ s₂} (h : Passes s es s₁) (hs : s₁.SameValues s₂) : Passes s es s₂
  | unwound {es s₁} (h : Passes s es s₁) : Passes s es s₁.unwind
  | returned {es s₁} (h : Passes s es s₁) :
      Passes s es { s₁ with binders := s₁.binders.reset }
  | reset {es s₁} (h : Passes s es s₁) : Passes s (es ++ [.cleared]) s₁.reset

namespace Session

variable {s s' : Session} {es : List VariableEvent}

theorem Passes.vars (h : s.Passes es s') : s'.vars = es.foldl VariableEvent.on s.vars := by
  induction h with
  | refl => rfl
  | executed _ hes' hend ih =>
    rw [List.foldl_append, ← ih]
    have hboth := hend.and hes'.ends
    generalize LineBasic.execute _ _ _ = r at hboth
    cases hboth with
    | ok _ h => exact h.1 ▸ h.2
    | error _ h => exact h.1 ▸ h.2
  | books _ hs ih => exact hs.vars.trans ih
  | unwound _ ih => exact ih
  | returned _ ih => exact ih
  | reset _ _ => rw [List.foldl_append]; rfl

theorem survives_passes (s : Session) : Survives fun s' ↦ ∃ es, s.Passes es s' where
  books := fun ⟨es, h⟩ hs ↦ ⟨es, h.books hs⟩
  unwind := fun ⟨es, h⟩ ↦ ⟨es, h.unwound⟩
  returned := fun ⟨es, h⟩ ↦ ⟨es, h.returned⟩
  reset := fun ⟨_, h⟩ ↦ ⟨_, h.reset⟩
  execute site t _ := by
    refine ⟨fun s₁ ⟨es, h⟩ ↦ ?_⟩
    obtain ⟨es', hes'⟩ := assigns_execute site t s₁
    cases hs : LineBasic.execute site t s₁ with
    | ok p s₂ => exact .ok trivial ⟨_, h.executed hes' (hs ▸ .ok trivial rfl)⟩
    | error e s₂ => exact .error trivial ⟨_, h.executed hes' (hs ▸ .error trivial rfl)⟩

end Session

/-- Whatever is done in a turn, nothing happens to variables but events. -/
theorem Dialogue.Turn.passes_exchange (turn : Turn) (d : Dialogue) :
    Ends (fun d' ↦ ∃ es, d.session.Passes es d'.session) (fun _ ↦ True) (fun _ ↦ True)
      (turn.exchange d) :=
  (turn.keeps_exchange (Session.survives_passes d.session).outlasts).run d ⟨[], .refl⟩

end LineBasic
