import LineBasic.Operand
import LineBasic.Proofs.Tree.Induction
import LineBasic.Proofs.Value.Failures
import LineBasic.Tree.Curry

/-!
# Runs in lockstep

Much of what is known of evaluation is known by comparing two runs: of an action in two sessions
that differ in the arguments of the calls under way only, or of two actions that enter functions in
different ways.  The two runs do the same as long as neither looks at those arguments, and all
values that come up are of a kind.

A `World` says what kind of values that is, in which ways the runs may stop differently, and with
which stops the second may leave the first alone.  `Lockstep` compares two actions in a world; there
is one lemma for each way of building an action.

* `Session.All` — what holds of all values that a session keeps.
* `World`, `Lockstep` — the comparison.
* `Lockstep.bind`, `Lockstep.get`, … — its rules.
-/

set_option autoImplicit false
namespace LineBasic

/-! ## Stops -/

/-- Whether a kind of faults is another than that of references without a value. -/
def FaultKind.IsOther : FaultKind → Prop
  | .unresolvedReference => False
  | _ => True

/-- Whether a fault is that of a parameter without an argument. -/
def Fault.IsUnbound (f : Fault) : Prop :=
  f.kind = .unresolvedReference ∧ f.message = "Unresolved reference"

/-- Whether a stop is that of a parameter without an argument. -/
def Stop.IsUnbound (stop : Stop) : Prop :=
  ∃ f, stop = .fault f ∧ f.IsUnbound

theorem Stop.not_isUnbound_of_not_isFault {stop : Stop} (h : ¬ stop.IsFault) :
    ¬ stop.IsUnbound := by
  rintro ⟨f, rfl, -⟩
  exact h trivial

theorem Fault.not_isUnbound {f : Fault} (h : f.kind.IsOther) : ¬ f.IsUnbound := by
  rintro ⟨hkind, -⟩
  rw [hkind] at h
  exact h

theorem Stop.isUnbound_fault_iff {f : Fault} : (Stop.fault f).IsUnbound ↔ f.IsUnbound := by
  constructor
  · rintro ⟨g, hg, hunbound⟩
    cases hg
    exact hunbound
  · exact fun h ↦ ⟨f, rfl, h⟩

/-! ## The values of a session -/

/-- What holds of all elements of all arrays. -/
def Heap.All (p : Value → Prop) (h : Heap) : Prop :=
  ∀ place, ∀ v ∈ h.elements place, p v

/-- What holds of the values of all variables. -/
def Variables.All (p : Value → Prop) (vars : Variables) : Prop :=
  ∀ e ∈ vars.table.entries, p e.2

/-- What holds of the values that a loop variable has yet to take. -/
def LoopSource.All (p : Value → Prop) : LoopSource → Prop
  | .range _ => True
  | .rest values => ∀ v ∈ values, p v

/-- What holds of all values that a session keeps. -/
structure Session.All (p : Value → Prop) (s : Session) : Prop where
  heap : s.heap.All p
  vars : s.vars.All p
  loops : ∀ loop ∈ s.loops, loop.source.All p
  data : ∀ v ∈ s.data, p v

theorem Session.all_of_forall {p : Value → Prop} (h : ∀ v, p v) (s : Session) : s.All p where
  heap _ v _ := h v
  vars e _ := h e.2
  loops loop _ := by
    cases loop.source with
    | range g => trivial
    | rest values => exact fun v _ ↦ h v
  data v _ := h v

/-- The session with other frames in force. -/
def Session.withFrames (s : Session) (frames : List Frame) : Session :=
  { s with binders := { s.binders with frames } }

namespace Session

variable (s : Session) (frames : List Frame)

@[simp] theorem withFrames_heap : (s.withFrames frames).heap = s.heap := rfl

@[simp] theorem withFrames_vars : (s.withFrames frames).vars = s.vars := rfl

@[simp] theorem withFrames_returns : (s.withFrames frames).returns = s.returns := rfl

@[simp] theorem withFrames_loops : (s.withFrames frames).loops = s.loops := rfl

@[simp] theorem withFrames_labels : (s.withFrames frames).labels = s.labels := rfl

@[simp] theorem withFrames_data : (s.withFrames frames).data = s.data := rfl

@[simp] theorem withFrames_cursor : (s.withFrames frames).cursor = s.cursor := rfl

@[simp] theorem withFrames_isCollecting : (s.withFrames frames).isCollecting = s.isCollecting := rfl

@[simp] theorem withFrames_console : (s.withFrames frames).console = s.console := rfl

@[simp] theorem withFrames_bus : (s.withFrames frames).bus = s.bus := rfl

@[simp] theorem withFrames_frames : (s.withFrames frames).binders.frames = frames := rfl

end Session

/-! ## Worlds -/

/-- What two runs are compared by. -/
structure World where
  /-- The values that may come up. -/
  good : Value → Prop
  /-- The trees that may be evaluated with the given frames in force. -/
  fits : List Frame → Tree → Prop
  /-- The builtins that may be used as values. -/
  uses : Builtin → Prop
  /-- How the runs may stop, the first and the second. -/
  stops : Stop → Stop → Prop
  /-- How the second run may stop on its own. -/
  escapes : Stop → Prop
  stops_refl : ∀ stop, ¬ stop.IsUnbound → stops stop stop
  number : ∀ x, good (.number x)
  string : ∀ s, good (.string s)
  boolean : ∀ b, good (.boolean b)
  null : good .null
  array : ∀ place, good (.array place)
  generator : ∀ start stop step, good (.generator (.fresh start stop step))
  listMonad : ∀ {vs}, good (.listMonad vs) ↔ ∀ v ∈ vs, good v
  memoMonad : ∀ {v}, good (.memoMonad v) ↔ good v
  composed : ∀ {cs}, good (.composed cs) ↔ ∀ c ∈ cs, good (.closure c)
  curry : ∀ {c c' v}, good (.closure c) → good v → c.curry? v = some c' → good (.closure c')
  rename : ∀ {c} name, good (.closure c) → good (.closure (c.rename name))
  builtin : ∀ {b : Builtin} arity, uses b → good (.closure (b.closure arity))
  ident : ∀ {frames name b}, fits frames (.ident name) → Builtin.ofName? name = some b → uses b
  constant : ∀ {key v}, constant? key = some v → good v
  part : ∀ {frames t}, fits frames t → ∀ u ∈ t.parts, fits frames u
  value : ∀ {frames v}, fits frames (.value v) → good v
  lambda : ∀ {frames names body}, fits frames (.lambda names body) →
    good (.closure (.mk names.length body frames ""))
  argument : ∀ {b : Binders.Stack} {depth index : Nat} {v}, fits b.frames (.parameter depth index) →
    b.lookup depth index = .ok v → good v
  missing : ∀ {b : Binders.Stack} {depth index : Nat} {f}, fits b.frames (.parameter depth index) →
    b.lookup depth index = .error f → stops (.fault f) (.fault f)

theorem World.stops_fault (W : World) {f : Fault} (h : ¬ f.IsUnbound) :
    W.stops (.fault f) (.fault f) :=
  W.stops_refl _ fun hstop ↦ h (Stop.isUnbound_fault_iff.1 hstop)

theorem World.stops_other (W : World) {stop : Stop} (h : ¬ stop.IsFault) : W.stops stop stop :=
  W.stops_refl _ (Stop.not_isUnbound_of_not_isFault h)

/-- The second run's session after both did the same. -/
structure Kept (W : World) (frames : List Frame) (s s' t : Session) : Prop where
  binders : s'.binders = s.binders
  frames : t = s'.withFrames frames
  all : s'.All W.good

/-- How the ends of two runs agree, of which the first started in the session `s`. -/
inductive Agree {α : Type} (W : World) (frames : List Frame) (Q : α → Prop) (s : Session) :
    EStateM.Result Stop Session α → EStateM.Result Stop Session α → Prop
  | ok {a : α} {s' t : Session} (ha : Q a) (h : Kept W frames s s' t) :
      Agree W frames Q s (.ok a s') (.ok a t)
  | error {e e' : Stop} {s' t : Session} (he : W.stops e e') (h : Kept W frames s s' t) :
      Agree W frames Q s (.error e s') (.error e' t)
  | escape {r : EStateM.Result Stop Session α} {e : Stop} {t : Session} (he : W.escapes e) :
      Agree W frames Q s r (.error e t)

/-- Two actions that do the same, the first with the frames `F` in force, the second with `F'`. -/
structure Lockstep {α : Type} (W : World) (F F' : List Frame) (Q : α → Prop)
    (act act' : Action α) : Prop where
  run : ∀ s, s.binders.frames = F → s.All W.good →
    Agree W F' Q s (act s) (act' (s.withFrames F'))

/-- An action that does the same with either frames in force. -/
abbrev Steady {α : Type} (W : World) (F F' : List Frame) (Q : α → Prop) (act : Action α) : Prop :=
  Lockstep W F F' Q act act

section
variable {W : World} {F F' : List Frame} {α β : Type} {P : α → Prop} {Q : β → Prop}

theorem Kept.refl {s : Session} (h : s.All W.good) : Kept W F' s s (s.withFrames F') :=
  ⟨rfl, rfl, h⟩

theorem Kept.trans {s s' s'' t : Session} (h : Kept W F' s' s'' t)
    (hbinders : s'.binders = s.binders) : Kept W F' s s'' t :=
  ⟨h.binders.trans hbinders, h.frames, h.all⟩

theorem Agree.trans {s s' : Session} {r r' : EStateM.Result Stop Session α}
    (h : Agree W F' P s' r r') (hbinders : s'.binders = s.binders) : Agree W F' P s r r' := by
  cases h with
  | ok ha hkept => exact .ok ha (hkept.trans hbinders)
  | error he hkept => exact .error he (hkept.trans hbinders)
  | escape he => exact .escape he

theorem Agree.mono {P' : α → Prop} {s : Session} {r r' : EStateM.Result Stop Session α}
    (h : Agree W F' P s r r') (hP : ∀ a, P a → P' a) : Agree W F' P' s r r' := by
  cases h with
  | ok ha hkept => exact .ok (hP _ ha) hkept
  | error he hkept => exact .error he hkept
  | escape he => exact .escape he

theorem Agree.fail {s : Session} (hs : s.All W.good) {f : Fault} (hf : f.kind.IsOther) :
    Agree W F' P s (.error (.fault f) s) (.error (.fault f) (s.withFrames F')) :=
  .error (W.stops_fault (Fault.not_isUnbound hf)) (.refl hs)

namespace Lockstep

/-! ## Rules -/

theorem bind {x x' : Action α} {f f' : α → Action β} (hx : Lockstep W F F' P x x')
    (hf : ∀ a, P a → Lockstep W F F' Q (f a) (f' a)) :
    Lockstep W F F' Q (x >>= f) (x' >>= f') := by
  refine ⟨fun s hF hs ↦ ?_⟩
  have h := hx.run s hF hs
  change Agree W F' Q s (EStateM.bind x f s) (EStateM.bind x' f' (s.withFrames F'))
  unfold EStateM.bind
  generalize x s = r, x' (s.withFrames F') = r' at h
  cases h with
  | @ok a s' t ha hkept =>
    obtain ⟨hbinders, rfl, hs'⟩ := hkept
    exact ((hf a ha).run s' (by rw [hbinders, hF]) hs').trans hbinders
  | error he hkept => exact .error he hkept
  | escape he => exact .escape he

theorem pure {a : α} (h : P a) : Steady W F F' P (pure a) :=
  ⟨fun _ _ hs ↦ .ok h (.refl hs)⟩

theorem throw {stop : Stop} (h : W.stops stop stop) : Steady W F F' P (throw stop) :=
  ⟨fun _ _ hs ↦ .error h (.refl hs)⟩

theorem fail {f : Fault} (h : f.kind.IsOther) :
    Steady W F F' P (Action.fail f) :=
  throw (W.stops_fault (Fault.not_isUnbound h))

/-- Reading the session, to do something with it right away. -/
theorem of_get {f f' : Session → Action β}
    (h : ∀ s, s.binders.frames = F → s.All W.good →
      Agree W F' Q s (f s s) (f' (s.withFrames F') (s.withFrames F'))) :
    Lockstep W F F' Q (MonadState.get >>= f) (MonadState.get >>= f') :=
  ⟨h⟩

/-- Reading the session: what is done with it may not depend on the frames. -/
theorem get {f f' : Session → Action β}
    (h : ∀ s, s.binders.frames = F → s.All W.good →
      Lockstep W F F' Q (f s) (f' (s.withFrames F'))) :
    Lockstep W F F' Q (MonadState.get >>= f) (MonadState.get >>= f') :=
  ⟨fun s hF hs ↦ (h s hF hs).run s hF hs⟩

theorem modify {f : Session → Session} {Q : Unit → Prop} (hQ : Q ())
    (h : ∀ s, s.All W.good → (f s).binders = s.binders ∧
      f (s.withFrames F') = (f s).withFrames F' ∧ (f s).All W.good) :
    Steady W F F' Q (modify f) := by
  refine ⟨fun s _ hs ↦ ?_⟩
  obtain ⟨hbinders, hframes, hall⟩ := h s hs
  exact .ok hQ ⟨hbinders, hframes, hall⟩

theorem modify_bind {f : Session → Session} {g g' : PUnit → Action β}
    (h : ∀ s, s.All W.good → (f s).binders = s.binders ∧
      f (s.withFrames F') = (f s).withFrames F' ∧ (f s).All W.good)
    (hg : Lockstep W F F' Q (g ⟨⟩) (g' ⟨⟩)) :
    Lockstep W F F' Q (MonadState.modifyGet (fun s ↦ (⟨⟩, f s)) >>= g)
      (MonadState.modifyGet (fun s ↦ (⟨⟩, f s)) >>= g') :=
  bind (P := fun _ ↦ True) (modify trivial h) fun _ _ ↦ hg

theorem mono {P' : α → Prop} {x x' : Action α} (h : Lockstep W F F' P x x')
    (hP : ∀ a, P a → P' a) : Lockstep W F F' P' x x' :=
  ⟨fun s hF hs ↦ (h.run s hF hs).mono hP⟩

theorem ite {c : Prop} [Decidable c] {x x' y y' : Action α} (hx : c → Lockstep W F F' P x x')
    (hy : ¬ c → Lockstep W F F' P y y') :
    Lockstep W F F' P (if c then x else y) (if c then x' else y') := by
  split
  · exact hx ‹_›
  · exact hy ‹_›

theorem ofStop {x : Except Stop α} (hx : Faultless x) (h : ∀ a, x = .ok a → P a) :
    Steady W F F' P (Action.ofStop x) := by
  cases x with
  | ok a => exact pure (h a rfl)
  | error e => exact throw (W.stops_other (hx e rfl))

theorem ofNumber {x : Except Number.Mishap α} (h : ∀ a, x = .ok a → P a) :
    Steady W F F' P (Action.ofNumber x) := by
  cases x with
  | ok a => exact pure (h a rfl)
  | error e => exact throw (W.stops_other id)

theorem ofFault {x : Except Fault α} (hx : OnlyFails (fun f ↦ ¬ f.IsUnbound) x)
    (h : ∀ a, x = .ok a → P a) : Steady W F F' P (Action.ofFault x) := by
  cases x with
  | ok a => exact pure (h a rfl)
  | error f =>
    exact throw (W.stops_fault (hx f rfl))

/-! ## Loops over lists -/

theorem mapM {γ : Type} {f f' : γ → Action α} {as : List γ}
    (h : ∀ a ∈ as, Lockstep W F F' P (f a) (f' a)) :
    Lockstep W F F' (fun bs ↦ ∀ b ∈ bs, P b) (as.mapM f) (as.mapM f') := by
  induction as with
  | nil =>
    rw [List.mapM_nil, List.mapM_nil]
    exact pure (List.forall_mem_nil _)
  | cons a as ih =>
    rw [List.forall_mem_cons] at h
    rw [List.mapM_cons, List.mapM_cons]
    refine bind h.1 fun b hb ↦ bind (ih h.2) fun bs hbs ↦ pure ?_
    rw [List.forall_mem_cons]
    exact ⟨hb, hbs⟩

theorem foldlM {γ : Type} {f f' : α → γ → Action α} {as : List γ} {start : α} (hstart : P start)
    (h : ∀ b, P b → ∀ a ∈ as, Lockstep W F F' P (f b a) (f' b a)) :
    Lockstep W F F' P (as.foldlM f start) (as.foldlM f' start) := by
  induction as generalizing start with
  | nil => exact pure hstart
  | cons a as ih =>
    rw [List.foldlM_cons, List.foldlM_cons]
    refine bind (h start hstart a (List.mem_cons_self ..)) fun b hb ↦ ih hb fun b hb a ha ↦ ?_
    exact h b hb a (List.mem_cons_of_mem _ ha)

theorem filterAuxM {f f' : α → Action Bool} {as found : List α} (has : ∀ a ∈ as, P a)
    (hfound : ∀ a ∈ found, P a)
    (h : ∀ a ∈ as, Lockstep W F F' (fun _ ↦ True) (f a) (f' a)) :
    Lockstep W F F' (fun bs ↦ ∀ b ∈ bs, P b) (as.filterAuxM f found) (as.filterAuxM f' found) := by
  induction as generalizing found with
  | nil => exact pure hfound
  | cons a as ih =>
    rw [List.forall_mem_cons] at has h
    rw [List.filterAuxM, List.filterAuxM]
    refine bind h.1 fun b _ ↦ ih has.2 ?_ h.2
    cases b with
    | false => exact hfound
    | true => exact List.forall_mem_cons.2 ⟨has.1, hfound⟩

theorem filterM {f f' : α → Action Bool} {as : List α} (has : ∀ a ∈ as, P a)
    (h : ∀ a ∈ as, Lockstep W F F' (fun _ ↦ True) (f a) (f' a)) :
    Lockstep W F F' (fun bs ↦ ∀ b ∈ bs, P b) (as.filterM f) (as.filterM f') :=
  bind (filterAuxM has (List.forall_mem_nil _) h) fun _ hbs ↦
    pure fun b hb ↦ hbs b (List.mem_reverse.1 hb)

end Lockstep
end
end LineBasic
