import LineBasic.Proofs.Keeping
import LineBasic.Proofs.Lockstep.Evaluation
import LineBasic.Proofs.Tree.Scoping
import LineBasic.Statement

/-!
# Evaluation of well-scoped trees

While well-scoped trees are evaluated on well-scoped values, there is a frame for every reference to
a parameter, since calls put one frame on those that a function captured, and definitions of
functions capture all that are in force.

Whether the frame has an argument at the position is another question: calls take any number of
arguments.  Here evaluation is compared with a stricter one, which raises an alarm when a function
is given fewer arguments than it has parameters.  As long as there is no alarm, all frames are as
long as the parameter lists they belong to, and no argument is missing.

* `loose`, `tight` — the worlds of well-scoped values, without and with the lengths of frames.
* `evaluateFully` — evaluation with the alarm.
* `ends_execute_loose`, `ends_execute_tight` — what statements keep in the two worlds.
-/

set_option autoImplicit false
namespace LineBasic

/-! ## Evaluation with an alarm -/

/-- Calls a function, and raises an alarm if it is given fewer arguments than it has parameters. -/
def callFully (alarm : Stop) (site : Site) : Nat → Closure → List Value → Action Value
  | 0, _, _ => do Action.fail (← get).binders.tooDeep
  | room + 1, c, args => Action.inCall c args do
    if args.length < c.arity then throw alarm
    (← eval (callFully alarm site room) site c.body).resolve

/-- Evaluates a tree, with an alarm for calls with too few arguments. -/
def evaluateFully (alarm : Stop) (site : Site) (t : Tree) : Action Operand := do
  eval (callFully alarm site (← get).room) site t

/-! ## Worlds of well-scoped values -/

/-- What is known of the scopes of captured frames: nothing. -/
def noLength (_ : Frame) : Option Nat :=
  none

/-- What is known of the scopes of captured frames: how many arguments they have. -/
def fullLength (frame : Frame) : Option Nat :=
  some frame.length

/-- The world of well-scoped values, with frames of which `bound` tells what is known. -/
def scopedWorld (bound : Frame → Option Nat) (stops : Stop → Stop → Prop) (escapes : Stop → Prop)
    (hstops : ∀ stop, ¬ stop.IsUnbound → stops stop stop)
    (hmissing : ∀ {b : Binders.Stack} {depth index : Nat} {f},
      InScope (b.frames.map bound) depth index → b.lookup depth index = .error f →
      stops (.fault f) (.fault f)) : World where
  good := Value.Scoped bound
  fits frames t := t.ScopedIn bound (frames.map bound) ∧
    ∀ frame ∈ frames, ∀ v ∈ frame, v.Scoped bound
  stops := stops
  escapes := escapes
  stops_refl := hstops
  number _ := trivial
  string _ := trivial
  boolean _ := trivial
  null := trivial
  array _ := trivial
  generator _ _ _ := trivial
  listMonad := Value.allScoped_iff
  memoMonad := Iff.rfl
  composed := Closure.allScoped_iff
  curry := Closure.scoped_curry?
  rename _ := Closure.scoped_rename
  uses _ := True
  builtin arity _ := Builtin.scoped_closure _ arity
  ident _ _ := trivial
  constant := scoped_of_constant?
  part h u hu := ⟨h.1.of_occurs (Tree.Occurs.of_part hu (.here u)), h.2⟩
  value h := h.1
  lambda h := ⟨h.1, Frame.allScoped_iff.2 h.2⟩
  argument h hlookup := by
    obtain ⟨frame, hframe, hv⟩ := Binders.Stack.mem_of_lookup_eq_ok hlookup
    exact h.2 frame hframe _ hv
  missing h := hmissing h.1

theorem lookup_eq_error_of_loose {b : Binders.Stack} {depth index : Nat} {f : Fault}
    (h : InScope (b.frames.map noLength) depth index) (hlookup : b.lookup depth index = .error f) :
    ∃ given, given ≤ index ∧ f = .missingArgument depth index given := by
  obtain ⟨_, hbound, -⟩ := h
  rw [List.getElem?_map, Option.map_eq_some_iff] at hbound
  obtain ⟨frame, hframe, -⟩ := hbound
  cases hv : frame[index]? with
  | none =>
    rw [Binders.Stack.lookup_of_no_argument hframe hv] at hlookup
    cases hlookup
    exact ⟨frame.length, List.getElem?_eq_none_iff.1 hv, rfl⟩
  | some v =>
    rw [Binders.Stack.lookup_eq_ok hframe hv] at hlookup
    cases hlookup

theorem lookup_ne_error_of_tight {b : Binders.Stack} {depth index : Nat} {f : Fault}
    (h : InScope (b.frames.map fullLength) depth index) : b.lookup depth index ≠ .error f := by
  obtain ⟨_, hbound, hindex⟩ := h
  rw [List.getElem?_map, Option.map_eq_some_iff] at hbound
  obtain ⟨frame, hframe, rfl⟩ := hbound
  have hlength : index < frame.length := hindex _ rfl
  rw [Binders.Stack.lookup_eq_ok hframe (List.getElem?_eq_getElem hlength)]
  intro hlookup
  cases hlookup

/-- The only stops of parameters without arguments are those of positions beyond the arguments of
a call, and never those of frames that are not there. -/
def Stop.IsFramed (stop : Stop) : Prop :=
  stop.IsUnbound → ∃ depth index given, given ≤ index ∧
    stop = .fault (.missingArgument depth index given)

/-- The world in which nothing is known of the lengths of frames. -/
def loose : World :=
  scopedWorld noLength (fun e e' ↦ e = e' ∧ e.IsFramed) (fun _ ↦ False)
    (fun _ h ↦ ⟨rfl, fun hunbound ↦ absurd hunbound h⟩)
    (fun h hlookup ↦ by
      obtain ⟨given, hgiven, rfl⟩ := lookup_eq_error_of_loose h hlookup
      exact ⟨rfl, fun _ ↦ ⟨_, _, given, hgiven, rfl⟩⟩)

/-- The world in which the lengths of frames are known, and arguments are never missing. -/
def tight (escapes : Stop → Prop) : World :=
  scopedWorld fullLength (fun e e' ↦ e = e' ∧ ¬ e.IsUnbound) escapes (fun _ h ↦ ⟨rfl, h⟩)
    (fun h hlookup ↦ absurd hlookup (lookup_ne_error_of_tight h))

/-! ## Bodies of functions -/

theorem loose_fits_body (c : Closure) (args : List Value) (hc : loose.good (.closure c))
    (hargs : ∀ v ∈ args, loose.good v) : loose.fits (args :: c.captured) c.body := by
  obtain ⟨hbody, hcaptured⟩ := Closure.scoped_iff.1 hc
  exact ⟨Tree.ScopedIn.weaken [] hbody (covers_none _), List.forall_mem_cons.2 ⟨hargs, hcaptured⟩⟩

theorem tight_fits_body {escapes : Stop → Prop} {c : Closure} {args : List Value}
    (hc : (tight escapes).good (.closure c)) (hargs : ∀ v ∈ args, (tight escapes).good v)
    (hlength : c.arity ≤ args.length) : (tight escapes).fits (args :: c.captured) c.body := by
  obtain ⟨hbody, hcaptured⟩ := Closure.scoped_iff.1 hc
  exact ⟨Tree.ScopedIn.weaken [] hbody (covers_some hlength),
    List.forall_mem_cons.2 ⟨hargs, hcaptured⟩⟩

/-- Calls, and calls with the alarm, are in lockstep until the alarm is raised. -/
theorem lockstep_callFully {F F' : List Frame} (alarm : Stop) (site : Site) (room : Nat) :
    Enters (tight (· = alarm)) F F' (callWithin site room) (callFully alarm site room) := by
  induction room generalizing F F' with
  | zero => exact fun c args _ _ ↦ .get fun _ _ _ ↦ .fail trivial
  | succ room ih =>
    refine fun c args hc hargs ↦ lockstep_inCall rfl ?_
    by_cases hlength : args.length < c.arity
    · rw [if_pos hlength]
      exact ⟨fun _ _ _ ↦ .escape rfl⟩
    · rw [if_neg hlength]
      have hfits := tight_fits_body hc hargs (Nat.le_of_not_lt hlength)
      exact .bind (lockstep_eval ih hfits) fun _ hx ↦ Operand.steady_resolve hx

/-! ## Statements -/

/-- A session after evaluation, with the frames from before and values of a kind. -/
structure Session.IsBack (p : Value → Prop) (s s' : Session) : Prop where
  binders : s'.binders = s.binders
  all : s'.All p

/-- The end of the first of two runs, if the second did not leave it alone. -/
theorem Agree.ends {α : Type} {W : World} {F : List Frame} {Q : α → Prop} {s : Session}
    {r r' : EStateM.Result Stop Session α} (h : Agree W F Q s r r')
    (hescapes : ∀ e t, r' = .error e t → ¬ W.escapes e) :
    Ends (s.IsBack W.good) Q (fun e ↦ ∃ e', W.stops e e') r := by
  cases h with
  | ok ha hkept => exact .ok ha ⟨hkept.binders, hkept.all⟩
  | error he hkept => exact .error ⟨_, he⟩ ⟨hkept.binders, hkept.all⟩
  | escape he => exact absurd he (hescapes _ _ rfl)

theorem Operand.steady_outcome {W : World} {F F' : List (List Value)} (site : Site) {x : Operand}
    (hx : x.IsGood W) : Steady W F F' (fun p ↦ W.good p.1) (x.outcome site) := by
  cases x with
  | jump target => exact .pure W.null
  | _ => exact .bind (steady_resolve hx) fun _ hv ↦ .pure hv

section
variable {site : Site} {t : Tree} {s : Session}

/-- Executing a statement ends like evaluating its tree. -/
theorem ends_execute {W : World} (hescapes : ∀ e, ¬ W.escapes e)
    (h : Ends (s.IsBack W.good) (Operand.IsGood W) (fun e ↦ ∃ e', W.stops e e')
      (evaluate site t s)) :
    Ends (s.IsBack W.good) (fun p ↦ W.good p.1)
      (fun e ↦ ∃ e' e'', e = e'.settle site ∧ W.stops e' e'') (execute site t s) := by
  have houtcome : ∀ (x : Operand) s', x.IsGood W → s.IsBack W.good s' →
      Ends (s.IsBack W.good) (fun p ↦ W.good p.1) (fun e ↦ ∃ e', W.stops e e')
        (x.outcome site s') := by
    intro x s' hx hs'
    have hsteady : Steady W s'.binders.frames s'.binders.frames (fun p ↦ W.good p.1)
        (x.outcome site) := x.steady_outcome site hx
    exact ((hsteady.run s' rfl hs'.all).ends fun e _ _ ↦ hescapes e).mono
      (fun _ hback ↦ ⟨hback.binders.trans hs'.binders, hback.all⟩) (fun _ ↦ id) fun _ ↦ id
  have hbody := h.bind houtcome fun _ ↦ id
  rw [execute, Action.settled]
  generalize (evaluate site t >>= fun x ↦ x.outcome site) s = r at hbody ⊢
  cases hbody with
  | ok ha hs' => exact .ok ha hs'
  | error he hs' =>
    obtain ⟨e', he⟩ := he
    exact .error ⟨_, e', rfl, he⟩ hs'

/-- A statement ends with well-scoped values, and fails for want of a frame never. -/
theorem ends_execute_loose (site : Site) (hframes : s.binders.frames = [])
    (ht : t.ScopedIn noLength []) (hs : s.All (Value.Scoped noLength)) :
    Ends (s.IsBack (Value.Scoped noLength)) (fun p ↦ p.1.Scoped noLength)
      (fun e ↦ ∃ e' : Stop, e = e'.settle site ∧ e'.IsFramed) (execute site t s) := by
  have hfits : loose.fits s.binders.frames t := by
    rw [hframes]
    exact ⟨ht, List.forall_mem_nil _⟩
  have hagree : Agree loose s.binders.frames (Operand.IsGood loose) s (evaluate site t s)
      (evaluate site t s) :=
    (lockstep_eval (lockstep_callWithin loose_fits_body site s.room) hfits).run s rfl hs
  refine (ends_execute (fun _ ↦ id) (hagree.ends fun _ _ _ ↦ id)).mono (fun _ ↦ id) (fun _ ↦ id) ?_
  rintro e ⟨e', e'', he, -, hframed⟩
  exact ⟨e', he, hframed⟩

/-- Without an alarm, all frames keep their lengths, and no argument is missing. -/
theorem ends_execute_tight (site : Site) (hframes : s.binders.frames = [])
    (ht : t.ScopedIn fullLength []) (hs : s.All (Value.Scoped fullLength)) {alarm : Stop}
    (halarm : ∀ s', evaluateFully alarm site t s ≠ .error alarm s') :
    Ends (s.IsBack (Value.Scoped fullLength)) (fun p ↦ p.1.Scoped fullLength)
      (fun e ↦ ∃ e' : Stop, e = e'.settle site ∧ ¬ e'.IsUnbound) (execute site t s) := by
  have hfits : (tight (· = alarm)).fits s.binders.frames t := by
    rw [hframes]
    exact ⟨ht, List.forall_mem_nil _⟩
  have hagree : Agree (tight (· = alarm)) s.binders.frames (Operand.IsGood (tight (· = alarm))) s
      (evaluate site t s) (evaluateFully alarm site t s) :=
    (lockstep_eval (lockstep_callFully alarm site s.room) hfits).run s rfl hs
  have hends : Ends (s.IsBack (tight fun _ ↦ False).good) (Operand.IsGood (tight fun _ ↦ False))
      (fun e ↦ ∃ e', (tight fun _ ↦ False).stops e e') (evaluate site t s) :=
    hagree.ends fun e s' hs' (he : e = alarm) ↦ halarm s' (he ▸ hs')
  refine (ends_execute (fun _ ↦ id) hends).mono (fun _ ↦ id) (fun _ ↦ id) ?_
  rintro e ⟨e', e'', he, -, hbound⟩
  exact ⟨e', he, hbound⟩

end

theorem Fault.isUnbound_locate {f : Fault} {line : Int} {statement : Option Int} :
    (f.locate line statement).IsUnbound ↔ f.IsUnbound := by
  rw [locate]
  split
  · exact Iff.rfl
  · exact Iff.rfl

/-- The faults of parameters that a statement ends with are those of its evaluation, located. -/
theorem Stop.eq_fault_of_settle {site : Site} {e : Stop} {f : Fault}
    (h : .fault f = e.settle site) (hf : f.IsUnbound) :
    ∃ g, e = .fault g ∧ g.IsUnbound ∧ f = g.locate site.line (some site.statement) := by
  have hlocated : ∀ g : Fault, Stop.fault f = settle.located site g → g.IsUnbound ∧
      f = g.locate site.line (some site.statement) := by
    intro g hg
    cases hg
    exact ⟨Fault.isUnbound_locate.1 hf, rfl⟩
  cases e with
  | fault g => exact ⟨g, rfl, hlocated g h⟩
  | mishap mishap =>
    cases mishap with
    | overflow text => exact absurd (hlocated _ h).1 (Fault.not_isUnbound trivial)
    | undefined text => exact absurd (hlocated _ h).1 (Fault.not_isUnbound trivial)
  | endlessNesting => exact absurd (hlocated _ h).1 (Fault.not_isUnbound trivial)
  | _ => cases h

end LineBasic
