import LineBasic.Proofs.Session.Reachable
import LineBasic.Proofs.Tree.Builtins

/-!
# Evaluation with some of the builtins

Where a program uses some of the builtins only, no value comes up that is a function with another
one in it.  So whether a builtin is called can be read off the trees of the program.  To say this,
evaluation is compared with one that raises an alarm when a function is called whose body calls a
builtin that is not permitted.

* `permitted` — the world of values in which all functions use permitted builtins.
* `callPermitted`, `evaluatePermitted` — evaluation with the alarm.
* `eval_callPermitted`, `evaluatePermitted_eq` — the alarm is never raised.
* `Session.Permits`, `ends_execute_permitted` — what statements keep.
-/

set_option autoImplicit false
namespace LineBasic

variable {p : Builtin → Bool}

/-! ## Evaluation with an alarm -/

/-- Calls a function, and raises an alarm if its body may call a builtin that is not permitted. -/
def callPermitted (p : Builtin → Bool) (alarm : Stop) (site : Site) :
    Nat → Closure → List Value → Action Value
  | 0, _, _ => do Action.fail (← get).binders.tooDeep
  | room + 1, c, args => Action.inCall c args
    (if c.body.callsOnly p then do (← eval (callPermitted p alarm site room) site c.body).resolve
    else throw alarm)

/-- Evaluates a tree, with an alarm for calls of functions that may call a builtin that is not
permitted. -/
def evaluatePermitted (p : Builtin → Bool) (alarm : Stop) (site : Site) (t : Tree) :
    Action Operand := do
  eval (callPermitted p alarm site (← get).room) site t

/-! ## The world of permitted builtins -/

/-- The world of values in which all functions use permitted builtins. -/
def permitted (p : Builtin → Bool) : World where
  good v := v.usesOnly p = true
  fits frames t := t.formsOnly p = true ∧ ∀ frame ∈ frames, ∀ v ∈ frame, v.usesOnly p = true
  uses b := p b = true
  stops e e' := e = e'
  escapes _ := False
  stops_refl _ _ := rfl
  number _ := rfl
  string _ := rfl
  boolean _ := rfl
  null := rfl
  array _ := rfl
  generator _ _ _ := rfl
  listMonad := Value.allUseOnly_iff
  memoMonad := Iff.rfl
  composed := Closure.allUseOnly_iff
  curry := Closure.usesOnly_curry?
  rename := Closure.usesOnly_rename
  builtin arity hb := Builtin.usesOnly_closure hb arity
  ident h hb := (Option.all_eq_true _ _).1 h.1 _ hb
  constant := usesOnly_of_constant?
  part h u hu := ⟨Tree.forall_parts_formsOnly h.1 u hu, h.2⟩
  value h := h.1
  lambda h := by
    obtain ⟨hbody, hframes⟩ := h
    obtain ⟨hcalls, hforms⟩ := (Bool.and_eq_true _ _).mp hbody
    exact Closure.usesOnly_iff.2 ⟨hcalls, hforms, hframes⟩
  argument h hlookup := by
    obtain ⟨frame, hframe, hv⟩ := Binders.Stack.mem_of_lookup_eq_ok hlookup
    exact h.2 frame hframe _ hv
  missing _ _ := rfl

theorem fits_permitted_body {c : Closure} {args : List Value} (hc : c.usesOnly p = true)
    (hargs : ∀ v ∈ args, v.usesOnly p = true) :
    (permitted p).fits (args :: c.captured) c.body := by
  obtain ⟨-, hforms, hcaptured⟩ := Closure.usesOnly_iff.1 hc
  exact ⟨hforms, List.forall_mem_cons.2 ⟨hargs, hcaptured⟩⟩

/-- Calls, and calls with the alarm, are in lockstep. -/
theorem enters_callPermitted {F F' : List Frame} (alarm : Stop) (site : Site) (room : Nat) :
    Enters (permitted p) F F' (callWithin site room) (callPermitted p alarm site room) := by
  induction room generalizing F F' with
  | zero => exact fun c args _ _ ↦ .get fun _ _ _ ↦ .fail trivial
  | succ room ih =>
    refine fun c args hc hargs ↦ lockstep_inCall rfl ?_
    rw [if_pos (Closure.usesOnly_iff.1 hc).1]
    exact .bind (lockstep_eval ih (fits_permitted_body hc hargs)) fun _ hx ↦
      Operand.steady_resolve hx

/-- Runs that agree in the world of permitted builtins are the same. -/
theorem Agree.eq_of_permitted {α : Type} {Q : α → Prop} {s : Session}
    {r r' : EStateM.Result Stop Session α} (h : Agree (permitted p) s.binders.frames Q s r r') :
    r' = r := by
  have hkept : ∀ {s' t}, Kept (permitted p) s.binders.frames s s' t → t = s' := by
    rintro s' t ⟨hbinders, rfl, -⟩
    rw [← hbinders]
    rfl
  cases h with
  | ok _ h => rw [hkept h]
  | error he h =>
    rw [hkept h]
    exact congrArg (EStateM.Result.error · _) he.symm
  | escape he => exact he.elim

section
variable {site : Site} {t : Tree} {s : Session}

/-- What is known of a session while a tree is evaluated: the functions in its values use permitted
builtins, also those among the arguments of the calls under way. -/
structure Session.Permits (p : Builtin → Bool) (s : Session) : Prop where
  frames : ∀ frame ∈ s.binders.frames, ∀ v ∈ frame, v.usesOnly p = true
  all : s.All (·.usesOnly p = true)

theorem Session.Permits.of_isBack {s' : Session} (h : s.Permits p)
    (hback : s.IsBack (·.usesOnly p = true) s') : s'.Permits p :=
  ⟨hback.binders ▸ h.frames, hback.all⟩

/-- The alarm is not raised while a tree is evaluated that forms functions with permitted builtins
only. -/
theorem eval_callPermitted (site : Site) (ht : t.formsOnly p = true) (hs : s.Permits p) (alarm : Stop)
    (room : Nat) :
    eval (callPermitted p alarm site room) site t s = eval (callWithin site room) site t s ∧
    Ends (s.IsBack (·.usesOnly p = true)) (Operand.IsGood (permitted p)) (fun _ ↦ True)
      (eval (callWithin site room) site t s) := by
  have hagree : Agree (permitted p) s.binders.frames (Operand.IsGood (permitted p)) s
      (eval (callWithin site room) site t s) (eval (callPermitted p alarm site room) site t s) :=
    (lockstep_eval (enters_callPermitted alarm site room) ⟨ht, hs.frames⟩).run s rfl hs.all
  exact ⟨hagree.eq_of_permitted,
    (hagree.ends fun _ _ _ ↦ id).mono (fun _ ↦ id) (fun _ ↦ id) fun _ _ ↦ trivial⟩

theorem evaluatePermitted_eq (ht : t.formsOnly p = true) (hs : s.Permits p) (alarm : Stop) :
    evaluatePermitted p alarm site t s = evaluate site t s :=
  (eval_callPermitted site ht hs alarm s.room).1

theorem ends_evaluate_permitted (site : Site) (ht : t.formsOnly p = true) (hs : s.Permits p) :
    Ends (s.IsBack (·.usesOnly p = true)) (Operand.IsGood (permitted p)) (fun _ ↦ True)
      (evaluate site t s) :=
  (eval_callPermitted site ht hs .endOfInput s.room).2

/-- A statement that forms functions with permitted builtins only leaves only such functions. -/
theorem ends_execute_permitted (site : Site) (ht : t.formsOnly p = true) (hs : s.Permits p) :
    Ends (Session.Permits p) (fun q ↦ q.1.usesOnly p = true) (fun _ ↦ True)
      (execute site t s) :=
  (ends_execute (W := permitted p) (fun _ ↦ id)
    ((ends_evaluate_permitted site ht hs).mono (fun _ ↦ id) (fun _ ↦ id) fun e _ ↦ ⟨e, rfl⟩)).mono
    (fun _ hback ↦ hs.of_isBack hback) (fun _ ↦ id) fun _ _ ↦ trivial

theorem Session.permits_reset (s : Session) : s.reset.Permits p :=
  ⟨nofun, all_reset _ s⟩

theorem Session.Permits.books {s' : Session} (h : s.Permits p) (hs' : s.SameValues s') :
    s'.Permits p :=
  ⟨hs'.binders ▸ h.frames, h.all.books hs'⟩

theorem Session.Permits.unwind (h : s.Permits p) : s.unwind.Permits p :=
  ⟨nofun, h.all.unwind⟩

theorem keeps_collect_permitted {lines : Listing}
    (h : ∀ e ∈ lines.collected, e.2.formsOnly p = true) :
    Keeps (Session.Permits p) (fun _ ↦ True) (collect lines) :=
  keeps_collect (fun _ hs ↦ hs.books ⟨rfl, rfl, rfl, rfl, rfl⟩) .unwind fun e he ↦ ⟨fun _ hs ↦
    (ends_execute_permitted e.1 (h e he) hs).mono (fun _ ↦ id) (fun _ _ ↦ trivial) fun _ ↦ id⟩

end
end LineBasic
