import LineBasic.Proofs.Abreast.Control
import LineBasic.Proofs.Evaluation.Balance
import LineBasic.Proofs.Evaluation.Currying
import LineBasic.Proofs.Run.LoopStatements

/-!
# Operands and arguments

Builtins are applied to operands and functions to arguments.  Both are evaluated from left to right,
but each argument is resolved before the next one is evaluated, while operands are resolved when
all of them have been evaluated.  So an operand that is a name, or an element of an array, has the
value that the name or the element has then: what later operands assign to it counts.

Apart from that, applying a builtin is the same as calling a function that applies it to its
arguments.  Only the limit on calls can tell them apart, as the function is one call more.

* `Tree.Applies` — trees that apply a builtin to operands.
* `SameRun` — runs that end in the same way, unless one of them makes too many calls.
* `sameRun_onValues` — a builtin, and a function that applies it to its arguments.
* `Settled`, `settled_of_isDefinite` — operands that later ones do not touch.
* `applied_sameRun_called` — the result.
-/

set_option autoImplicit false
namespace LineBasic

/-! ## Applications -/

namespace Tree

/-- The trees that apply a builtin to operands. -/
inductive Applies (b : Builtin) : List Tree → Tree → Prop
  | unary {op operand} (h : Builtin.ofUnary op = b) : Applies b [operand] (.unary op operand)
  | binary {op left right} (h : Builtin.ofOperator? op = some b) :
      Applies b [left, right] (.binary op left right)
  | call {name args separators} (h : Builtin.ofName? name = some b) :
      Applies b args (.call name args separators)

/-- The parameters of a function, in its body. -/
def parameters (count : Nat) : List Tree :=
  (List.range count).map (parameter 0)

end Tree

section
variable {enter : Closure → List Value → Action Value} {site : Site} {b : Builtin} {s s' : Session}

theorem eval_of_applies (enter : Closure → List Value → Action Value) (site : Site)
    {es : List Tree} {t : Tree} (h : t.Applies b es) :
    ∃ separators, eval enter site t =
      callBuiltin enter site b separators (evalAll enter site es) := by
  cases h with
  | unary h =>
    subst h
    exact ⟨[], by simp only [eval, evalAll, pure_bind]⟩
  | binary h => exact ⟨[], by simp only [eval, h, evalAll, pure_bind, bind_assoc]⟩
  | call h => exact ⟨_, by rw [eval, h]⟩

theorem evalAll_range' {args : List Value} {outer : List Frame} {k n : Nat}
    (hframes : s.binders.frames = args :: outer) (hk : k + n = args.length) :
    evalAll enter site ((List.range' k n).map (Tree.parameter 0)) s =
      .ok ((args.drop k).map Operand.value) s := by
  induction n generalizing k with
  | zero =>
    rw [List.drop_of_length_le (by omega)]
    rfl
  | succ n ih =>
    have hlt : k < args.length := by omega
    have hframe : s.binders.frames[0]? = some args := by rw [hframes]; rfl
    have harg : eval enter site (.parameter 0 k) s = .ok (.value args[k]) s := by
      rw [eval_parameter, Binders.Stack.lookup_eq_ok hframe (List.getElem?_eq_getElem hlt)]
    rw [List.range'_succ, List.map_cons, List.drop_eq_getElem_cons hlt, List.map_cons, evalAll]
    exact (bind_run_of_ok harg).trans ((bind_run_of_ok (ih (by omega))).trans rfl)

/-- Inside a call, the parameters come to the arguments. -/
theorem evalAll_parameters {args : List Value} {outer : List Frame}
    (hframes : s.binders.frames = args :: outer) :
    evalAll enter site (Tree.parameters args.length) s = .ok (args.map Operand.value) s := by
  rw [Tree.parameters, List.range_eq_range']
  exact evalAll_range' hframes (Nat.zero_add _)

theorem length_of_evalAll {ts : List Tree} {xs : List Operand}
    (h : evalAll enter site ts s = .ok xs s') : xs.length = ts.length := by
  induction ts generalizing s xs with
  | nil =>
    cases h
    rfl
  | cons t ts ih =>
    obtain ⟨x, s₁, -, h⟩ := bind_run_eq_ok.1 h
    obtain ⟨xs, s₂, hxs, h⟩ := bind_run_eq_ok.1 h
    cases h
    rw [List.length_cons, List.length_cons, ih hxs]

end

/-! ## Enabled builtins -/

theorem Session.checkEnabled_eq_ok {s : Session} {b : Builtin} :
    s.checkEnabled b = .ok () ↔ (b.isDebugOnly = true → s.isDebugging = true) ∧
      (b.isNotForProduction = true → s.isProduction = false) := by
  unfold checkEnabled
  cases b.isDebugOnly <;> cases s.isDebugging <;> cases b.isNotForProduction <;>
    cases s.isProduction <;> simp

/-- A builtin remains enabled while operands are evaluated, unless debugging is switched off. -/
theorem checkEnabled_of_evalAll {site : Site} {room : Nat} {ts : List Tree} {xs : List Operand}
    {b : Builtin} {s s' : Session} (hb : s.checkEnabled b = .ok ())
    (h : evalAll (callWithin site room) site ts s = .ok xs s')
    (hdebugging : b.isDebugOnly = true → s'.isDebugging = true) : s'.checkEnabled b = .ok () := by
  have hcloses : Closes s s (fun xs s' ↦ ∀ x ∈ xs, x.WasLive s s')
      (evalAll (callWithin site room) site ts s) :=
    closes_evalAll (fun t _ ↦ lives_eval (entering_callWithin site room) t) .refl
  rw [h] at hcloses
  cases hcloses with
  | ok hevolves _ =>
    refine Session.checkEnabled_eq_ok.2 ⟨hdebugging, fun hproduction ↦ ?_⟩
    rw [hevolves.isProduction]
    exact (Session.checkEnabled_eq_ok.1 hb).2 hproduction

/-! ## Builtins that work on values -/

namespace Operand

variable {s s' : Session}

theorem of_resolveAll {xs : List Operand} {vs : List Value} (h : resolveAll xs s = .ok vs s') :
    s' = s ∧ vs.length = xs.length := by
  induction xs generalizing vs with
  | nil =>
    cases h
    exact ⟨rfl, rfl⟩
  | cons x xs ih =>
    rw [resolveAll, List.mapM_cons] at h
    obtain ⟨v, s₁, hv, h⟩ := bind_run_eq_ok.1 h
    obtain ⟨vs, s₂, hvs, h⟩ := bind_run_eq_ok.1 h
    cases h
    obtain rfl := eq_of_resolve hv
    obtain ⟨hs, hlength⟩ := ih hvs
    exact ⟨hs, by rw [List.length_cons, List.length_cons, hlength]⟩

theorem forall₂_of_resolveAll {xs : List Operand} {vs : List Value}
    (h : resolveAll xs s = .ok vs s) : List.Forall₂ (fun x v ↦ x.resolve s = .ok v s) xs vs := by
  induction xs generalizing vs with
  | nil =>
    cases h
    exact .nil
  | cons x xs ih =>
    rw [resolveAll, List.mapM_cons] at h
    obtain ⟨v, s₁, hv, h⟩ := bind_run_eq_ok.1 h
    obtain ⟨vs, s₂, hvs, h⟩ := bind_run_eq_ok.1 h
    cases h
    obtain rfl := eq_of_resolve hv
    exact .cons hv (ih hvs)

end Operand

namespace Builtin

variable {enter : Closure → List Value → Action Value} {site : Site} {b : Builtin} {n : Nat}

/-- Only builtins that take any number of arguments see how they are separated. -/
theorem invoke_separators (h : b.arity = some n) (separators : List Separator)
    (xs : List Operand) : b.invoke enter site separators xs = b.invoke enter site [] xs := by
  have hany : ∀ vs, b.performAny? separators vs = b.performAny? [] vs := by
    cases b with
    | print | emit => cases h
    | _ => exact fun _ ↦ rfl
  unfold invoke perform?
  simp only [hany]

theorem performRaw?_eq_none (h : b.isRaw = false) (x : Operand) (xs : List Operand) :
    b.performRaw? site (x :: xs) = none := by
  cases b with
  | assign | member | loop | loopOver | next | goto | gosub | read | label | input | resolveVar =>
    cases h
  | _ => rfl

/-- A builtin that works on values gets all of them before it does anything. -/
theorem invoke_resolved (hraw : b.isRaw = false) {xs : List Operand}
    (haccepts : b.accepts xs.length = true) (separators : List Separator) (s : Session) :
    b.invoke enter site separators xs s =
      (Operand.resolveAll xs >>= fun vs ↦
        b.invoke enter site separators (vs.map Operand.value)) s := by
  cases xs with
  | nil => rfl
  | cons x xs =>
    unfold invoke
    rw [haccepts, performRaw?_eq_none hraw]
    refine bind_run_congr rfl fun vs s₁ hvs ↦ ?_
    have hlength : (vs.map Operand.value).length = (x :: xs).length := by
      rw [List.length_map, (Operand.of_resolveAll hvs).2]
    obtain ⟨v, vs, rfl⟩ : ∃ v vs', vs = v :: vs' := by
      cases vs with
      | nil => cases hlength
      | cons v vs => exact ⟨v, vs, rfl⟩
    rw [hlength, haccepts, Operand.resolveAll_values, List.map_cons, performRaw?_eq_none hraw]
    rfl

end Builtin

/-! ## Calls of the function -/

/-- A fault of too many calls. -/
def Stop.IsLimit : Stop → Prop
  | .fault f => f.kind = .recursionLimit
  | _ => False

/-- Two runs that end in the same way, unless one of them makes too many calls. -/
def SameRun {α : Type} (r r' : EStateM.Result Stop Session α) : Prop :=
  (∀ e s, r = .error e s → ¬ e.IsLimit) → (∀ e s, r' = .error e s → ¬ e.IsLimit) → r = r'

namespace SameRun

variable {α β : Type} {s : Session}

theorem left {e : Stop} {r : EStateM.Result Stop Session α} (h : e.IsLimit) :
    SameRun (.error e s) r :=
  fun hr _ ↦ absurd h (hr e s rfl)

theorem right {e : Stop} {r : EStateM.Result Stop Session α} (h : e.IsLimit) :
    SameRun r (.error e s) :=
  fun _ hr ↦ absurd h (hr e s rfl)

theorem bind {x : Action α} {f g : α → Action β}
    (h : ∀ a s₁, x s = .ok a s₁ → SameRun (f a s₁) (g a s₁)) :
    SameRun ((x >>= f) s) ((x >>= g) s) := by
  change SameRun (EStateM.bind x f s) (EStateM.bind x g s)
  unfold EStateM.bind
  cases hx : x s with
  | ok a s₁ => exact h a s₁ hx
  | error e s₁ => exact fun _ _ ↦ rfl

end SameRun

/-- Two runs with the same frames in force, whatever calls are under way. -/
def anyDepth (site : Site) : Pairing site where
  binders b b' := b'.frames = b.frames
  returns := Eq
  leaves := Stop.IsLimit
  escapes := Stop.IsLimit
  permits _ := true
  frames := id
  enter _ _ _ := rfl
  full _ := .inr ⟨rfl, rfl⟩
  push _ := congrArg _
  pop := by
    rintro - r r' rfl
    cases r with
    | nil => exact .inl ⟨rfl, rfl⟩
    | cons back outer => exact .inr ⟨back, outer, outer, rfl, rfl, rfl⟩

section
variable {site : Site}

theorem entered_callWithin (room : Nat) :
    Entered (anyDepth site) (callWithin site (room + 1)) (callWithin site room) := by
  induction room with
  | zero => exact fun c args ↦ ⟨fun _ _ _ ↦ .escaped rfl⟩
  | succ room ih =>
    exact fun c args ↦ abreast_callBody ih (Tree.callsOnly_of_forall (fun _ ↦ rfl) c.body) args

theorem putBack_withFrames {s s' s'' : Session} {frames : List Frame}
    (hbinders : s'.binders = s.binders)
    (h : (anyDepth site).likeness.sessions (s'.withFrames frames) s'') :
    { s'' with binders := s.binders } = s' := by
  obtain ⟨⟨-, hreturns⟩, hrest⟩ := h
  have hreturns : s'.returns = s''.returns := hreturns
  rw [hrest, ← hbinders]
  change { s' with returns := s''.returns } = s'
  rw [← hreturns]

/-- A run compared with the same run in a call: first only the frames change, then the calls. -/
theorem sameRun_of_agree {α : Type} {Q : α → Prop} {frames : List Frame} {s : Session}
    {r r' r'' : EStateM.Result Stop Session α} (h : Agree anything frames Q s r r')
    (h' : Beside (anyDepth site).likeness Eq r' r'') :
    SameRun r (putBack s.binders r'') := by
  cases h with
  | ok ha hkept =>
    obtain ⟨hbinders, rfl, -⟩ := hkept
    cases h' with
    | ok ha' hs =>
      rw [← ha']
      exact fun _ _ ↦ congrArg _ (putBack_withFrames hbinders hs).symm
    | escaped he => exact .right he
  | error he hkept =>
    obtain ⟨hbinders, rfl, -⟩ := hkept
    obtain rfl := he
    cases h' with
    | error he hs =>
      cases he
      exact fun _ _ ↦ congrArg _ (putBack_withFrames hbinders hs).symm
    | left he => exact .left he
    | escaped he => exact .right he
  | escape he => exact he.elim

/-- A run compared with the run inside a call, of an action that does not depend on the frames in
force, and on the calls that are left only if they do not suffice. -/
theorem sameRun_inside {α : Type} {Q : α → Prop} {act act' : Action α} {s : Session}
    (h : ∀ frames, Agree anything frames Q s (act s) (act (s.withFrames frames)))
    (h' : Abreast (anyDepth site).likeness Eq act act') (c : Closure) (args : Frame) :
    SameRun (act s) (putBack s.binders (act' { s with binders := s.binders.enter c args })) :=
  sameRun_of_agree (h (args :: c.captured))
    (h'.run (s.withFrames (args :: c.captured)) _ ⟨⟨rfl, rfl⟩, rfl⟩)

/-- What a builtin does with values. -/
def Builtin.onValues (b : Builtin) (site : Site) (room : Nat) (vs : List Value) : Action Value := do
  (← b.invoke (callWithin site room) site [] (vs.map Operand.value)).resolve

section
variable {b : Builtin} {args : List Value} {s : Session}

/-- Inside a call, a body that applies a builtin to the parameters applies it to the arguments. -/
theorem eval_of_applies_parameters {outer : List Frame} {body : Tree}
    (hframes : s.binders.frames = args :: outer) (henabled : s.checkEnabled b = .ok ())
    (harity : b.arity = some args.length) (hbody : body.Applies b (Tree.parameters args.length))
    (room : Nat) : (eval (callWithin site room) site body >>= Operand.resolve) s =
      b.onValues site room args s := by
  obtain ⟨separators, heval⟩ := eval_of_applies (callWithin site room) site hbody
  have hinvoke : eval (callWithin site room) site body s =
      b.invoke (callWithin site room) site [] (args.map Operand.value) s := by
    rw [heval, callBuiltin_eq henabled, bind_run_of_ok (evalAll_parameters hframes),
      Builtin.invoke_separators harity]
  exact bind_run_congr hinvoke fun _ _ _ ↦ rfl

/-- What a builtin does with values does not depend on the frames in force. -/
theorem agree_onValues (frames : List Frame) (b : Builtin) (room : Nat) (args : List Value)
    (s : Session) : Agree anything frames (fun _ ↦ True) s (b.onValues site room args s)
      (b.onValues site room args (s.withFrames frames)) := by
  have hinvoke : Steady anything s.binders.frames frames (Operand.IsGood anything)
      (b.invoke (callWithin site room) site [] (args.map Operand.value)) :=
    b.lockstep_invoke (lockstep_callWithin (fun _ _ _ _ ↦ trivial) site room) site []
      (List.forall_mem_map.2 fun _ _ ↦ trivial)
  exact ((hinvoke.bind fun _ hx ↦ Operand.steady_resolve hx).run s rfl
    (s.all_of_forall fun _ ↦ trivial)).mono fun _ _ ↦ trivial

/-- What a builtin does with values depends on the depth of calls that is left only if that does not
suffice. -/
theorem abreast_onValues (b : Builtin) (room : Nat) (args : List Value) :
    Abreast (anyDepth site).likeness Eq (b.onValues site (room + 1) args) (b.onValues site room args) :=
  .bind (Builtin.abreast_invoke (entered_callWithin room) b rfl [] _) fun x _ hx ↦
    hx ▸ x.detached_resolve.abreast

/-- Applying a builtin to values is the same as calling a function that applies it to its
arguments. -/
theorem sameRun_onValues {c : Closure} (henabled : s.checkEnabled b = .ok ())
    (harity : b.arity = some args.length)
    (hbody : c.body.Applies b (Tree.parameters args.length)) (room : Nat) :
    SameRun (b.onValues site room args s) (callWithin site room c args s) := by
  cases room with
  | zero => exact .right rfl
  | succ room =>
    rw [callWithin]
    cases hfull : s.binders.isFull with
    | true =>
      rw [inCall_of_isFull hfull]
      exact .right rfl
    | false =>
      let inner : Session := { s with binders := s.binders.enter c args }
      have hinside : inner.checkEnabled b = .ok () := henabled
      have hinner : (eval (callWithin site room) site c.body >>= Operand.resolve) inner =
          b.onValues site room args inner :=
        eval_of_applies_parameters rfl hinside harity hbody room
      have hsame : SameRun (b.onValues site (room + 1) args s)
          (putBack s.binders (b.onValues site room args inner)) :=
        sameRun_inside (agree_onValues · b (room + 1) args s) (abreast_onValues b room args) c args
      rw [← hinner] at hsame
      rw [inCall_of_not_isFull hfull]
      exact hsame

end

end

/-! ## Operands that later ones do not touch -/

/-- An operand has a value, and still has it after an action. -/
def Operand.Lasts {α : Type} (x : Operand) (act : Action α) (s : Session) : Prop :=
  ∃ v, x.resolve s = .ok v s ∧ ∀ a s', act s = .ok a s' → x.resolve s' = .ok v s'

/-- An operand that need not be looked up to be resolved. -/
def Operand.IsDefinite : Operand → Prop
  | value _ | assignment _ _ | jump _ => True
  | reference _ | element .. | inexact .. => False

theorem Operand.IsDefinite.lasts {α : Type} {x : Operand} (h : x.IsDefinite) (act : Action α)
    (s : Session) : x.Lasts act s := by
  cases x with
  | value v | assignment _ v => exact ⟨v, rfl, fun _ _ _ ↦ rfl⟩
  | jump => exact ⟨.null, rfl, fun _ _ _ ↦ rfl⟩
  | reference | element | inexact => exact h.elim

section
variable (enter : Closure → List Value → Action Value) (site : Site)

/-- Each operand but the last keeps its value while the later ones are evaluated. -/
def Settled : List Tree → Session → Prop
  | t :: u :: ts, s => ∀ x s', eval enter site t s = .ok x s' →
    x.Lasts (evalAll enter site (u :: ts)) s' ∧ Settled (u :: ts) s'
  | _, _ => True

end

section
variable {enter : Closure → List Value → Action Value} {site : Site}

/-- Operands that keep their values may as well be resolved one by one. -/
theorem evalAll_resolveAll {ts : List Tree} {s : Session} (h : Settled enter site ts s) :
    (evalAll enter site ts >>= Operand.resolveAll) s = evalValues enter site ts s := by
  induction ts generalizing s with
  | nil => rfl
  | cons t ts ih =>
    rw [evalAll, evalValues]
    simp only [bind_assoc, pure_bind]
    refine bind_run_congr rfl fun x s₁ hx ↦ ?_
    cases ts with
    | nil =>
      simp only [evalAll, evalValues, Operand.resolveAll, pure_bind, List.mapM_cons,
        List.mapM_nil]
    | cons u ts =>
      obtain ⟨⟨v, hv, hlasts⟩, hsettled⟩ := h x s₁ hx
      refine Eq.trans ?_ (bind_run_of_ok hv).symm
      refine Eq.trans ?_ (bind_run_congr (ih hsettled) fun _ _ _ ↦ rfl)
      rw [bind_assoc]
      refine bind_run_congr rfl fun xs s₂ hxs ↦ ?_
      rw [Operand.resolveAll, List.mapM_cons]
      exact bind_run_of_ok (hlasts xs s₂ hxs)

end

/-! ## What kinds of operands actions give -/

/-- An action that gives operands of one kind only. -/
def Gives (P : Operand → Prop) (act : Action Operand) : Prop :=
  ∀ s x s', act s = .ok x s' → P x

namespace Gives

variable {α : Type} {P P' : Operand → Prop}

theorem pure {x : Operand} (h : P x) : Gives P (pure x) := by
  rintro s _ s' hx
  cases hx
  exact h

theorem throw (stop : Stop) : Gives P (throw stop) := by
  intro s x s' hx
  cases hx

theorem fail (f : Fault) : Gives P (Action.fail f) :=
  throw _

theorem bind {x : Action α} {f : α → Action Operand} (h : ∀ a, Gives P (f a)) :
    Gives P (x >>= f) := by
  intro s y s' hy
  obtain ⟨a, s₁, -, hy⟩ := bind_run_eq_ok.1 hy
  exact h a s₁ y s' hy

theorem ite {c : Prop} [Decidable c] {x y : Action Operand} (hx : Gives P x) (hy : Gives P y) :
    Gives P (if c then x else y) := by
  split
  · exact hx
  · exact hy

theorem mono {act : Action Operand} (h : Gives P act) (hP : ∀ x, P x → P' x) : Gives P' act :=
  fun s x s' hx ↦ hP x (h s x s' hx)

end Gives

/-- Null or a jump: what statements come to that loop or jump. -/
def Operand.IsControl : Operand → Prop
  | value .null | jump _ => True
  | _ => False

theorem Operand.IsControl.isDefinite {x : Operand} (h : x.IsControl) : x.IsDefinite := by
  cases x with
  | value | jump => trivial
  | _ => exact h.elim

namespace Builtin

theorem gives_enterLoop (name : String) (first : Value) (source : LoopSource) (site : Site) :
    Gives Operand.IsControl (enterLoop name first source site) :=
  .bind fun _ ↦ .bind fun _ ↦ .pure trivial

theorem gives_loopOf (b : Builtin) (site : Site) (operand : Operand) :
    Gives Operand.IsControl (b.loopOf site operand) := by
  refine .bind ?_
  rintro ⟨name, v⟩
  simp only
  split
  · exact gives_enterLoop _ _ _ _
  · exact .bind fun _ ↦ .fail _

theorem gives_loopOverOf (b : Builtin) (site : Site) (operand : Operand) :
    Gives Operand.IsControl (b.loopOverOf site operand) :=
  .bind fun _ ↦ .bind fun _ ↦ gives_enterLoop _ _ _ _

theorem gives_leaveLoop (outer : List Loop) : Gives Operand.IsControl (leaveLoop outer) :=
  .bind fun _ ↦ .pure trivial

theorem gives_stepLoop (b : Builtin) (inner : Loop) (outer : List Loop) :
    Gives Operand.IsControl (b.stepLoop inner outer) := by
  unfold stepLoop
  split
  · refine .bind fun _ ↦ .bind fun _ ↦ .bind fun _ ↦ ?_
    split
    · exact .bind fun _ ↦ .pure trivial
    · exact .bind fun _ ↦ gives_leaveLoop outer
  · exact .bind fun _ ↦ .bind fun _ ↦ .pure trivial
  · exact gives_leaveLoop outer

theorem gives_nextOf (b : Builtin) (operands : List Operand) :
    Gives Operand.IsControl (b.nextOf operands) := by
  refine .bind fun s ↦ ?_
  split
  · exact .fail _
  · exact .bind fun _ ↦ gives_stepLoop b _ _

theorem gives_gotoOf (b : Builtin) (operand : Operand) :
    Gives Operand.IsControl (b.gotoOf operand) :=
  .bind fun _ ↦ .pure trivial

theorem gives_gosubOf (b : Builtin) (site : Site) (operand : Operand) :
    Gives Operand.IsControl (b.gosubOf site operand) :=
  .bind fun _ ↦ .bind fun _ ↦ .pure trivial

theorem gives_comeBackOf : Gives Operand.IsControl comeBackOf := by
  refine .bind fun s ↦ ?_
  split
  · exact .fail _
  · exact .bind fun _ ↦ .pure trivial

theorem gives_labelOf (site : Site) (operand : Operand) :
    Gives Operand.IsControl (labelOf site operand) := by
  refine .bind fun s ↦ .ite ?_ (.pure trivial)
  split
  · split
    · exact .bind fun _ ↦ .pure trivial
    · exact .bind fun _ ↦ .pure trivial
  · exact .bind fun _ ↦ .pure trivial

theorem gives_resolveVarOf (operand : Operand) :
    Gives (fun x ↦ ∃ v, x = .value v) (resolveVarOf operand) := by
  unfold resolveVarOf
  split
  · refine .bind fun s ↦ ?_
    split
    · exact .bind fun _ ↦ .bind fun _ ↦ .pure ⟨_, rfl⟩
    · exact .fail _
  · exact .bind fun _ ↦ .fail _

theorem givesDefinite_memberOf (target operand : Operand) :
    Gives Operand.IsDefinite (memberOf target operand) := by
  unfold memberOf
  split
  · exact .bind fun _ ↦ .pure trivial
  · exact .bind fun _ ↦ .fail _

theorem givesDefinite_performRaw? {b : Builtin} {site : Site} {xs : List Operand}
    {act : Action Operand} (h : b.performRaw? site xs = some act) :
    Gives Operand.IsDefinite act := by
  have hcontrol {act : Action Operand} (h : Gives Operand.IsControl act) :
      Gives Operand.IsDefinite act := h.mono fun _ ↦ Operand.IsControl.isDefinite
  unfold performRaw? at h
  split at h <;> cases h
  · exact .bind fun _ ↦ .bind fun _ ↦ .pure trivial
  · exact givesDefinite_memberOf _ _
  · exact hcontrol (gives_loopOf _ site _)
  · exact hcontrol (gives_loopOverOf _ site _)
  · exact hcontrol (gives_nextOf _ _)
  · exact hcontrol (gives_gotoOf _ _)
  · exact hcontrol (gives_gosubOf _ site _)
  · exact hcontrol gives_comeBackOf
  · exact .pure trivial
  · exact .bind fun _ ↦ .bind fun _ ↦ .pure trivial
  · exact hcontrol (gives_labelOf site _)
  · exact .bind fun _ ↦ .bind fun _ ↦ .bind fun _ ↦ .pure trivial
  · exact (gives_resolveVarOf _).mono fun _ ⟨_, hx⟩ ↦ hx ▸ trivial

theorem givesDefinite_invoke (enter : Closure → List Value → Action Value) (b : Builtin)
    (site : Site) (separators : List Separator) (xs : List Operand) :
    Gives Operand.IsDefinite (b.invoke enter site separators xs) := by
  refine .ite (.fail _) ?_
  cases hraw : b.performRaw? site xs with
  | some act => exact givesDefinite_performRaw? hraw
  | none =>
    refine .bind fun vs ↦ ?_
    cases b.perform? enter site separators vs with
    | some act => exact .bind fun _ ↦ .pure trivial
    | none => exact .fail _

end Builtin

namespace Tree

mutual

/-- Whether a tree cannot come to a name or to an element of an array. -/
def isDefinite : Tree → Bool
  | .ident _ | .apply .. => false
  | .call name _ _ => (Builtin.ofName? name).isSome
  | .branch _ yes no => isDefinite yes && elseIsDefinite no
  | _ => true

/-- Whether the other branch of a conditional cannot come to a name or an element. -/
def elseIsDefinite : Option Tree → Bool
  | none => true
  | some t => isDefinite t

end

end Tree

section
variable {enter : Closure → List Value → Action Value} {site : Site}

theorem givesDefinite_callBuiltin (b : Builtin) (separators : List Separator)
    (operands : Action (List Operand)) :
    Gives Operand.IsDefinite (callBuiltin enter site b separators operands) :=
  .bind fun _ ↦ .bind fun _ ↦ .bind fun xs ↦ b.givesDefinite_invoke enter site separators xs

theorem givesDefinite_eval {t : Tree} (h : t.isDefinite = true) :
    Gives Operand.IsDefinite (eval enter site t) := by
  induction t using Tree.parts_induction with
  | step t ih =>
  cases t with
  | null | number | string | boolean | value => exact .pure trivial
  | ident | apply => cases h
  | parameter => exact .bind fun _ ↦ .bind fun _ ↦ .pure trivial
  | lambda => exact .bind fun _ ↦ .pure trivial
  | params names => exact .fail _
  | array elements => exact .bind fun _ ↦ .bind fun _ ↦ .pure trivial
  | unary op operand => exact givesDefinite_callBuiltin _ _ _
  | binary op left right =>
    unfold eval
    cases Builtin.ofOperator? op with
    | none => exact .fail _
    | some b => exact givesDefinite_callBuiltin _ _ _
  | call name args separators =>
    obtain ⟨b, hb⟩ := Option.isSome_iff_exists.1 h
    rw [eval, hb]
    exact givesDefinite_callBuiltin _ _ _
  | branch condition yes no =>
    obtain ⟨hyes, hno⟩ := Bool.and_eq_true_iff.1 h
    refine .bind fun _ ↦ .bind fun _ ↦ .ite (ih yes (by simp [Tree.parts]) hyes) ?_
    cases no with
    | none => exact .pure trivial
    | some no => exact ih no (by simp [Tree.parts]) hno
  | select kind test targets =>
    refine .bind fun _ ↦ .bind fun _ ↦ .bind fun found ↦ ?_
    cases found with
    | none => exact .pure trivial
    | some position => exact .bind fun xs ↦ Builtin.givesDefinite_invoke _ _ _ _ _
  | define name names body => exact .bind fun _ ↦ .bind fun _ ↦ .fail _

theorem settled_of_isDefinite {ts : List Tree} (h : ∀ t ∈ ts.dropLast, t.isDefinite = true)
    (s : Session) : Settled enter site ts s := by
  induction ts generalizing s with
  | nil => trivial
  | cons t ts ih =>
    cases ts with
    | nil => trivial
    | cons u ts =>
      obtain ⟨ht, hts⟩ := List.forall_mem_cons.1 h
      exact fun x s' hx ↦ ⟨(givesDefinite_eval ht s x s' hx).lasts _ _, ih hts s'⟩

end

/-! ## The text of the function -/

section
variable {array : Nat → Except Stop String}

theorem treeTexts_parameters (array : Nat → Except Stop String) (indices : List Nat) :
    ∃ texts, treeTexts array (indices.map (Tree.parameter 0)) = .ok texts := by
  induction indices with
  | nil => exact ⟨[], by rw [List.map_nil, treeTexts]⟩
  | cons index indices ih =>
    obtain ⟨texts, htexts⟩ := ih
    exact ⟨_, by rw [List.map_cons, treeTexts, treeText, htexts]; rfl⟩

theorem treeText_of_treeTexts {b : Builtin} {es : List Tree} {t : Tree} (h : t.Applies b es)
    {texts : List String} (htexts : treeTexts array es = .ok texts) :
    ∃ text, treeText array t = .ok text := by
  cases h with
  | unary =>
    obtain ⟨text, htext, -⟩ := bind_eq_ok.1 htexts
    exact ⟨_, by rw [treeText, htext]; rfl⟩
  | binary =>
    obtain ⟨left, hleft, hrest⟩ := bind_eq_ok.1 htexts
    obtain ⟨_, hrest, -⟩ := bind_eq_ok.1 hrest
    obtain ⟨right, hright, -⟩ := bind_eq_ok.1 hrest
    exact ⟨_, by rw [treeText, hleft, hright]; rfl⟩
  | call => exact ⟨_, by rw [treeText, htexts]; rfl⟩

end

section
variable {enter : Closure → List Value → Action Value} {site : Site}

/-- The arguments of a function that is written in place. -/
theorem eval_apply_lambda {names : List String} {body : Tree} {es : List Tree} {s : Session}
    {text : String} (htext : s.heap.describeTree (.lambda names body) = .ok text)
    (separators : List Separator) :
    (eval enter site (.apply (.lambda names body) es separators) >>= Operand.resolve) s =
      (evalValues enter site es >>= enter (.mk names.length body s.binders.frames "")) s := by
  have hname : calleeName (.value (.closure (.mk names.length body s.binders.frames "")))
      (.lambda names body) s = .ok text s := by
    change Action.ofStop (s.heap.describeTree (.lambda names body)) s = _
    rw [htext]
    rfl
  rw [eval, bind_assoc]
  refine (bind_run_of_ok rfl).trans ?_
  rw [bind_assoc]
  refine (bind_run_of_ok hname).trans ?_
  rw [bind_assoc]
  refine bind_run_congr rfl fun vs s₁ _ ↦ ?_
  have hcalled : ∀ c : Closure, applyOperand enter (.value (.closure c)) vs text =
      enter c vs >>= fun v ↦ pure (.value v) := fun _ ↦ rfl
  rw [hcalled, bind_assoc]
  simp only [pure_bind, Operand.resolve, bind_pure]

end

/-! ## The result -/

section
variable {b : Builtin} {es : List Tree} {t body : Tree} {site : Site} {s : Session}

/-- Applying a builtin is evaluating its operands one after the other, then resolving all of them,
then calling the function on the values. -/
theorem sameRun_applied (hraw : b.isRaw = false) (harity : b.arity = some es.length)
    (ht : t.Applies b es) (hbody : body.Applies b (Tree.parameters es.length))
    (henabled : s.checkEnabled b = .ok ())
    (hstays : b.isDebugOnly = true → ∀ xs s',
      evalAll (callWithin site s.room) site es s = .ok xs s' → s'.isDebugging = true)
    (arity : Nat) (captured : List Frame) (name : String) :
    SameRun ((evaluate site t >>= Operand.resolve) s)
      ((evalAll (callWithin site s.room) site es >>= Operand.resolveAll >>=
        callWithin site s.room (.mk arity body captured name)) s) := by
  obtain ⟨separators, heval⟩ := eval_of_applies (callWithin site s.room) site ht
  have hevaluate : evaluate site t s = (evalAll (callWithin site s.room) site es >>=
      b.invoke (callWithin site s.room) site []) s := by
    rw [evaluate_eq, heval, callBuiltin_eq henabled]
    exact bind_run_congr rfl fun xs s₁ _ ↦ by rw [Builtin.invoke_separators harity]
  have happlied : (evaluate site t >>= Operand.resolve) s =
      (evalAll (callWithin site s.room) site es >>= fun xs ↦
        b.invoke (callWithin site s.room) site [] xs >>= Operand.resolve) s := by
    rw [← bind_assoc]
    exact bind_run_congr hevaluate fun _ _ _ ↦ rfl
  rw [happlied, bind_assoc]
  refine .bind fun xs s₁ hxs ↦ ?_
  have hlength : xs.length = es.length := length_of_evalAll hxs
  have haccepts : b.accepts xs.length = true := by
    rw [Builtin.accepts, harity, hlength]
    exact beq_self_eq_true _
  have hresolved : (b.invoke (callWithin site s.room) site [] xs >>= Operand.resolve) s₁ =
      (Operand.resolveAll xs >>= b.onValues site s.room) s₁ := by
    change _ = (Operand.resolveAll xs >>= fun vs ↦
      b.invoke (callWithin site s.room) site [] (vs.map Operand.value) >>= Operand.resolve) s₁
    rw [← bind_assoc]
    exact bind_run_congr (Builtin.invoke_resolved hraw haccepts [] s₁) fun _ _ _ ↦ rfl
  rw [hresolved]
  refine .bind fun vs s₂ hvs ↦ ?_
  obtain ⟨rfl, hcount⟩ := Operand.of_resolveAll hvs
  have hargs : vs.length = es.length := hcount.trans hlength
  have hinside : s₂.checkEnabled b = .ok () :=
    checkEnabled_of_evalAll henabled hxs fun hdebug ↦ hstays hdebug xs s₂ hxs
  have hparameters : body.Applies b (Tree.parameters vs.length) := by rwa [hargs]
  exact sameRun_onValues hinside (by rw [hargs, harity]) hparameters _

end

/-- A builtin of fixed arity that works on values, applied to operands while it is enabled; if it is
for debugging only, debugging is still on after the operands.  The operands are evaluated from left
to right, then all of them are resolved, then the builtin does to the values what a function does
that applies it to its arguments.  If each operand but the last keeps its value while the later ones
are evaluated, this is the same as calling the function on the operands as arguments; and all
operands do that which cannot be names or elements of arrays. -/
theorem applied_sameRun_called {b : Builtin} {es : List Tree} {t body : Tree} {names : List String}
    {separators : List Separator} {site : Site} {s : Session}
    (hraw : b.isRaw = false) (harity : b.arity = some es.length) (ht : t.Applies b es)
    (hbody : body.Applies b (Tree.parameters es.length))
    (henabled : s.checkEnabled b = .ok ())
    (hstays : b.isDebugOnly = true → ∀ xs s',
      evalAll (callWithin site s.room) site es s = .ok xs s' → s'.isDebugging = true) :
    let enter := callWithin site s.room
    let applied := (evaluate site t >>= Operand.resolve) s
    SameRun applied ((do
      let xs ← evalAll enter site es
      let vs ← Operand.resolveAll xs
      enter (.mk names.length body s.binders.frames "") vs : Action Value) s) ∧
    (Settled enter site es s → SameRun applied
      ((evaluate site (.apply (.lambda names body) es separators) >>= Operand.resolve) s)) ∧
    ((∀ e ∈ es.dropLast, e.isDefinite = true) → Settled enter site es s) := by
  intro enter applied
  have hsame : SameRun applied ((evalAll enter site es >>= Operand.resolveAll >>=
      enter (.mk names.length body s.binders.frames "")) s) :=
    sameRun_applied hraw harity ht hbody henabled hstays _ _ _
  refine ⟨?_, fun hsettled ↦ ?_, fun h ↦ settled_of_isDefinite h s⟩
  · rw [bind_assoc] at hsame
    exact hsame
  · obtain ⟨texts, htexts⟩ := treeTexts_parameters (s.heap.arrayText (s.heap.size + 1))
      (List.range es.length)
    obtain ⟨text, htext⟩ := treeText_of_treeTexts hbody htexts
    have hlambda : s.heap.describeTree (.lambda names body) =
        .ok ("[" ++ ", ".intercalate names ++ "] ~> " ++ text) := by
      rw [Heap.describeTree, treeText, htext]
      rfl
    have hcalled : (evaluate site (.apply (.lambda names body) es separators) >>=
        Operand.resolve) s = (evalValues enter site es >>=
          enter (.mk names.length body s.binders.frames "")) s :=
      eval_apply_lambda hlambda separators
    rw [hcalled]
    rw [bind_run_congr (evalAll_resolveAll hsettled) fun _ _ _ ↦ rfl] at hsame
    exact hsame

/-- The text that a value is. -/
def Value.string? : Value → Option String
  | .string s => some s
  | _ => none

theorem Value.eq_of_string? {v : Value} {s : String} (h : v.string? = some s) : v = .string s := by
  cases v with
  | string s' =>
    cases h
    rfl
  | _ => cases h

/-- After `X = "A"`, the operator in `X + (X = "B")` adds up `B` and `B`, and the function in
`([P, Q] ~> P + Q)(X, X = "B")` adds up `A` and `B`. -/
theorem exists_reachable_applied_differs : ∃ past s, Session.Reachable past s ∧
    let reassigned : Tree := .binary .assign (.ident "X") (.string "B")
    let plus : Tree := .lambda ["P", "Q"] (.binary .plus (.parameter 0 0) (.parameter 0 1))
    (∃ s', (evaluate ⟨typedLine, 0⟩ (.binary .plus (.ident "X") reassigned) >>=
      Operand.resolve) s = .ok (.string "BB") s') ∧
    ∃ s', (evaluate ⟨typedLine, 0⟩ (.apply plus [.ident "X", reassigned] [.comma]) >>=
      Operand.resolve) s = .ok (.string "AB") s' := by
  let assigned : Tree := .binary .assign (.ident "X") (.string "A")
  let reassigned : Tree := .binary .assign (.ident "X") (.string "B")
  let plus : Tree := .lambda ["P", "Q"] (.binary .plus (.parameter 0 0) (.parameter 0 1))
  have hassigned : assigned.resolve.IsResolved := ⟨assigned, .expression ⟨trivial, trivial⟩, rfl⟩
  have hends : Ends (fun s ↦
      Ends (fun _ ↦ True) (·.string? = some "BB") (fun _ ↦ False)
        ((evaluate ⟨typedLine, 0⟩ (.binary .plus (.ident "X") reassigned) >>=
          Operand.resolve) s) ∧
      Ends (fun _ ↦ True) (·.string? = some "AB") (fun _ ↦ False)
        ((evaluate ⟨typedLine, 0⟩ (.apply plus [.ident "X", reassigned] [.comma]) >>=
          Operand.resolve) s)) (fun _ ↦ True) (fun _ ↦ False)
      (execute ⟨typedLine, 0⟩ assigned.resolve (.start {} {} .unavailable 0)) := by decide +kernel
  obtain ⟨_, s, hs, -, happlied, hcalled⟩ := hends.exists_ok
  obtain ⟨v, s₁, hv, htext, -⟩ := happlied.exists_ok
  obtain ⟨w, s₂, hw, htext', -⟩ := hcalled.exists_ok
  obtain rfl := Value.eq_of_string? htext
  obtain rfl := Value.eq_of_string? htext'
  exact ⟨_, s, (Session.Reachable.start {} {} .unavailable 0).executed hassigned hs,
    ⟨s₁, hv⟩, s₂, hw⟩

/-- Not every application of a builtin to operands does the same as calling the function. -/
theorem not_forall_applied_sameRun_called :
    ¬ ∀ past s, Session.Reachable past s → ∀ (b : Builtin) (es : List Tree) (t body : Tree)
      (names : List String) (separators : List Separator) (site : Site), b.isRaw = false →
      b.arity = some es.length → t.Applies b es → body.Applies b (Tree.parameters es.length) →
      names.length = es.length → (∀ s' : Session, s'.checkEnabled b = .ok ()) →
      SameRun ((evaluate site t >>= Operand.resolve) s)
        ((evaluate site (.apply (.lambda names body) es separators) >>= Operand.resolve) s) := by
  intro h
  obtain ⟨past, s, hs, ⟨s₁, happlied⟩, s₂, hcalled⟩ := exists_reachable_applied_differs
  let reassigned : Tree := .binary .assign (.ident "X") (.string "B")
  have happlies : ∀ left right, (Tree.binary .plus left right).Applies .plus [left, right] :=
    fun _ _ ↦ .binary rfl
  have hsame := h past s hs .plus [.ident "X", reassigned] _ _ ["P", "Q"] [.comma] ⟨typedLine, 0⟩
    rfl rfl (happlies _ _) (happlies (.parameter 0 0) (.parameter 0 1)) rfl fun _ ↦ rfl
  rw [happlied, hcalled] at hsame
  have hends : EStateM.Result.ok (Value.string "BB") s₁ = .ok (.string "AB") s₂ :=
    hsame (fun _ _ he ↦ by cases he) fun _ _ he ↦ by cases he
  exact absurd (Value.string.inj (EStateM.Result.ok.inj hends).1) (by decide)

/-- In a session at its start, an operand that is a text keeps it while the next one assigns. -/
theorem applied_sameRun_called_text :
    let s : Session := .start {} {} .unavailable 0
    let es : List Tree := [.string "A", .binary .assign (.ident "X") (.string "B")]
    let t : Tree := .binary .plus (.string "A") (.binary .assign (.ident "X") (.string "B"))
    let body : Tree := .binary .plus (.parameter 0 0) (.parameter 0 1)
    Builtin.isRaw .plus = false ∧ Builtin.arity .plus = some es.length ∧ t.Applies .plus es ∧
    body.Applies .plus (Tree.parameters es.length) ∧
    (∀ s' : Session, s'.checkEnabled .plus = .ok ()) ∧
    SameRun ((evaluate ⟨typedLine, 0⟩ t >>= Operand.resolve) s)
      ((evaluate ⟨typedLine, 0⟩ (.apply (.lambda ["P", "Q"] body) es [.comma]) >>=
        Operand.resolve) s) := by
  intro s es t body
  have ht : t.Applies .plus es := .binary rfl
  have hbody : body.Applies .plus (Tree.parameters es.length) := .binary rfl
  obtain ⟨-, hsame, hsettled⟩ := @applied_sameRun_called .plus es t body ["P", "Q"] [.comma]
    ⟨typedLine, 0⟩ s rfl rfl ht hbody rfl nofun
  exact ⟨rfl, rfl, ht, hbody, fun _ ↦ rfl, hsame (hsettled (by simp [es, Tree.isDefinite]))⟩

end LineBasic
