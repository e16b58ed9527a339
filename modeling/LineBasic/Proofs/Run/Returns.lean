import LineBasic.Proofs.Abreast.Control
import LineBasic.Proofs.Keeping
import LineBasic.Proofs.Run.LoopStatements
import LineBasic.Proofs.Session.Reachable

/-!
# The sites that subroutines return to

`GOSUB` notes the statement after the one that it stands in and jumps, and `RETURN` takes the
latest note back and jumps there.  Both jump by what they come to, and a statement jumps only if it
comes to that itself.  Anything else that is done with a jump, such as to assign it, leaves the
statement to fall through, with the note made or taken back all the same.

So the notes of any statement are: some of the latest from before taken back, and then the same
site noted any number of times.  Where these jumps are made only in the place of the statement, or
of a branch of it, and not in functions that it calls, notes and jumps go together.

* `diagonal` — a run compared with itself, to follow its notes.
* `Tree.isOrderly`, `evaluateQuietly` — statements with such jumps in their place only.
* `Tree.Invokes`, `Tree.invokes_or_ends` — the jump that such a statement comes to.
* `Turns` — what such a statement comes to.
* `execute_returns` — the result.
-/

set_option autoImplicit false
namespace LineBasic

/-! ## Following the notes of a run -/

/-- A run compared with one that differs in the functions that it enters, where something remains
true of the sites noted. -/
def diagonal (site : Site) (holds : List Site → Prop) (escapes : Stop → Prop)
    (permits : Builtin → Bool)
    (hpush : permits .gosub = true → ∀ {r}, holds r → holds (site.next :: r))
    (hpop : permits .comeBack = true → ∀ {back r}, holds (back :: r) → holds r) :
    Pairing site where
  binders := Eq
  returns r r' := r' = r ∧ holds r
  leaves _ := False
  escapes := escapes
  permits := permits
  frames h := by rw [h]
  enter c args h := by rw [h]
  full h := .inl (by rw [h]; exact ⟨rfl, rfl⟩)
  push hgosub := by
    rintro _ r ⟨rfl, hr⟩
    exact ⟨rfl, hpush hgosub hr⟩
  pop hback := by
    rintro _ r ⟨rfl, hr⟩
    cases r with
    | nil => exact .inl ⟨rfl, rfl⟩
    | cons back outer => exact .inr ⟨back, outer, outer, rfl, rfl, rfl, hpop hback hr⟩

section
variable {site : Site} {holds : List Site → Prop} {escapes : Stop → Prop} {permits : Builtin → Bool}
  {hpush : permits .gosub = true → ∀ {r}, holds r → holds (site.next :: r)}
  {hpop : permits .comeBack = true → ∀ {back r}, holds (back :: r) → holds r} {α : Type}

theorem diagonal_likeness {s s' : Session}
    (h : (diagonal site holds escapes permits hpush hpop).likeness.sessions s s') :
    s' = s ∧ holds s.returns := by
  obtain ⟨⟨hbinders, hreturns, hholds⟩, hrest⟩ := h
  have hcontrol : s'.control = s.control := by
    change Control.mk s'.binders s'.returns = Control.mk s.binders s.returns
    exact congr (congrArg Control.mk hbinders.symm) hreturns
  refine ⟨?_, hholds⟩
  rw [hrest]
  change s.withControl s'.control = s
  rw [hcontrol, Session.withControl_control]

/-- Either the second run stops on its own, or it is the first run. -/
theorem Beside.of_diagonal {r r' : EStateM.Result Stop Session α}
    (h : Beside (diagonal site holds escapes permits hpush hpop).likeness Eq r r') :
    (∃ e s, r' = .error e s ∧ escapes e) ∨
      (r' = r ∧ Ends (fun s ↦ holds s.returns) (fun _ ↦ True) (fun _ ↦ True) r) := by
  cases h with
  | ok ha h =>
    obtain ⟨hs, hholds⟩ := diagonal_likeness h
    exact .inr ⟨by rw [hs, ha], .ok trivial hholds⟩
  | error he h =>
    obtain ⟨hs, hholds⟩ := diagonal_likeness h
    exact .inr ⟨by rw [hs, show _ = _ from he], .error trivial hholds⟩
  | left he => exact he.elim
  | escaped he => exact .inl ⟨_, _, rfl, he⟩

theorem Abreast.of_diagonal {act act' : Action α}
    (h : Abreast (diagonal site holds escapes permits hpush hpop).likeness Eq act act')
    {s : Session} (hs : holds s.returns) : (∃ e s', act' s = .error e s' ∧ escapes e) ∨
      (act' s = act s ∧ Ends (fun s ↦ holds s.returns) (fun _ ↦ True) (fun _ ↦ True) (act s)) :=
  (h.run s s ⟨⟨rfl, rfl, hs⟩, rfl⟩).of_diagonal

/-- A run compared with itself keeps what is true of the sites noted. -/
theorem Abreast.keeps {act : Action α}
    (h : Abreast (diagonal site holds (fun _ ↦ False) permits hpush hpop).likeness Eq act act) :
    Keeps (fun s ↦ holds s.returns) (fun _ ↦ True) act := by
  refine ⟨fun s hs ↦ ?_⟩
  obtain ⟨_, _, _, h⟩ | ⟨-, h⟩ := h.of_diagonal hs
  · exact h.elim
  · exact h

theorem abreast_tooDeep : Abreast (diagonal site holds escapes permits hpush hpop).likeness Eq
    (do Action.fail (← get).binders.tooDeep : Action α)
    (do Action.fail (← get).binders.tooDeep) := by
  refine .get fun s s' hs ↦ ?_
  rw [(diagonal_likeness hs).1]
  exact .error rfl ⟨⟨rfl, rfl, (diagonal_likeness hs).2⟩, rfl⟩

end

/-! ## What any statement notes -/

/-- The sites noted after a statement: some of the latest are taken back, then the one after the
statement is noted a number of times. -/
def Renoted (site : Site) (r r' : List Site) : Prop :=
  ∃ made back, r' = List.replicate made site.next ++ r.drop back

theorem renoted_push {site : Site} {r r' : List Site} (h : Renoted site r r') :
    Renoted site r (site.next :: r') := by
  obtain ⟨made, back, rfl⟩ := h
  exact ⟨made + 1, back, rfl⟩

theorem renoted_pop {site last : Site} {r r' : List Site} (h : Renoted site r (last :: r')) :
    Renoted site r r' := by
  obtain ⟨made, back, h⟩ := h
  cases made with
  | zero =>
    refine ⟨0, back + 1, ?_⟩
    rw [List.replicate_zero, List.nil_append] at h
    rw [List.replicate_zero, List.nil_append, ← List.drop_drop, ← h]
    rfl
  | succ made =>
    rw [List.replicate_succ, List.cons_append, List.cons.injEq] at h
    exact ⟨made, back, h.2⟩

theorem entered_renoted (site : Site) (r : List Site) (room : Nat) :
    Entered (diagonal site (Renoted site r) (fun _ ↦ False) (fun _ ↦ true)
      (fun _ _ ↦ renoted_push) fun _ _ _ ↦ renoted_pop)
      (callWithin site room) (callWithin site room) := by
  induction room with
  | zero => exact fun c args ↦ abreast_tooDeep
  | succ room ih =>
    exact fun c args ↦ abreast_callBody ih (c.body.callsOnly_of_forall fun _ ↦ rfl) args

theorem keeps_renoted (site : Site) (t : Tree) (r : List Site) :
    Keeps (fun s ↦ Renoted site r s.returns) (fun _ ↦ True) (evaluate site t) := by
  refine ⟨fun s hs ↦ ?_⟩
  exact (abreast_eval (entered_renoted site r s.room) (t.callsOnly_of_forall fun _ ↦ rfl)).keeps.run
    s hs

/-! ## Quiet functions -/

/-- Whether a builtin neither notes a site to return to nor takes one back. -/
def Builtin.isQuiet : Builtin → Bool
  | .gosub | .comeBack => false
  | _ => true

/-- Whether a tree does not jump to a subroutine or back, apart from functions that are called. -/
def Tree.isQuiet (t : Tree) : Bool :=
  t.callsOnly Builtin.isQuiet

/-- Calls a function, and raises an alarm if it may jump to a subroutine or back. -/
def callQuietly (alarm : Stop) (site : Site) : Nat → Closure → List Value → Action Value
  | 0, _, _ => do Action.fail (← get).binders.tooDeep
  | room + 1, c, args => Action.inCall c args
    (if c.body.isQuiet then do (← eval (callQuietly alarm site room) site c.body).resolve
    else throw alarm)

/-- Evaluates a tree, with an alarm for calls of functions that may jump to a subroutine or back. -/
def evaluateQuietly (alarm : Stop) (site : Site) (t : Tree) : Action Operand := do
  eval (callQuietly alarm site (← get).room) site t

/-- Whether a function that may jump to a subroutine or back is called while a statement is
executed: then, and only then, any alarm for such calls is raised. -/
def Execution.CallsLoud (e : Execution) : Prop :=
  ∀ alarm, ∃ s, evaluateQuietly alarm e.site e.tree e.session = .error alarm s

theorem entered_callQuietly_of_callWithin (alarm : Stop) (site : Site) (room : Nat) :
    Entered (diagonal site (fun _ ↦ True) (· = alarm) (fun _ ↦ true) (fun _ _ _ ↦ trivial)
      fun _ _ _ _ ↦ trivial) (callWithin site room) (callQuietly alarm site room) := by
  induction room with
  | zero => exact fun c args ↦ abreast_tooDeep
  | succ room ih =>
    intro c args
    rw [callQuietly]
    cases c.body.isQuiet with
    | true => exact abreast_callBody ih (c.body.callsOnly_of_forall fun _ ↦ rfl) args
    | false => exact Abreast.inCall (Pairing.allowsCalls _) c args (.escape rfl)

/-- Unless the alarm is raised, evaluation is as it is without it. -/
theorem evaluateQuietly_cases (alarm : Stop) (site : Site) (t : Tree) (s : Session) :
    (∃ s', evaluateQuietly alarm site t s = .error alarm s') ∨
      evaluateQuietly alarm site t s = evaluate site t s := by
  obtain ⟨_, s', h, rfl⟩ | ⟨h, -⟩ := (abreast_eval
    (entered_callQuietly_of_callWithin alarm site s.room)
    (t.callsOnly_of_forall fun _ ↦ rfl)).of_diagonal (s := s) trivial
  · exact .inl ⟨s', h⟩
  · exact .inr h

/-- Runs that neither note sites nor take them back. -/
def quietly (site : Site) (r : List Site) : Pairing site :=
  diagonal site (· = r) (fun _ ↦ False) Builtin.isQuiet nofun nofun

theorem entered_callQuietly (alarm : Stop) (site : Site) (r : List Site) (room : Nat) :
    Entered (quietly site r) (callQuietly alarm site room) (callQuietly alarm site room) := by
  induction room with
  | zero => exact fun c args ↦ abreast_tooDeep
  | succ room ih =>
    intro c args
    rw [callQuietly]
    cases hquiet : c.body.isQuiet with
    | true => exact abreast_callBody ih hquiet args
    | false => exact Abreast.inCall (Pairing.allowsCalls _) c args (Detached.throw alarm).abreast

/-! ## Orderly statements -/

namespace Tree

mutual

/-- Whether a tree jumps to a subroutine and back only where it comes to the jump itself, apart
from functions that are called. -/
def isOrderly : Tree → Bool
  | .call _ args _ => allCallOnly Builtin.isQuiet args
  | .branch condition yes no => isQuiet condition && (isOrderly yes && elseIsOrderly no)
  | .select _ test targets => isQuiet test && allCallOnly Builtin.isQuiet targets
  | t => isQuiet t

/-- Whether the other branch of a conditional jumps only where it comes to the jump itself. -/
def elseIsOrderly : Option Tree → Bool
  | none => true
  | some t => isOrderly t

end

end Tree

/-- What a statement at a site comes to as a call of a builtin: the builtin, the operands that it is
called with, and the session then. -/
inductive Tree.Invokes (enter : Closure → List Value → Action Value) (site : Site) :
    Tree → Session → Builtin → List Operand → Session → Prop
  | call {name args separators b s xs s'} (hb : Builtin.ofName? name = some b)
      (henabled : s.checkEnabled b = .ok ()) (hargs : evalAll enter site args s = .ok xs s') :
      Invokes enter site (.call name args separators) s b xs s'
  | yes {condition yes no s v s₁ b xs s'}
      (hcondition : (eval enter site condition >>= Operand.resolve) s = .ok v s₁)
      (hv : v.isTruthy = true) (h : Invokes enter site yes s₁ b xs s') :
      Invokes enter site (.branch condition yes no) s b xs s'
  | no {condition yes no s v s₁ b xs s'}
      (hcondition : (eval enter site condition >>= Operand.resolve) s = .ok v s₁)
      (hv : v.isTruthy = false) (h : Invokes enter site no s₁ b xs s') :
      Invokes enter site (.branch condition yes (some no)) s b xs s'
  | select {kind test targets s position s₁ xs s'}
      (htest : (eval enter site test >>= fun x ↦ x.resolve >>= selected kind targets.length) s =
        .ok (some position) s₁)
      (hargs : evalAt enter site targets position s₁ = .ok xs s') :
      Invokes enter site (.select kind test targets) s kind.builtin xs s'

section
variable {enter : Closure → List Value → Action Value} {site : Site} {t : Tree} {s s' : Session}

/-- A statement does what the builtin does that it comes to. -/
theorem Tree.Invokes.eval_eq {b : Builtin} {xs : List Operand} (h : t.Invokes enter site s b xs s') :
    ∃ separators, eval enter site t s = b.invoke enter site separators xs s' := by
  induction h with
  | @call name args separators b s xs s' hb henabled hargs =>
    refine ⟨separators, ?_⟩
    rw [eval, hb]
    exact (callBuiltin_eq henabled).trans (bind_run_of_ok hargs)
  | yes hcondition hv _ ih =>
    obtain ⟨separators, ih⟩ := ih
    obtain ⟨x, s₁, hx, hresolve⟩ := bind_run_eq_ok.1 hcondition
    refine ⟨separators, ?_⟩
    rw [eval, bind_run_of_ok hx, bind_run_of_ok hresolve, if_pos hv, ih]
  | no hcondition hv _ ih =>
    obtain ⟨separators, ih⟩ := ih
    obtain ⟨x, s₁, hx, hresolve⟩ := bind_run_eq_ok.1 hcondition
    refine ⟨separators, ?_⟩
    rw [eval, bind_run_of_ok hx, bind_run_of_ok hresolve, if_neg (by simp [hv]), evalElse, ih]
  | select htest hargs =>
    obtain ⟨x, s₁, hx, htest⟩ := bind_run_eq_ok.1 htest
    obtain ⟨v, s₂, hv, htest⟩ := bind_run_eq_ok.1 htest
    refine ⟨[], ?_⟩
    rw [eval, bind_run_of_ok hx, bind_run_of_ok hv, bind_run_of_ok htest]
    exact bind_run_of_ok hargs

variable {P : Session → Prop}

theorem Operand.keeps_resolve (x : Operand) : Keeps P (fun _ ↦ True) x.resolve := by
  cases x with
  | value | assignment => exact .pure trivial
  | reference name => exact .get fun _ _ ↦ keeps_ofFault fun _ _ ↦ trivial
  | element base way index name => exact .get fun _ _ ↦ keeps_ofStop fun _ _ ↦ trivial
  | inexact base way name =>
    exact .get fun _ _ ↦ .bind (keeps_ofStop fun _ _ ↦ trivial) fun _ _ ↦ .throw _
  | jump target => exact .pure (Q := fun _ ↦ True) (a := Value.null) trivial

theorem keeps_selected (kind : JumpKind) (count : Nat) (v : Value) :
    Keeps P (fun _ ↦ True) (selected kind count v) := by
  unfold selected
  split
  · refine .bind (Q := fun _ ↦ True) (keeps_ofNumber fun _ _ ↦ trivial) fun n _ ↦
      .bind (Q := fun _ ↦ True) (.get fun _ _ ↦ .bind (keeps_ofStop fun _ _ ↦ trivial)
        fun _ _ ↦ .pure trivial) fun place _ ↦ ?_
    cases place with
    | element | outside => exact .pure trivial
    | inexact => exact .throw _
  · exact .bind (Q := fun _ ↦ True) (.get fun _ _ ↦ keeps_ofStop fun _ _ ↦ trivial)
      fun _ _ ↦ keeps_fail _

theorem keeps_evalAll {ts : List Tree}
    (h : ∀ t ∈ ts, Keeps P (fun _ ↦ True) (eval enter site t)) :
    Keeps P (fun _ ↦ True) (evalAll enter site ts) := by
  induction ts with
  | nil => exact .pure trivial
  | cons t ts ih =>
    rw [List.forall_mem_cons] at h
    exact .bind h.1 fun _ _ ↦ .bind (ih h.2) fun _ _ ↦ .pure trivial

theorem keeps_evalAt {ts : List Tree} (h : ∀ t ∈ ts, Keeps P (fun _ ↦ True) (eval enter site t))
    (position : Nat) : Keeps P (fun _ ↦ True) (evalAt enter site ts position) := by
  induction ts generalizing position with
  | nil => exact .pure trivial
  | cons t ts ih =>
    rw [List.forall_mem_cons] at h
    cases position with
    | zero => exact .bind h.1 fun _ _ ↦ .pure trivial
    | succ position => exact ih h.2 position

/-- A part of a computation that keeps a property comes to a value, or else all ends there. -/
theorem Keeps.exists_ok_or_ends {α β : Type} {x : Action α} {f : α → Action β}
    (hx : Keeps P (fun _ ↦ True) x) (hs : P s) :
    (∃ a s', x s = .ok a s' ∧ P s') ∨
      Ends P (fun _ ↦ True) (fun _ ↦ True) ((x >>= f) s) := by
  have hends := hx.run s hs
  cases hresult : x s with
  | ok a s' => exact .inl ⟨a, s', rfl, (hresult ▸ hends).of_ok.2⟩
  | error e s' =>
    exact .inr (bind_run_eq_error.2 (.inl hresult) ▸ .error trivial (hresult ▸ hends).of_error.2)

/-- Whether a statement comes to a jump to a subroutine or back. -/
def Tree.InvokesLoud (enter : Closure → List Value → Action Value) (site : Site) (t : Tree)
    (s : Session) : Prop :=
  ∃ b xs s', t.Invokes enter site s b xs s' ∧ b.isQuiet = false

section
variable {fits : Tree → Prop}
  (hquiet : ∀ {t}, t.isQuiet = true → fits t → Keeps P (fun _ ↦ True) (eval enter site t))

include hquiet

theorem Tree.invokes_or_ends_call {name : String} {args : List Tree} {separators : List Separator}
    (h : allCallOnly Builtin.isQuiet args = true) (hfits : fits (.call name args separators))
    (hargs : ∀ u ∈ args, fits u) (hs : P s) :
    InvokesLoud enter site (.call name args separators) s ∨
      Ends P (fun _ ↦ True) (fun _ ↦ True) (eval enter site (.call name args separators) s) := by
  by_cases hall : ∀ b ∈ Builtin.ofName? name, b.isQuiet = true
  · refine .inr ((hquiet ?_ hfits).run s hs)
    rw [isQuiet, callsOnly, builtin?, Bool.and_eq_true, Option.all_eq_true]
    exact ⟨hall, h⟩
  · obtain ⟨b, hb, hloud⟩ : ∃ b, Builtin.ofName? name = some b ∧ b.isQuiet = false := by
      simpa using hall
    rw [eval, hb]
    cases henabled : s.checkEnabled b with
    | error f =>
      right
      change Ends _ _ _ (EStateM.bind (Action.ofFault (s.checkEnabled b)) _ s)
      rw [henabled]
      exact .error trivial hs
    | ok =>
      simp only [callBuiltin_eq henabled]
      refine (Keeps.exists_ok_or_ends ?_ hs).imp_left ?_
      · exact keeps_evalAll fun u hu ↦ hquiet (allCallOnly_iff.1 h u hu) (hargs u hu)
      · rintro ⟨xs, s', hxs, -⟩
        exact ⟨b, xs, s', .call hb henabled hxs, hloud⟩

theorem Tree.invokes_or_ends_select {kind : JumpKind} {test : Tree} {targets : List Tree}
    (htest : test.isQuiet = true) (htargets : allCallOnly Builtin.isQuiet targets = true)
    (hfits : fits (.select kind test targets)) (hfitsTest : fits test)
    (hfitsTargets : ∀ u ∈ targets, fits u) (hs : P s) :
    InvokesLoud enter site (.select kind test targets) s ∨
      Ends P (fun _ ↦ True) (fun _ ↦ True) (eval enter site (.select kind test targets) s) := by
  cases hkind : kind.builtin.isQuiet with
  | true =>
    refine .inr ((hquiet ?_ hfits).run s hs)
    rw [isQuiet, callsOnly, builtin?, Bool.and_eq_true, Option.all_some, Bool.and_eq_true]
    exact ⟨hkind, htest, htargets⟩
  | false =>
    rw [eval]
    obtain ⟨x, s₁, hx, hs₁⟩ | hends := (hquiet htest hfitsTest).exists_ok_or_ends hs
    · obtain ⟨v, s₂, hv, hs₂⟩ | hends := x.keeps_resolve.exists_ok_or_ends hs₁
      · obtain ⟨found, s₃, hfound, hs₃⟩ | hends :=
          (keeps_selected kind targets.length v).exists_ok_or_ends hs₂
        · rw [bind_run_of_ok hx, bind_run_of_ok hv, bind_run_of_ok hfound]
          cases found with
          | none => exact .inr (.ok trivial hs₃)
          | some position =>
            refine (Keeps.exists_ok_or_ends ?_ hs₃).imp_left ?_
            · exact keeps_evalAt (fun u hu ↦ hquiet (allCallOnly_iff.1 htargets u hu)
                (hfitsTargets u hu)) position
            · rintro ⟨xs, s', hxs, -⟩
              refine ⟨kind.builtin, xs, s', .select ?_ hxs, hkind⟩
              rw [bind_run_of_ok hx, bind_run_of_ok hv, hfound]
        · exact .inr (by rw [bind_run_of_ok hx, bind_run_of_ok hv]; exact hends)
      · exact .inr (by rw [bind_run_of_ok hx]; exact hends)
    · exact .inr hends

/-- An orderly statement comes to a jump to a subroutine or back, or it keeps what quiet trees
keep. -/
theorem Tree.invokes_or_ends (hparts : ∀ {t}, fits t → ∀ u ∈ t.parts, fits u)
    (h : t.isOrderly = true) (hfits : fits t) (hs : P s) :
    InvokesLoud enter site t s ∨
      Ends P (fun _ ↦ True) (fun _ ↦ True) (eval enter site t s) := by
  induction t using Tree.parts_induction generalizing s with
  | step t ih =>
  cases t with
  | call name args separators => exact invokes_or_ends_call hquiet h hfits (hparts hfits) hs
  | branch condition yes no =>
    obtain ⟨hcondition, hbranches⟩ := Bool.and_eq_true_iff.1 h
    obtain ⟨hyes, hno⟩ := Bool.and_eq_true_iff.1 hbranches
    rw [eval]
    obtain ⟨x, s₁, hx, hs₁⟩ | hends :=
      (hquiet hcondition (hparts hfits condition (by simp [parts]))).exists_ok_or_ends hs
    · obtain ⟨v, s₂, hresolve, hs₂⟩ | hends := x.keeps_resolve.exists_ok_or_ends hs₁
      · have hresult := bind_run_eq_ok.2 ⟨x, s₁, hx, hresolve⟩
        rw [bind_run_of_ok hx, bind_run_of_ok hresolve]
        cases hv : v.isTruthy with
        | true =>
          refine (ih yes (by simp [parts]) hyes (hparts hfits yes (by simp [parts])) hs₂).imp_left ?_
          rintro ⟨b, xs, s', hinvokes, hloud⟩
          exact ⟨b, xs, s', .yes hresult hv hinvokes, hloud⟩
        | false =>
          cases no with
          | none => exact .inr (.ok trivial hs₂)
          | some no =>
            refine (ih no (by simp [parts]) hno (hparts hfits no (by simp [parts])) hs₂).imp_left ?_
            rintro ⟨b, xs, s', hinvokes, hloud⟩
            exact ⟨b, xs, s', .no hresult hv hinvokes, hloud⟩
      · exact .inr (by rw [bind_run_of_ok hx]; exact hends)
    · exact .inr hends
  | select kind test targets =>
    obtain ⟨htest, htargets⟩ := Bool.and_eq_true_iff.1 h
    obtain ⟨hfitsTest, hfitsTargets⟩ := List.forall_mem_cons.1 (hparts hfits)
    exact invokes_or_ends_select hquiet htest htargets hfits hfitsTest hfitsTargets hs
  | _ => exact .inr ((hquiet h hfits).run s hs)

/-- What quiet trees keep is kept until an orderly statement comes to its jump. -/
theorem Tree.Invokes.keeps (hparts : ∀ {t}, fits t → ∀ u ∈ t.parts, fits u) {b : Builtin}
    {xs : List Operand} (hinvokes : t.Invokes enter site s b xs s') (h : t.isOrderly = true)
    (hfits : fits t) (hs : P s) : P s' := by
  have hholds {t s v s₁} (ht : t.isQuiet = true) (hfits : fits t) (hs : P s)
      (hcomes : (eval enter site t >>= Operand.resolve) s = .ok v s₁) : P s₁ :=
    (hcomes ▸ (Keeps.bind (hquiet ht hfits) fun x _ ↦ x.keeps_resolve).run s hs).of_ok.2
  induction hinvokes with
  | call hb henabled hargs =>
    exact (hargs ▸ (keeps_evalAll fun u hu ↦ hquiet (allCallOnly_iff.1 h u hu)
      (hparts hfits u hu)).run _ hs).of_ok.2
  | @yes condition yes _ _ _ _ _ _ _ hcondition hv _ ih =>
    obtain ⟨hquietCondition, hbranches⟩ := Bool.and_eq_true_iff.1 h
    exact ih (Bool.and_eq_true_iff.1 hbranches).1 (hparts hfits yes (by simp [parts]))
      (hholds hquietCondition (hparts hfits condition (by simp [parts])) hs hcondition)
  | @no condition _ no _ _ _ _ _ _ hcondition hv _ ih =>
    obtain ⟨hquietCondition, hbranches⟩ := Bool.and_eq_true_iff.1 h
    exact ih (Bool.and_eq_true_iff.1 hbranches).2 (hparts hfits no (by simp [parts]))
      (hholds hquietCondition (hparts hfits condition (by simp [parts])) hs hcondition)
  | @select kind test targets _ position _ _ _ htest hargs =>
    obtain ⟨hquietTest, htargets⟩ := Bool.and_eq_true_iff.1 h
    obtain ⟨hfitsTest, hfitsTargets⟩ := List.forall_mem_cons.1 (hparts hfits)
    have hs₁ := (htest ▸ (Keeps.bind (hquiet hquietTest hfitsTest) fun x _ ↦
      .bind x.keeps_resolve fun v _ ↦ keeps_selected kind targets.length v).run _ hs).of_ok.2
    exact (hargs ▸ (keeps_evalAt (fun u hu ↦ hquiet (allCallOnly_iff.1 htargets u hu)
      (hfitsTargets u hu)) position).run _ hs₁).of_ok.2

end
end

/-- What a statement comes to that was executed when the sites `r` were noted: either the sites are
as before, or it jumps to a line and notes the site after itself, or it jumps to the site noted last
and takes it back. -/
inductive Turns (site : Site) (r : List Site) : EStateM.Result Stop Session Operand → Prop
  | kept {x s} (h : s.returns = r) : Turns site r (.ok x s)
  | away {line s} (h : s.returns = site.next :: r) : Turns site r (.ok (.jump ⟨line, 0⟩) s)
  | back {last s} (h : r = last :: s.returns) : Turns site r (.ok (.jump last) s)
  | failed {e s} (h : s.returns = r) : Turns site r (.error e s)

section
variable {site : Site} {r : List Site} {s : Session} {α : Type}

theorem Turns.of_ends {result : EStateM.Result Stop Session Operand}
    (h : Ends (fun s ↦ s.returns = r) (fun _ ↦ True) (fun _ ↦ True) result) :
    Turns site r result := by
  cases h with
  | ok _ hs => exact .kept hs
  | error _ hs => exact .failed hs

theorem Turns.bind {x : Action α} {f : α → Action Operand}
    (hx : Abreast (quietly site r).likeness Eq x x)
    (hf : ∀ a s, s.returns = r → Turns site r (f a s)) (hs : s.returns = r) :
    Turns site r ((x >>= f) s) := by
  have hends := hx.keeps.run s hs
  change Turns site r (EStateM.bind x f s)
  unfold EStateM.bind
  generalize x s = result at hends
  cases hends with
  | ok _ hs => exact hf _ _ hs
  | error _ hs => exact .failed hs

theorem turns_gosubOf (b : Builtin) (operand : Operand) (hs : s.returns = r) :
    Turns site r (b.gosubOf site operand s) :=
  .bind (b.detached_targetLine operand).abreast
    (fun _ _ hs ↦ .away (congrArg (site.next :: ·) hs)) hs

theorem turns_comeBackOf (hs : s.returns = r) : Turns site r (Builtin.comeBackOf s) := by
  cases r with
  | nil =>
    rw [Builtin.comeBackOf_of_nil hs]
    exact .failed hs
  | cons back outer =>
    rw [Builtin.comeBackOf_of_cons hs]
    exact .back rfl

variable {enter : Closure → List Value → Action Value}

theorem turns_invoke {b : Builtin} (hb : b.isQuiet = false) (separators : List Separator)
    (xs : List Operand) (hs : s.returns = r) :
    Turns site r (b.invoke enter site separators xs s) := by
  cases b with
  | gosub =>
    rcases xs with - | ⟨x, - | ⟨y, ys⟩⟩
    · exact .failed hs
    · exact turns_gosubOf _ x hs
    · exact .failed hs
  | comeBack =>
    cases xs with
    | nil => exact turns_comeBackOf hs
    | cons x xs => exact .failed hs
  | _ => cases hb

theorem turns_eval (henter : Entered (quietly site r) enter enter) {t : Tree}
    (h : t.isOrderly = true) (hs : s.returns = r) : Turns site r (eval enter site t s) := by
  have hquiet {t : Tree} (ht : t.isQuiet = true) (_ : True) :
      Keeps (fun s ↦ s.returns = r) (fun _ ↦ True) (eval enter site t) :=
    (abreast_eval henter ht).keeps
  obtain ⟨b, xs, s', hinvokes, hloud⟩ | hends :=
    Tree.invokes_or_ends hquiet (fun _ _ _ ↦ trivial) h trivial hs
  · obtain ⟨separators, heval⟩ := hinvokes.eval_eq
    rw [heval]
    exact turns_invoke hloud separators xs
      (hinvokes.keeps hquiet (fun _ _ _ ↦ trivial) h trivial hs)
  · exact .of_ends hends

end

theorem turns_evaluate {site : Site} {t : Tree} {s : Session} (h : t.isOrderly = true)
    (hquiet : ¬ Execution.CallsLoud ⟨site, t, s⟩) : Turns site s.returns (evaluate site t s) := by
  obtain ⟨alarm, halarm⟩ := Classical.not_forall.1 hquiet
  obtain hraised | heq := evaluateQuietly_cases alarm site t s
  · exact absurd hraised halarm
  · rw [← heq]
    exact turns_eval (entered_callQuietly alarm site s.returns s.room) h rfl

/-! ## Statements -/

section
variable {site : Site} {t : Tree} {s s' : Session}

theorem Operand.keeps_outcome {P : Session → Prop} (x : Operand) (site : Site) :
    Keeps P (fun _ ↦ True) (x.outcome site) := by
  cases x with
  | jump target => exact .pure trivial
  | _ => exact .bind (keeps_resolve _) fun _ _ ↦ .pure trivial

theorem Ends.execute {P : Session → Prop}
    (h : Ends P (fun _ ↦ True) (fun _ ↦ True) (evaluate site t s)) :
    Ends P (fun _ ↦ True) (fun _ ↦ True) (execute site t s) :=
  Ends.settled (h.bind (fun x s' _ hs' ↦ (x.keeps_outcome site).run s' hs') fun _ ↦ id) site

/-- A statement goes on where its tree says if that comes to a jump; otherwise its value is looked
up. -/
theorem execute_cases (site : Site) (t : Tree) (s : Session) :
    (∃ target s', evaluate site t s = .ok (.jump target) s' ∧
      execute site t s = .ok (.null, target) s') ∨
    (∃ x s', evaluate site t s = .ok x s' ∧ (∀ target, x ≠ .jump target) ∧
      Ends (fun s'' ↦ s''.returns = s'.returns) (fun _ ↦ True) (fun _ ↦ True)
        (execute site t s)) ∨
    ∃ e s', evaluate site t s = .error e s' ∧ execute site t s = .error (e.settle site) s' := by
  cases h : evaluate site t s with
  | error e s' => exact .inr (.inr ⟨e, s', rfl, execute_of_error h⟩)
  | ok x s' =>
    cases x with
    | jump target => exact .inl ⟨target, s', rfl, execute_of_jump h⟩
    | _ =>
      have hends : Ends (fun s'' ↦ s''.returns = s'.returns) (fun _ ↦ True) (fun _ ↦ True)
          (evaluate site t s) := h ▸ .ok trivial rfl
      exact .inr (.inl ⟨_, s', rfl, fun _ h ↦ Operand.noConfusion h, hends.execute⟩)

/-- A statement that notes a site or takes one back jumps. -/
theorem Turns.execute (h : Turns site s.returns (evaluate site t s)) :
    (∀ p s', execute site t s = .ok p s' → s'.returns = s.returns ∨
      evaluate site t s = .ok (.jump p.2) s' ∧ (p.2.statement = 0 ∧
        s'.returns = site.next :: s.returns ∨ s.returns = p.2 :: s'.returns)) ∧
    ∀ e s', execute site t s = .error e s' → s'.returns = s.returns := by
  obtain ⟨target, s₁, heval, hexecute⟩ | ⟨x, s₁, heval, hjump, hends⟩ | ⟨e, s₁, heval, hexecute⟩ :=
    execute_cases site t s
  · rw [hexecute]
    refine ⟨fun p s' hp ↦ ?_, fun e s' he ↦ by cases he⟩
    cases hp
    rw [heval] at h ⊢
    cases h with
    | kept h => exact .inl h
    | away h => exact .inr ⟨rfl, .inl ⟨rfl, h⟩⟩
    | back h => exact .inr ⟨rfl, .inr h⟩
  · rw [heval] at h
    have hkept : s₁.returns = s.returns := by
      cases h with
      | kept h => exact h
      | away | back => exact absurd rfl (hjump _)
    refine ⟨fun p s' hp ↦ ?_, fun e s' he ↦ ?_⟩
    · rw [hp] at hends
      exact .inl (hends.of_ok.2.trans hkept)
    · rw [he] at hends
      exact hends.of_error.2.trans hkept
  · rw [hexecute]
    rw [heval] at h
    refine ⟨fun p s' hp ↦ (by cases hp), fun e s' he ↦ ?_⟩
    cases he
    cases h with
    | failed h => exact h

end

/-! ## The result -/

/-- The sites noted after any statement are those from before, some of the latest taken back, and
then the site after the statement, noted any number of times.  A statement that jumps to
subroutines and back only in its own place, and calls no function that may do so, leaves the sites
as they are when it fails.  Otherwise it leaves them as they are or comes to a jump: it jumps to a
line and notes the site after itself, or it jumps to the site noted last and takes it back. -/
theorem execute_returns (site : Site) (t : Tree) (s : Session) :
    Ends (fun s' ↦ Renoted site s.returns s'.returns) (fun _ ↦ True) (fun _ ↦ True)
      (execute site t s) ∧
    (t.isOrderly = true → ¬ Execution.CallsLoud ⟨site, t, s⟩ →
      (∀ p s', execute site t s = .ok p s' → s'.returns = s.returns ∨
        evaluate site t s = .ok (.jump p.2) s' ∧ (p.2.statement = 0 ∧
          s'.returns = site.next :: s.returns ∨ s.returns = p.2 :: s'.returns)) ∧
      ∀ e s', execute site t s = .error e s' → s'.returns = s.returns) := by
  refine ⟨?_, fun h hquiet ↦ (turns_evaluate h hquiet).execute⟩
  have hexecute : Keeps (fun s' ↦ Renoted site s.returns s'.returns) (fun _ ↦ True)
      (execute site t) :=
    keeps_settled (.bind (keeps_renoted site t s.returns) fun x _ ↦ x.keeps_outcome site) site
  exact hexecute.run s ⟨0, 0, rfl⟩

/-- Whether an operand is an assignment that was made. -/
def Operand.isAssignment : Operand → Bool
  | .assignment _ _ => true
  | _ => false

/-- `X = GOSUB 100` notes the statement after it, and is passed by. -/
theorem exists_reachable_returns_differs : ∃ past s t x s', Session.Reachable past s ∧
    t.IsResolved ∧ evaluate ⟨typedLine, 0⟩ t s = .ok x s' ∧ (∀ target, x ≠ .jump target) ∧
    (∃ v, execute ⟨typedLine, 0⟩ t s = .ok (v, ⟨typedLine, 1⟩) s') ∧
    s.returns = [] ∧ s'.returns = [⟨typedLine, 1⟩] := by
  let site : Site := ⟨typedLine, 0⟩
  let s : Session := .start {} {} .unavailable 0
  let t : Tree := .binary .assign (.ident "X") (.call "GOSUB" [.number 100] [])
  have ht : t.resolve.IsResolved := ⟨t, .expression ⟨trivial, trivial, trivial⟩, rfl⟩
  have hends : Ends (·.returns = [⟨typedLine, 1⟩]) (·.isAssignment = true) (fun _ ↦ False)
      (evaluate site t.resolve s) := by decide +kernel
  obtain ⟨x, s', heval, hassignment, hreturns⟩ := hends.exists_ok
  cases x with
  | assignment name v =>
    have hbody : (evaluate site t.resolve >>= fun x ↦ x.outcome site) s =
        .ok (v, ⟨typedLine, 1⟩) s' := by
      rw [bind_run_of_ok heval]
      rfl
    refine ⟨_, s, t.resolve, _, s', .start {} {} .unavailable 0, ht, heval,
      fun _ h ↦ Operand.noConfusion h, ⟨v, ?_⟩, rfl, hreturns⟩
    rw [execute, Action.settled, hbody]
  | _ => cases hassignment

/-- Not every statement that falls through leaves the sites as they are. -/
theorem not_forall_execute_returns : ¬ ∀ past s, Session.Reachable past s → ∀ site t x p s',
    t.IsResolved → evaluate site t s = .ok x s' → (∀ target, x ≠ .jump target) →
      execute site t s = .ok p s' → p.2 = site.next → s'.returns = s.returns := by
  intro h
  obtain ⟨past, s, t, x, s', hs, ht, heval, hjump, ⟨v, hexecute⟩, hbefore, hafter⟩ :=
    exists_reachable_returns_differs
  have hsame := h past s hs ⟨typedLine, 0⟩ t x _ s' ht heval hjump hexecute rfl
  rw [hbefore, hafter] at hsame
  cases hsame

/-- `IF TRUE THEN GOSUB 100 ELSE RETURN` notes the statement after it, and jumps. -/
theorem execute_returns_branch :
    let site : Site := ⟨typedLine, 0⟩
    let s : Session := .start {} {} .unavailable 0
    let t : Tree := .branch (.boolean true) (.call "GOSUB" [.number 100] [])
      (some (.call "RETURN" [] []))
    t.isOrderly = true ∧ ¬ Execution.CallsLoud ⟨site, t, s⟩ ∧ ∃ p s', execute site t s = .ok p s' ∧
      evaluate site t s = .ok (.jump p.2) s' ∧ s'.returns = [site.next] := by
  intro site s t
  have hquiet : Ends (fun _ ↦ True) (fun _ ↦ True) (fun _ ↦ False)
      (evaluateQuietly .outOfFuel site t s) := by decide +kernel
  have hloud : ¬ Execution.CallsLoud ⟨site, t, s⟩ := by
    intro hloud
    obtain ⟨x, s', hs', -⟩ := hquiet.exists_ok
    obtain ⟨s'', hs''⟩ := hloud .outOfFuel
    cases hs'.symm.trans hs''
  have hexecute : Ends (·.returns = [site.next]) (fun _ ↦ True) (fun _ ↦ False)
      (execute site t s) := by decide +kernel
  obtain ⟨p, s', hp, -, hreturns⟩ := hexecute.exists_ok
  obtain hsame | ⟨heval, -⟩ := ((execute_returns site t s).2 rfl hloud).1 p s' hp
  · cases hreturns.symm.trans hsame
  · exact ⟨rfl, hloud, p, s', hp, heval, hreturns⟩

end LineBasic
