import LineBasic.Proofs.Abreast
import LineBasic.Proofs.Comparison.Evaluation
import LineBasic.Proofs.Evaluation.Permission
import LineBasic.Statement

/-!
# Statements on another line

Most statements do the same on whatever line they stand, so a statement may be typed instead of
stored, or stored on another line.  Of the builtins, jumps, labels and data depend on the program
around, and random numbers on those drawn before.  All others do the same: the loops that they enter
have their heads at the same places on the other line, and faults are attributed to it.

There is one more difference.  A stored program takes memory, so one of two statements may be
refused for want of it.

* `Builtin.isPortable` — the builtins that this is about.
* `relocating`, `relocation` — the comparison of the runs.
* `beside_execute` — statements.
-/

set_option autoImplicit false
namespace LineBasic

/-! ## What depends on the line -/

/-- Whether a builtin does the same on all lines of all programs, and whatever random numbers come
next. -/
def Builtin.isPortable : Builtin → Bool
  | .goto | .gosub | .data | .label | .resolve | .random => false
  | _ => true

/-- Sites at the same place on two lines. -/
structure Site.Moved (line line' : Int) (a b : Site) : Prop where
  line : a.line = line
  line' : b.line = line'
  statement : b.statement = a.statement

theorem Site.Moved.next {line line' : Int} {a b : Site} (h : a.Moved line line' b) :
    a.next.Moved line line' b.next :=
  ⟨h.line, h.line', congrArg (· + 1) h.statement⟩

/-- Where two statements go on: at the same place on their lines, or at the end. -/
inductive Site.Follows (line line' : Int) : Site → Site → Prop
  | moved {a b : Site} (h : a.Moved line line' b) : Follows line line' a b
  | finish : Follows line line' ⟨Builtin.lastLine, 0⟩ ⟨Builtin.lastLine, 0⟩

/-- What a statement finds around it, apart from values and options: the program, the loops and
subroutines under way, the random numbers to come and the lines traced. -/
structure Surroundings where
  program : Program
  returns : List Site
  loops : List Loop
  random : Number.Random
  traced : List Int

/-- Other surroundings are a change of what most actions leave aside. -/
def Surroundings.put (k : Surroundings) (a : Aside) : Aside :=
  { a with
    program := k.program, returns := k.returns, loops := k.loops, random := k.random
    traced := k.traced }

/-- The surroundings of a statement, as a part of sessions. -/
def Facet.surroundings : Facet Surroundings where
  of s := ⟨s.program, s.returns, s.loops, s.random, s.traced⟩
  put s k :=
    { s with
      program := k.program, returns := k.returns, loops := k.loops, random := k.random
      traced := k.traced }
  put_of _ := rfl
  of_put _ _ := rfl

/-- Surroundings on two lines, the first without a program: loops have their heads at the same
places, and there are no subroutines under way. -/
structure Surroundings.Moved (line line' : Int) (k k' : Surroundings) : Prop where
  program : k.program = .empty
  returns : k.returns = []
  returns' : k'.returns = []
  loops : List.Forall₂ (Loop.Same (Site.Moved line line')) k.loops k'.loops

/-- A refusal for want of memory. -/
def Stop.IsFull (stop : Stop) : Prop :=
  ∃ f, stop = .fault f ∧ f.kind = .outOfMemory

/-- What is compared: runs of sessions with surroundings on two lines, as long as there is
memory. -/
@[reducible]
def relocating (line line' : Int) : Likeness where
  sessions := Facet.surroundings.Differ (Surroundings.Moved line line')
  stops := Eq
  leaves := Stop.IsFull
  escapes := Stop.IsFull

section
variable {line line' : Int} {α : Type}

theorem abreast_of_surroundings {act : Action α}
    (h : ∀ k, Commutes (Facet.surroundings.put · k) act) :
    Abreast (relocating line line') Eq act act :=
  Facet.abreast (fun _ ↦ rfl) h

/-- Whether a quantity is below an integer can be told for all integers or for none. -/
theorem Quantity.isBelow_whole_cases (p : Quantity) (m n : Int) :
    (∃ b c, p.isBelow (.whole m) = .ok b ∧ p.isBelow (.whole n) = .ok c) ∨
      p.isBelow (.whole m) = .error .misfit ∧ p.isBelow (.whole n) = .error .misfit := by
  cases p with
  | whole k => exact .inl ⟨_, _, rfl, rfl⟩
  | truth b => exact .inl ⟨_, _, rfl, rfl⟩
  | real x => exact .inl ⟨_, _, rfl, rfl⟩
  | other => exact .inr ⟨rfl, rfl⟩

/-- A variable is given a value in other surroundings as well, unless there is no memory for it
here or there. -/
theorem Session.assign_surroundings (s : Session) (k : Surroundings) (name : String) (v : Value) :
    (∃ vars, s.assign name v = .ok { s with vars } ∧
      (Facet.surroundings.put s k).assign name v = .ok (Facet.surroundings.put { s with vars } k)) ∨
    (∃ e, s.assign name v = .error e ∧ (Facet.surroundings.put s k).assign name v = .error e) ∨
    ∃ e : Stop, e.IsFull ∧
      (s.assign name v = .error e ∨ (Facet.surroundings.put s k).assign name v = .error e) := by
  let used (p : Program) : Int := s.vars.footprintWith s.heap name v + p.footprint
  have hleft : s.assign name v =
    (s.settings.memorySize.isBelow (.whole (used s.program)) >>= _) := rfl
  have hright : (Facet.surroundings.put s k).assign name v =
    (s.settings.memorySize.isBelow (.whole (used k.program)) >>= _) := rfl
  obtain ⟨b, b', hb, hb'⟩ | ⟨hb, hb'⟩ :=
    s.settings.memorySize.isBelow_whole_cases (used s.program) (used k.program)
  · rw [hb] at hleft
    rw [hb'] at hright
    cases b with
    | true => exact .inr (.inr ⟨_, ⟨_, rfl, rfl⟩, .inl hleft⟩)
    | false =>
      cases b' with
      | true => exact .inr (.inr ⟨_, ⟨_, rfl, rfl⟩, .inr hright⟩)
      | false =>
        change s.assign name v = ((s.vars.define name v).mapError Stop.fault >>= _) at hleft
        change (Facet.surroundings.put s k).assign name v =
          ((s.vars.define name v).mapError Stop.fault >>= _) at hright
        cases hdefine : s.vars.define name v with
        | ok vars =>
          rw [hdefine] at hleft hright
          exact .inl ⟨vars, hleft, hright⟩
        | error f =>
          rw [hdefine] at hleft hright
          exact .inr (.inl ⟨_, hleft, hright⟩)
  · rw [hb] at hleft
    rw [hb'] at hright
    exact .inr (.inl ⟨_, hleft, hright⟩)

/-- Assignments do the same unless memory runs out. -/
theorem abreast_assign (name : String) (v : Value) :
    Abreast (relocating line line') Eq (Action.assign name v) (Action.assign name v) := by
  refine .get fun s s' hs ↦ ?_
  have hrest := hs.rest
  generalize hk : Facet.surroundings.of s' = k at hrest
  subst hrest
  obtain ⟨vars, h, h'⟩ | ⟨e, h, h'⟩ | ⟨e, he, h | h⟩ := s.assign_surroundings k name v
  · rw [h, h']
    exact .ok rfl ⟨hs.part, rfl⟩
  · rw [h, h']
    exact .error rfl hs
  · rw [h]
    exact .left he
  · rw [h]
    exact .escaped he

theorem allowsCalls_relocating : (relocating line line').AllowsCalls where
  full h := by
    rw [h.rest]
    exact .inl ⟨rfl, rfl⟩
  enter c args h := by
    refine ⟨h.part, ?_⟩
    rw [h.rest]
    rfl
  leave h h₁ := by
    refine ⟨h₁.part, ?_⟩
    rw [h₁.rest, h.rest]
    rfl

/-- The comparison of statements at the same places on two lines. -/
@[reducible]
def relocation {site site' : Site} (hsite : site.Moved line line' site') :
    Comparison site site' where
  rel := Abreast (relocating line line')
  heads := Site.Moved line line'
  targets := Site.Follows line line'
  permits := Builtin.isPortable
  pure := .pure
  bind := .bind
  detached h := abreast_of_surroundings fun k ↦ h.commutes k.put
  write _ _ base way index name v := abreast_of_surroundings fun k ↦
    (Operand.apart_store_element base way index name v _).commutes k.put
  assign := abreast_assign
  frames f f' h := by
    refine .get fun s s' hs ↦ ?_
    have hframes : s'.binders = s.binders := by rw [hs.rest]; rfl
    rw [hframes]
    exact (h _).run s s' hs
  inCall c args h := .inCall allowsCalls_relocating c args h
  loops f f' h := .get fun s s' hs ↦ (h _ _ hs.part.loops).run s s' hs
  putLoops ls ls' h := by
    refine .modify fun s s' hs ↦ ⟨⟨hs.part.program, hs.part.returns, hs.part.returns', h⟩, ?_⟩
    rw [hs.rest]
    rfl
  head := hsite
  next h := .moved h.next
  finish := .finish
  line h := by simp [Builtin.isPortable] at h
  goSub h := by cases h
  comeBack _ := by
    refine ⟨fun s s' hs ↦ ?_⟩
    rw [Builtin.comeBackOf_of_nil hs.part.returns, Builtin.comeBackOf_of_nil hs.part.returns']
    exact .error rfl hs
  label h := by cases h
  resolve h := by cases h
  random h := by cases h
  collectData h := by cases h
  nextDatum := abreast_of_surroundings fun k ↦ Builtin.commutes_nextDatum
    (f := (Facet.surroundings.put · k)) (fun _ ↦ rfl) (fun _ ↦ rfl) fun _ ↦ rfl
  restore := abreast_of_surroundings fun _ _ ↦ rfl
  clear := abreast_of_surroundings fun _ _ ↦ rfl

/-! ## Statements -/

theorem binders_relocated {s s' : Session} (h : (relocating line line').sessions s s') :
    s'.binders = s.binders := by
  rw [h.rest]
  rfl

theorem permits_relocated {p : Builtin → Bool} {s s' : Session}
    (h : (relocating line line').sessions s s') (hs : s.Permits p) : s'.Permits p := by
  obtain ⟨hpart, hrest⟩ := h
  generalize Facet.surroundings.of s' = k at hpart hrest
  subst hrest
  refine ⟨hs.frames, hs.all.heap, hs.all.vars, ?_, hs.all.data⟩
  have hloops := hs.all.loops
  change ∀ loop ∈ k.loops, loop.source.All _
  have hsame : List.Forall₂ (Loop.Same (Site.Moved line line')) s.loops k.loops := hpart.loops
  generalize s.loops = ls, k.loops = ls' at hloops hsame
  induction hsame with
  | nil => exact hloops
  | cons hloop _ ih =>
    rw [List.forall_mem_cons] at hloops ⊢
    exact ⟨hloop.source ▸ hloops.1, ih hloops.2⟩

/-- A stop, apart from the place that it is attributed to. -/
def Stop.unplaced : Stop → Stop
  | .fault f => .fault { f with line := none, statement := none }
  | stop => stop

theorem Stop.unplaced_located (site : Site) (f : Fault) :
    (Stop.settle.located site f).unplaced = (Stop.fault f).unplaced := by
  unfold Stop.settle.located Fault.locate
  split <;> rfl

/-- A stop is settled in the same way everywhere, apart from the place. -/
theorem Stop.unplaced_settle (site site' : Site) (e : Stop) :
    (e.settle site').unplaced = (e.settle site).unplaced := by
  cases e with
  | fault f => exact (unplaced_located _ f).trans (unplaced_located _ f).symm
  | mishap mishap =>
    cases mishap <;> exact (unplaced_located _ _).trans (unplaced_located _ _).symm
  | endlessNesting => exact (unplaced_located _ _).trans (unplaced_located _ _).symm
  | _ => rfl

theorem Stop.IsFull.settle {e : Stop} (h : e.IsFull) (site : Site) : (e.settle site).IsFull := by
  obtain ⟨f, rfl, hkind⟩ := h
  refine ⟨_, rfl, ?_⟩
  unfold Fault.locate
  split <;> exact hkind

/-- The same comparison, with nothing said about the places that stops are attributed to. -/
@[reducible]
def relocated (line line' : Int) : Likeness :=
  { relocating line line' with stops := fun e e' ↦ e'.unplaced = e.unplaced }

theorem Detached.relocated {act : Action α} (h : Detached act) :
    Abreast (relocated line line') Eq act act := by
  have hput (k : Surroundings) : Commutes (Facet.surroundings.put · k) act := h.commutes k.put
  exact Facet.abreast (fun e ↦ Eq.refl e.unplaced) hput

theorem Beside.settled {Q : α → α → Prop} {site site' : Site} {act act' : Action α}
    {s s' : Session} (h : Beside (relocating line line') Q (act s) (act' s')) :
    Beside (relocated line line') Q (act.settled site s) (act'.settled site' s') := by
  unfold Action.settled
  generalize act s = r, act' s' = r' at h
  cases h with
  | ok ha hs => exact .ok ha hs
  | @error e _ _ _ he hs => exact .error (he ▸ e.unplaced_settle site site') hs
  | left he => exact .left (he.settle site)
  | escaped he => exact .escaped (he.settle site')

section
variable {site site' : Site} (hsite : site.Moved line line' site')

include hsite

/-- With an alarm for calls of functions that depend on the line, functions are called in the same
way on both lines. -/
theorem enters_relocated (alarm : Stop) (room : Nat) : (relocation hsite).Enters
    (callPermitted Builtin.isPortable alarm site room)
    (callPermitted Builtin.isPortable alarm site' room) := by
  induction room with
  | zero =>
    refine fun c args ↦ .get fun s s' hs ↦ ?_
    rw [binders_relocated hs]
    exact .error rfl hs
  | succ room ih =>
    intro c args
    rw [callPermitted, callPermitted]
    cases hcalls : c.body.callsOnly Builtin.isPortable with
    | true => exact Comparison.callBody ih hcalls args
    | false => exact .inCall allowsCalls_relocating c args (.throw rfl)

variable {t : Tree} (hcalls : t.callsOnly Builtin.isPortable = true)
  (hforms : t.formsOnly Builtin.isPortable = true) {s s' : Session}
  (h : (relocating line line').sessions s s') (hs : s.Permits Builtin.isPortable)

include hcalls hforms h hs

theorem beside_evaluate : Beside (relocating line line') (Operand.Same (Site.Follows line line'))
    (evaluate site t s) (evaluate site' t s') := by
  have henters := enters_relocated hsite .endOfInput s.room
  have heval := (Comparison.gives_eval henters hcalls).run s s' h
  rw [(eval_callPermitted site hforms hs .endOfInput s.room).1,
    (eval_callPermitted site' hforms (permits_relocated h hs) .endOfInput s.room).1] at heval
  have hroom : s'.room = s.room := by
    rw [Session.room, binders_relocated h, Session.room]
  rw [evaluate, get_bind_run, evaluate, get_bind_run, hroom]
  exact heval

/-- Statements at the same places on two lines end in the same way. -/
theorem beside_execute : Beside (relocated line line')
    (fun a a' ↦ a'.1 = a.1 ∧ Site.Follows line line' a.2 a'.2)
    (execute site t s) (execute site' t s') := by
  refine .settled ((beside_evaluate hsite hcalls hforms h hs).bind fun x x' s₁ s₁' hx h₁ ↦ ?_)
  cases hx with
  | jump htarget => exact .ok ⟨rfl, htarget⟩ h₁
  | @other x hother =>
    have hresolve := ((relocation hsite).detached x.detached_resolve).run s₁ s₁' h₁
    have hgoes {b b' : Site} (hb : Site.Follows line line' b b') :
        Beside (relocating line line') (fun a a' ↦ a'.1 = a.1 ∧ Site.Follows line line' a.2 a'.2)
          ((do return (← x.resolve, b)) s₁) ((do return (← x.resolve, b')) s₁') :=
      hresolve.bind fun v v' s₂ s₂' hv h₂ ↦ .ok ⟨hv.symm, hb⟩ h₂
    cases x with
    | jump target => exact absurd rfl (hother target)
    | _ => exact hgoes (.moved hsite.next)

end
end
end LineBasic
