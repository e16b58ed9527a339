import LineBasic.Proofs.Keeping
import LineBasic.Proofs.Run.LoopStatements
import Mathlib.Data.List.Chain
import Mathlib.Data.List.Forall2

/-!
# Loops run their bodies once for each value

A loop is no syntactic construct: a head, the statements of a body and a `NEXT` stand one after the
other in a text, and the run jumps back from the last to the statement after the first.  Where the
statements of the body go on one to the next and leave the loop variable and the open loops alone,
the run goes through the body once for each value of the loop, and then on past the `NEXT`.

A part of the body may be a loop itself.  It is then gone through as a whole, and what is said of
loops says that this can be done.

* `LoopText` — a loop in a text.
* `Machine.Crosses` — how a part of a body is gone through.
* `LoopText.Opens` — the values that a loop takes.
* `LoopText.IsOrderly` — what is asked of a loop.
* `runs_passes_of_isOrderly` — the passes.
-/

set_option autoImplicit false
namespace LineBasic

/-! ## Loops in a text -/

/-- A loop in a text: its variable, its head, the parts of its body and its end. -/
structure LoopText where
  name : String
  head : Placed
  /-- A part is a statement, or several that are gone through as a whole, such as a loop. -/
  parts : List (List Placed)
  last : Placed

namespace LoopText

variable (L : LoopText)

/-- The statements of the body. -/
def body : List Placed := L.parts.flatten

def statements : List Placed := L.head :: (L.body ++ [L.last])

/-- Whether a run is at the head of a loop whose statements stand one after the other in its
text. -/
structure LaidOut (r : Run) : Prop where
  next : r.next? = some L.head
  follows : L.statements.IsChain fun p q ↦ r.at? p.1.next = some q
  last : L.last.2 = some (.call "NEXT" [] [])
  parts : ∀ part ∈ L.parts, part ≠ []

/-- What the head of a loop comes to: the values that the loop takes, and the session when they are
known.  A loop over a range takes the numbers that the range is stepped on through from its start
on; a loop over a sequence the items of it that there are then, or null if there are none. -/
inductive Opens (s : Session) : List Value → Session → Prop
  | range {e : Tree} {separators : List Separator} {g : Generator} {xs : List Float}
      {s₁ : Session}
      (htree : L.head.2 = some (.call "FOR" [.binary .assign (.ident L.name) e] separators))
      (he : Comes L.head.1 e s (.generator g) s₁) (hwalks : g.Walks g.start xs) :
      Opens s (xs.map .number) s₁
  | sequence {e : Tree} {separators : List Separator} {v : Value} {items : List Value}
      {s₁ : Session}
      (htree : L.head.2 = some (.call "FOREACH" [.binary .member (.ident L.name) e] separators))
      (he : Comes L.head.1 e s v s₁) (hitems : Builtin.loopOver.items v s₁ = .ok items s₁) :
      Opens s (if items.isEmpty then [.null] else items) s₁

end LoopText

/-! ## Parts of a body -/

/-- A session with the same values of some variables, and the same open loops. -/
structure Session.Spares (kept : List String) (s s' : Session) : Prop where
  vars : ∀ name ∈ kept, s'.vars.lookup? name = s.vars.lookup? name
  loops : s'.loops = s.loops

namespace Machine

/-- A part of a body is gone through: by a statement that goes on to the one after it, or by several
that stay among themselves until the last of them is gone past.  All spare some variables and the
open loops. -/
inductive Crosses (kept : List String) : List Placed → Machine → List Machine → Machine → Prop
  | statement {p : Placed} {m m' : Machine} (hat : m.run.next? = some p) (hsteps : m.Steps m')
      (hsite : m'.run.site = p.1.next) (hspares : m.session.Spares kept m'.session) :
      Crosses kept [p] m [m] m'
  | stretch {part : List Placed} {last : Placed} {m m' : Machine} {visits : List Machine}
      (hpart : part ≠ []) (hruns : m.Runs visits m')
      (hinside : ∀ x ∈ visits, ∃ p ∈ part ++ [last], x.run.next? = some p)
      (hsite : m'.run.site = last.1.next) (hspares : m.session.Spares kept m'.session) :
      Crosses kept (part ++ [last]) m visits m'

end Machine

theorem Session.Spares.refl (kept : List String) (s : Session) : s.Spares kept s :=
  ⟨fun _ _ ↦ rfl, rfl⟩

theorem Session.Spares.trans {kept : List String} {s s₁ s' : Session} (h : s.Spares kept s₁)
    (h' : s₁.Spares kept s') : s.Spares kept s' :=
  ⟨fun name hname ↦ (h'.vars name hname).trans (h.vars name hname), h'.loops.trans h.loops⟩

namespace Machine.Crosses

variable {kept : List String} {part : List Placed} {m m' : Machine} {visits : List Machine}

theorem runs (h : m.Crosses kept part visits m') : m.Runs visits m' := by
  cases h with
  | statement _ hsteps => exact hsteps.runs
  | stretch _ hruns => exact hruns

theorem inside (h : m.Crosses kept part visits m') :
    ∀ x ∈ visits, ∃ p ∈ part, x.run.next? = some p := by
  cases h with
  | statement hat =>
    rintro x hx
    rw [List.mem_singleton] at hx
    exact hx ▸ ⟨_, List.mem_singleton_self _, hat⟩
  | stretch _ _ hinside => exact hinside

theorem spares (h : m.Crosses kept part visits m') : m.session.Spares kept m'.session := by
  cases h <;> assumption

theorem exists_last (h : m.Crosses kept part visits m') :
    ∃ before last, part = before ++ [last] ∧ m'.run.site = last.1.next := by
  cases h with
  | statement _ _ hsite => exact ⟨[], _, rfl, hsite⟩
  | stretch _ _ _ hsite => exact ⟨_, _, rfl, hsite⟩

theorem of_singleton {p : Placed} (h : m.Crosses kept [p] visits m') :
    visits = [m] ∧ m.run.next? = some p := by
  generalize hpart : [p] = part at h
  cases h with
  | statement hat =>
    cases hpart
    exact ⟨rfl, hat⟩
  | stretch hne =>
    obtain ⟨hempty, -⟩ := List.append_inj' (show [] ++ [p] = _ from hpart) rfl
    exact absurd hempty.symm hne

end Machine.Crosses

namespace LoopText

variable (L : LoopText)

/-- Several steps that execute statements of the loop only. -/
structure RunsIn (m : Machine) (visits : List Machine) (m' : Machine) : Prop where
  runs : m.Runs visits m'
  inside : ∀ x ∈ visits, ∃ p ∈ L.statements, x.run.next? = some p

/-- A machine that is come to in the loop. -/
def Reaches (m₀ m : Machine) : Prop :=
  ∃ visits, L.RunsIn m₀ visits m

/-- What is asked of a loop that is entered: wherever its run comes to, each part of the body can be
gone through and spares the loop variable, memory suffices, and the console does not ask to stop. -/
structure IsOrderly (kept : List String) (outer : List Loop) (m₀ : Machine) : Prop where
  laidOut : L.LaidOut m₀.run
  isVariable : IsVariable L.name
  others : ∀ other ∈ kept, Text.upper other ≠ Text.upper L.name
  crosses : ∀ part ∈ L.parts, ∀ m, L.Reaches m₀ m → m.run.next? = part.head? →
    (∃ source, m.session.loops = ⟨L.name, source, L.head.1⟩ :: outer) →
    ∃ visits m', m.Crosses (L.name :: kept) part visits m'
  budget : ∀ m, L.Reaches m₀ m → ∀ stop s, m.run.step m.session = .error stop s → ¬ stop.IsBudget
  going : ∀ m, L.Reaches m₀ m → m.run.next? ≠ none →
    ∀ v s, m.run.step m.session ≠ .ok (.ended v) s

/-- A pass: all parts of the body are gone through in their order, from where the loop variable has
a value on, and then `NEXT` is executed while it still has that value. -/
def IsPass (kept : List String) (v : Value) (visits : List Machine) : Prop :=
  ∃ crossings m, visits = crossings.flatten ++ [m] ∧
    List.Forall₂ (fun part crossing ↦ ∃ m₁ m₂ : Machine,
      m₁.session.vars.lookup? L.name = some v ∧
        m₁.Crosses (L.name :: kept) part crossing m₂) L.parts crossings ∧
    m.run.next? = some L.last ∧ m.session.vars.lookup? L.name = some v


variable {L} {kept : List String} {outer : List Loop} {m₀ m m' : Machine}

namespace RunsIn

theorem append {m₁ : Machine} {visits visits' : List Machine} (h : L.RunsIn m visits m₁)
    (h' : L.RunsIn m₁ visits' m') : L.RunsIn m (visits ++ visits') m' :=
  ⟨h.runs.append h'.runs, List.forall_mem_append.2 ⟨h.inside, h'.inside⟩⟩

theorem step {p : Placed} (hp : p ∈ L.statements) (hat : m.run.next? = some p)
    (hsteps : m.Steps m') : L.RunsIn m [m] m' := by
  refine ⟨hsteps.runs, fun x hx ↦ ?_⟩
  rw [List.mem_singleton] at hx
  exact hx ▸ ⟨p, hp, hat⟩

end RunsIn

namespace Reaches

theorem refl (L : LoopText) (m : Machine) : L.Reaches m m :=
  ⟨[], .done m, List.forall_mem_nil _⟩

theorem trans (h : L.Reaches m₀ m) {visits : List Machine} (hruns : L.RunsIn m visits m') :
    L.Reaches m₀ m' := by
  obtain ⟨before, hbefore⟩ := h
  exact ⟨before ++ visits, hbefore.append hruns⟩

/-- The text is still there. -/
theorem at?_eq_some (h : L.Reaches m₀ m) {site : Site} {p : Placed}
    (hat : m₀.run.at? site = some p) : m.run.at? site = some p := by
  obtain ⟨visits, hruns⟩ := h
  exact hruns.runs.at?_eq_some hat

end Reaches

theorem mem_statements_of_mem_part {part : List Placed} (hpart : part ∈ L.parts) {p : Placed}
    (hp : p ∈ part) : p ∈ L.statements :=
  List.mem_cons_of_mem _ (List.mem_append_left _ (List.mem_flatten.2 ⟨part, hpart, hp⟩))

/-! ## One pass -/

/-- The parts of the body that are left are gone through, one after the other. -/
theorem IsOrderly.exists_crossings (h : L.IsOrderly kept outer m₀) {before : Placed} {v : Value}
    {source : LoopSource} (parts : List (List Placed)) (hparts : ∀ part ∈ parts, part ∈ L.parts)
    (hfollows : (before :: (parts.flatten ++ [L.last])).IsChain
      fun p q ↦ m₀.run.at? p.1.next = some q)
    (hreaches : L.Reaches m₀ m) (hsite : m.run.site = before.1.next)
    (hv : m.session.vars.lookup? L.name = some v)
    (hloops : m.session.loops = ⟨L.name, source, L.head.1⟩ :: outer) :
    ∃ crossings m', L.RunsIn m crossings.flatten m' ∧
      List.Forall₂ (fun part crossing ↦ ∃ m₁ m₂ : Machine,
        m₁.session.vars.lookup? L.name = some v ∧
          m₁.Crosses (L.name :: kept) part crossing m₂) parts crossings ∧
      m'.run.next? = some L.last ∧ m.session.Spares (L.name :: kept) m'.session := by
  induction parts generalizing before m with
  | nil =>
    have hlast := (List.isChain_cons_cons.1 hfollows).1
    refine ⟨[], m, ⟨.done m, List.forall_mem_nil _⟩, .nil, ?_, .refl _ _⟩
    rw [← hreaches.at?_eq_some hlast, ← hsite]
    rfl
  | cons part parts ih =>
    rw [List.forall_mem_cons] at hparts
    obtain ⟨hpart, hparts⟩ := hparts
    have hnext : m.run.next? = part.head? := by
      obtain ⟨p, rest, rfl⟩ := List.exists_cons_of_ne_nil (h.laidOut.parts part hpart)
      have hfirst := (List.isChain_cons_cons.1 hfollows).1
      rw [List.head?_cons, ← hreaches.at?_eq_some hfirst, ← hsite]
      rfl
    obtain ⟨visits, m₁, hcrosses⟩ := h.crosses part hpart m hreaches hnext ⟨source, hloops⟩
    obtain ⟨init, last, rfl, hsite₁⟩ := hcrosses.exists_last
    have hspares := hcrosses.spares
    have hruns₁ : L.RunsIn m visits m₁ := ⟨hcrosses.runs, fun x hx ↦ by
      obtain ⟨p, hp, hat⟩ := hcrosses.inside x hx
      exact ⟨p, mem_statements_of_mem_part hpart hp, hat⟩⟩
    have hfollows₁ : (last :: (parts.flatten ++ [L.last])).IsChain
        fun p q ↦ m₀.run.at? p.1.next = some q := by
      have hsplit : before :: (((init ++ [last]) :: parts).flatten ++ [L.last]) =
          (before :: init) ++ last :: (parts.flatten ++ [L.last]) := by simp
      exact (hsplit ▸ hfollows).right_of_append
    obtain ⟨crossings, m', hruns, hcrossings, hlast, hspares'⟩ :=
      ih hparts hfollows₁ (hreaches.trans hruns₁) hsite₁
        ((hspares.vars _ (List.mem_cons_self ..)).trans hv) (hspares.loops.trans hloops)
    exact ⟨visits :: crossings, m', hruns₁.append hruns,
      .cons ⟨m, m₁, hv, hcrosses⟩ hcrossings, hlast, hspares.trans hspares'⟩

/-! ## The statements of the loop -/

/-- A statement of the loop that succeeds where memory suffices is executed. -/
theorem IsOrderly.exists_step (h : L.IsOrderly kept outer m₀) (hreaches : L.Reaches m₀ m)
    {p : Placed} {t : Tree} (hp : p ∈ L.statements) (ht : p.2 = some t)
    (hnext : m.run.next? = some p) {target : Site} {Q : Session → Prop}
    (hexecute : Budgeted (fun r s ↦ r = (.null, target) ∧ Q s)
      (execute p.1 t (m.session.noted p.1.line)))
    (htarget : m.run.listing.isSome = true ∨ target.line < 0) :
    ∃ m', L.RunsIn m [m] m' ∧ m'.run.site = target ∧
      ∃ s console, Q s ∧ m'.session = { s with console } := by
  have hat : m.run.next? = some (p.1, some t) := by rw [hnext, ← ht]
  generalize hresult : execute p.1 t (m.session.noted p.1.line) = r at hexecute
  cases hexecute with
  | refused hstop =>
    exact absurd hstop (h.budget m hreaches _ _ (Machine.step_of_execute_error hat hresult))
  | @ok _ s hQ =>
    obtain ⟨rfl, hQ⟩ := hQ
    have hgoing := h.going m hreaches (by rw [hnext]; nofun)
    obtain ⟨m', hsteps, hsite, console, hsession⟩ :=
      Machine.steps_of_execute hat hresult htarget hgoing
    exact ⟨m', .step hp hnext hsteps, hsite, s, console, hQ, hsession⟩

theorem noted_vars (s : Session) (line : Int) : (s.noted line).vars = s.vars := by
  rw [Session.noted]
  split <;> rfl

theorem noted_loops (s : Session) (line : Int) : (s.noted line).loops = s.loops := by
  rw [Session.noted]
  split <;> rfl

theorem outcome_null (site : Site) (s : Session) :
    (Operand.value .null).outcome site s = .ok (.null, site.next) s := rfl

theorem outcome_jump (site target : Site) (s : Session) :
    (Operand.jump target).outcome site s = .ok (.null, target) s := rfl

/-- The head is executed: the loop is open, and its variable has the first value. -/
theorem IsOrderly.exists_entered {values : List Value} {s₁ : Session}
    (h : L.IsOrderly kept s₁.loops m₀)
    (hopens : L.Opens (m₀.session.noted L.head.1.line) values s₁) :
    ∃ v rest source m, values = v :: rest ∧ source.Gives v rest ∧ L.RunsIn m₀ [m₀] m ∧
      m.run.site = L.head.1.next ∧
      s₁.Takes L.name v (⟨L.name, source, L.head.1⟩ :: s₁.loops) m.session := by
  have hexists : ∃ v rest source t, values = v :: rest ∧ source.Gives v rest ∧
      L.head.2 = some t ∧
      Budgeted (fun x s ↦ x = .value .null ∧
        s₁.Takes L.name v (⟨L.name, source, L.head.1⟩ :: s₁.loops) s)
        (evaluate L.head.1 t (m₀.session.noted L.head.1.line)) := by
    cases hopens with
    | @range e separators g xs _ htree he hwalks =>
      obtain ⟨ys, rfl⟩ : ∃ ys, xs = g.start :: ys := by
        cases hwalks with
        | last => exact ⟨_, rfl⟩
        | next => exact ⟨_, rfl⟩
      exact ⟨_, _, _, _, rfl, .range (hwalks.withCurrent g.start), htree,
        budgeted_for h.isVariable he separators⟩
    | @sequence e separators w items _ htree he hitems =>
      refine ⟨items.headD .null, items.tail, .rest items.tail, _, ?_, .rest _ _, htree,
        budgeted_foreach h.isVariable he hitems separators⟩
      cases items <;> rfl
  obtain ⟨v, rest, source, t, hvalues, hgives, ht, hevaluate⟩ := hexists
  have htarget := Run.isListed_or_neg m₀.run.site h.laidOut.next
  obtain ⟨m, hruns, hsite, s, console, htakes, hsession⟩ :=
    h.exists_step (.refl L m₀) (List.mem_cons_self ..) ht h.laidOut.next
      (budgeted_execute hevaluate (outcome_null _)) htarget
  refine ⟨v, rest, source, m, hvalues, hgives, hruns, hsite, ?_⟩
  rw [hsession]
  exact ⟨htakes.value, htakes.others, htakes.loops⟩

theorem last_mem_statements (L : LoopText) : L.last ∈ L.statements :=
  List.mem_cons_of_mem _ (List.mem_append_right _ (List.mem_singleton_self _))

/-- `NEXT` is executed before the last value: the loop variable has the next one. -/
theorem IsOrderly.exists_next (h : L.IsOrderly kept outer m₀) (hreaches : L.Reaches m₀ m)
    (hnext : m.run.next? = some L.last) {v w : Value} {ws : List Value} {source : LoopSource}
    (hv : m.session.vars.lookup? L.name = some v)
    (hloops : m.session.loops = ⟨L.name, source, L.head.1⟩ :: outer)
    (hgives : source.Gives v (w :: ws)) :
    ∃ source' m', source'.Gives w ws ∧ L.RunsIn m [m] m' ∧
      m'.run.site = L.head.1.next ∧
      m.session.Takes L.name w (⟨L.name, source', L.head.1⟩ :: outer) m'.session := by
  have hevaluate := budgeted_next L.last.1 h.isVariable
    ((noted_loops m.session L.last.1.line).trans hloops)
    ((congrArg (Variables.lookup? · L.name) (noted_vars m.session L.last.1.line)).trans hv) hgives
  have htarget := Run.isListed_or_neg m₀.run.site (hreaches.at?_eq_some h.laidOut.next)
  obtain ⟨m', hruns, hsite, s, console, hstepped, hsession⟩ :=
    h.exists_step hreaches (last_mem_statements L) h.laidOut.last hnext
      (budgeted_execute hevaluate (outcome_jump _ _)) htarget
  obtain ⟨source', hgives', htakes⟩ := hstepped
  refine ⟨source', m', hgives', hruns, hsite, ?_⟩
  rw [hsession]
  refine ⟨htakes.value, fun other hother ↦ ?_, htakes.loops⟩
  exact noted_vars m.session _ ▸ htakes.others other hother

/-- `NEXT` is executed after the last value: the loop is left. -/
theorem IsOrderly.exists_left (h : L.IsOrderly kept outer m₀) (hreaches : L.Reaches m₀ m)
    (hnext : m.run.next? = some L.last) {v : Value} {source : LoopSource}
    (hv : m.session.vars.lookup? L.name = some v)
    (hloops : m.session.loops = ⟨L.name, source, L.head.1⟩ :: outer) (hgives : source.Gives v []) :
    ∃ m', L.RunsIn m [m] m' ∧ m'.run.site = L.last.1.next ∧
      m'.session.loops = outer ∧
      ∀ other, Text.upper other ≠ Text.upper L.name →
        m'.session.vars.lookup? other = m.session.vars.lookup? other := by
  have hevaluate := budgeted_next_last L.last.1 h.isVariable
    ((noted_loops m.session L.last.1.line).trans hloops)
    ((congrArg (Variables.lookup? · L.name) (noted_vars m.session L.last.1.line)).trans hv) hgives
  have htarget := Run.isListed_or_neg m.run.site hnext
  obtain ⟨m', hruns, hsite, s, console, ⟨houter, hothers⟩, hsession⟩ :=
    h.exists_step hreaches (last_mem_statements L) h.laidOut.last hnext
      (budgeted_execute hevaluate (outcome_null _)) htarget
  refine ⟨m', hruns, hsite, ?_⟩
  rw [hsession]
  exact ⟨houter, fun other hother ↦ noted_vars m.session _ ▸ hothers other hother⟩

/-! ## All passes -/

/-- A pass, up to `NEXT`, from where the loop variable has a value on. -/
theorem IsOrderly.exists_pass (h : L.IsOrderly kept outer m₀) (hreaches : L.Reaches m₀ m)
    (hsite : m.run.site = L.head.1.next) {v : Value} {source : LoopSource}
    (hv : m.session.vars.lookup? L.name = some v)
    (hloops : m.session.loops = ⟨L.name, source, L.head.1⟩ :: outer) :
    ∃ visits m', L.RunsIn m visits m' ∧ L.IsPass kept v (visits ++ [m']) ∧
      m'.run.next? = some L.last ∧ m.session.Spares (L.name :: kept) m'.session := by
  obtain ⟨crossings, m', hruns, hcrossings, hlast, hspares⟩ :=
    h.exists_crossings L.parts (fun _ hpart ↦ hpart) h.laidOut.follows hreaches hsite hv hloops
  refine ⟨crossings.flatten, m', hruns, ⟨crossings, m', rfl, hcrossings, hlast, ?_⟩,
    hlast, hspares⟩
  exact (hspares.vars _ (List.mem_cons_self ..)).trans hv

/-- From the body on, a loop makes a pass for each value that it takes, and is left. -/
theorem IsOrderly.exists_passes (h : L.IsOrderly kept outer m₀) (hreaches : L.Reaches m₀ m)
    (hsite : m.run.site = L.head.1.next) {v : Value} {rest : List Value} {source : LoopSource}
    (hv : m.session.vars.lookup? L.name = some v)
    (hloops : m.session.loops = ⟨L.name, source, L.head.1⟩ :: outer)
    (hgives : source.Gives v rest) :
    ∃ passes m', L.RunsIn m passes.flatten m' ∧
      List.Forall₂ (L.IsPass kept) (v :: rest) passes ∧ m'.run.site = L.last.1.next ∧
      m'.session.loops = outer ∧
      ∀ other ∈ kept, m'.session.vars.lookup? other = m.session.vars.lookup? other := by
  induction rest generalizing m v source with
  | nil =>
    obtain ⟨visits, m₁, hruns₁, hpass, hlast, hspares⟩ := h.exists_pass hreaches hsite hv hloops
    have hreaches₁ := hreaches.trans hruns₁
    obtain ⟨m', hruns', hleft, houter, hothers⟩ := h.exists_left hreaches₁ hlast
      ((hspares.vars _ (List.mem_cons_self ..)).trans hv) (hspares.loops.trans hloops) hgives
    refine ⟨[visits ++ [m₁]], m', ?_, .cons hpass .nil, hleft, houter, fun other hother ↦ ?_⟩
    · rw [List.flatten_singleton]
      exact hruns₁.append hruns'
    · exact (hothers other (h.others other hother)).trans
        (hspares.vars other (List.mem_cons_of_mem _ hother))
  | cons w ws ih =>
    obtain ⟨visits, m₁, hruns₁, hpass, hlast, hspares⟩ := h.exists_pass hreaches hsite hv hloops
    have hreaches₁ := hreaches.trans hruns₁
    obtain ⟨source', m₂, hgives', hruns₂, hsite₂, htakes⟩ := h.exists_next hreaches₁ hlast
      ((hspares.vars _ (List.mem_cons_self ..)).trans hv) (hspares.loops.trans hloops) hgives
    obtain ⟨passes, m', hruns', hpasses, hleft, houter, hothers⟩ :=
      ih (hreaches₁.trans hruns₂) hsite₂ htakes.value htakes.loops hgives'
    refine ⟨(visits ++ [m₁]) :: passes, m', (hruns₁.append hruns₂).append hruns',
      .cons hpass hpasses, hleft, houter, fun other hother ↦ ?_⟩
    exact (hothers other hother).trans ((htakes.others other (h.others other hother)).trans
      (hspares.vars other (List.mem_cons_of_mem _ hother)))

/-- A loop is entered at its head, makes a pass for each of its values, and is left. -/
theorem IsOrderly.exists_run {values : List Value} {s₁ : Session}
    (h : L.IsOrderly kept s₁.loops m₀)
    (hopens : L.Opens (m₀.session.noted L.head.1.line) values s₁) :
    ∃ passes m', L.RunsIn m₀ (m₀ :: passes.flatten) m' ∧
      List.Forall₂ (L.IsPass kept) values passes ∧ m'.run.site = L.last.1.next ∧
      s₁.Spares kept m'.session := by
  obtain ⟨v, rest, source, m, rfl, hgives, hruns, hsite, htakes⟩ := h.exists_entered hopens
  obtain ⟨passes, m', hruns', hpasses, hleft, houter, hothers⟩ :=
    h.exists_passes (.trans (.refl L m₀) hruns) hsite htakes.value htakes.loops hgives
  refine ⟨passes, m', hruns.append hruns', hpasses, hleft, fun other hother ↦ ?_, houter⟩
  exact (hothers other hother).trans (htakes.others other (h.others other hother))

/-- A loop is gone through as a part of the body of another one. -/
theorem RunsIn.crosses {visits : List Machine} (h : L.RunsIn m visits m')
    (hsite : m'.run.site = L.last.1.next) (hspares : m.session.Spares kept m'.session) :
    m.Crosses kept L.statements visits m' :=
  .stretch (List.cons_ne_nil L.head L.body) h.runs h.inside hsite hspares

/-- Where each part of the body is a statement, a pass executes each of them once, and then `NEXT`,
all of them while the loop variable has the value of the pass. -/
theorem IsPass.map_eq {v : Value} {visits : List Machine} (h : L.IsPass kept v visits)
    (hparts : ∀ part ∈ L.parts, ∃ p, part = [p]) :
    visits.map (fun m ↦ (m.run.next?, m.session.vars.lookup? L.name)) =
      (L.body ++ [L.last]).map fun p ↦ (some p, some v) := by
  obtain ⟨crossings, m, rfl, hcrossings, hlast, hv⟩ := h
  have hbody : crossings.flatten.map (fun m ↦ (m.run.next?, m.session.vars.lookup? L.name)) =
      L.body.map fun p ↦ (some p, some v) := by
    rw [body]
    generalize L.parts = parts at hcrossings hparts
    induction hcrossings with
    | nil => rfl
    | @cons part crossing parts crossings hcrosses _ ih =>
      rw [List.forall_mem_cons] at hparts
      obtain ⟨⟨p, rfl⟩, hparts⟩ := hparts
      obtain ⟨m₁, m₂, hv₁, hcrosses⟩ := hcrosses
      obtain ⟨rfl, hat⟩ := hcrosses.of_singleton
      rw [List.flatten_cons, List.flatten_cons, List.map_append, List.map_append, ih hparts,
        List.map_singleton, List.map_singleton, hat, hv₁]
  rw [List.map_append, List.map_append, hbody, List.map_singleton, List.map_singleton, hlast, hv]

theorem length_passes {values : List Value} {passes : List (List Machine)}
    (h : List.Forall₂ (L.IsPass kept) values passes) (hparts : ∀ part ∈ L.parts, ∃ p, part = [p]) :
    passes.flatten.length = values.length * (L.body.length + 1) := by
  induction h with
  | nil => rw [List.flatten_nil, List.length_nil, List.length_nil, Nat.zero_mul]
  | @cons v pass values passes hpass _ ih =>
    have hlength := congrArg List.length (hpass.map_eq hparts)
    rw [List.length_map, List.length_map, List.length_append, List.length_singleton] at hlength
    rw [List.flatten_cons, List.length_append, hlength, ih, List.length_cons, Nat.succ_mul,
      Nat.add_comm]

end LoopText

/-! ## The result -/

/-- What a loop in a text does.  A range `lo TO hi STEP step` starts at what `lo` comes to, and its
step is not zero.  The numbers that a loop over a range takes are those of the range as a list, if
the range starts in itself.

A loop that is entered, and that goes through the parts of its body wherever it comes to them, makes
a pass through the body for each of its values in their order, and then goes on after its `NEXT`.
Where the parts are statements, a pass executes each of them once, all with the same value of the
loop variable.  The open loops are then those that there were when the head had evaluated what the
loop runs over.  Where that opened no loop, the whole loop can be a part of the body of another
one. -/
theorem runs_passes_of_isOrderly :
    (∀ (site : Site) (lo hi step : Tree) (s : Session) (v : Value) (s' : Session),
      Comes site (.binary .step (.binary .«to» lo hi) step) s v s' ↔
        ∃ x y z, Bounds (callWithin site s.room) site lo hi step s x y z s' ∧ (z == 0) = false ∧
          v = .generator (.fresh x y z)) ∧
    (∀ (g : Generator) (xs : List Float), g.Walks g.start xs → g.includes g.start = true →
      g.numbers = xs) ∧
    ∀ (L : LoopText) (kept : List String) (m₀ : Machine) (values : List Value) (s₁ : Session),
      L.Opens (m₀.session.noted L.head.1.line) values s₁ → L.IsOrderly kept s₁.loops m₀ →
      ∃ passes m', m₀.Runs (m₀ :: passes.flatten) m' ∧
        List.Forall₂ (L.IsPass kept) values passes ∧
        ((∀ part ∈ L.parts, ∃ p, part = [p]) →
          List.Forall₂ (fun v pass ↦
            pass.map (fun m ↦ (m.run.next?, m.session.vars.lookup? L.name)) =
              (L.body ++ [L.last]).map fun p ↦ (some p, some v)) values passes) ∧
        m'.run.site = L.last.1.next ∧ s₁.Spares kept m'.session ∧
        (m₀.session.Spares kept s₁ → m₀.Crosses kept L.statements (m₀ :: passes.flatten) m') := by
  refine ⟨fun _ _ _ _ _ _ _ ↦ comes_range_iff, fun g xs h hstart ↦
    Generator.numbers_eq_of_walks h hstart, fun L kept m₀ values s₁ hopens h ↦ ?_⟩
  obtain ⟨passes, m', hruns, hpasses, hleft, hspares⟩ := h.exists_run hopens
  refine ⟨passes, m', hruns.runs, hpasses, fun hparts ↦ ?_, hleft, hspares, fun hbefore ↦ ?_⟩
  · exact hpasses.imp fun _ _ hpass ↦ hpass.map_eq hparts
  · exact hruns.crosses hleft (hbefore.trans hspares)

/-! ## A loop whose head opens another one -/

namespace Machine

variable {m m₁ m₂ m' : Machine}

theorem Steps.eq (h : m.Steps m₁) (h' : m.Steps m₂) : m₁ = m₂ := by
  obtain ⟨hrun, hsession⟩ := EStateM.Result.ok.inj (h.symm.trans h')
  cases m₁
  cases m₂
  cases hrun
  cases hsession
  rfl

theorem Runs.eq_of_length {visits visits' : List Machine} (h : m.Runs visits m₁)
    (h' : m.Runs visits' m₂) (hlength : visits.length = visits'.length) : m₁ = m₂ := by
  induction h generalizing visits' with
  | done m =>
    cases h' with
    | done => rfl
    | step => cases hlength
  | step h _ ih =>
    cases h' with
    | done => cases hlength
    | step h' hrest' =>
      cases h.eq h'
      exact ih hrest' (Nat.succ.inj hlength)

/-- Whether a run ends by itself within a number of steps. -/
def settles : Nat → Machine → Bool
  | 0, _ => false
  | steps + 1, m => match m.run.step m.session with
    | .ok (.going r) s => settles steps ⟨r, s⟩
    | .ok (.ended _) _ => m.run.next?.isNone
    | .error _ _ => false

theorem settles_cases {steps : Nat} (h : m.settles steps = true) :
    (∃ m', m.Steps m' ∧ ∃ steps', m'.settles steps' = true) ∨
      m.run.next? = none ∧ ∃ v s, m.run.step m.session = .ok (.ended v) s := by
  cases steps with
  | zero => cases h
  | succ steps =>
    rw [Machine.settles] at h
    cases hstep : m.run.step m.session with
    | error stop s => rw [hstep] at h; cases h
    | ok progress s =>
      rw [hstep] at h
      cases progress with
      | going r => exact .inl ⟨⟨r, s⟩, hstep, steps, h⟩
      | ended v => exact .inr ⟨Option.isNone_iff_eq_none.1 h, v, s, rfl⟩

theorem Runs.settles {visits : List Machine} (h : m.Runs visits m') {steps : Nat}
    (hsettles : m.settles steps = true) : ∃ steps', m'.settles steps' = true := by
  induction h generalizing steps with
  | done m => exact ⟨steps, hsettles⟩
  | step h _ ih =>
    obtain ⟨m₂, h₂, steps', hsettles'⟩ | ⟨-, v, s, hended⟩ := settles_cases hsettles
    · cases h.eq h₂
      exact ih hsettles'
    · cases hended.symm.trans h

end Machine

/-- At the prompt, `FOREACH X IN {FOR J = 1 TO 2, TRUE}: X: NEXT`. -/
def nestedHead : LoopText where
  name := "X"
  head := (⟨typedLine, 0⟩, some (.call "FOREACH" [.binary .member (.ident "X") (.array
    [.call "FOR" [.binary .assign (.ident "J") (.binary .«to» (.number 1) (.number 2))] [],
      .boolean true])] []))
  parts := [[(⟨typedLine, 1⟩, some (.ident "X"))]]
  last := (⟨typedLine, 2⟩, some (.call "NEXT" [] []))

/-- A machine that is about to execute the loop. -/
def nestedMachine : Machine where
  run := { typed := nestedHead.statements.map Prod.snd, site := ⟨typedLine, 0⟩ }
  session := .start {} {} .unavailable 0

theorem settles_nestedMachine : nestedMachine.settles 10 = true := by decide +kernel

/-- The place of the array that an operand is. -/
def Operand.place? : Operand → Option Nat
  | .value (.array place) => some place
  | _ => none

theorem Operand.eq_of_place? {x : Operand} {place : Nat} (h : x.place? = some place) :
    x = .value (.array place) := by
  unfold place? at h
  split at h
  · cases h
    rfl
  · cases h

theorem opens_nestedHead : ∃ values s₁,
    nestedHead.Opens (nestedMachine.session.noted typedLine) values s₁ ∧ values.length = 2 ∧
      s₁.loops.length = 1 := by
  have hends : Ends (fun s ↦ (s.heap.elements 1).toList.length = 2 ∧ s.loops.length = 1)
      (·.place? = some 1) (fun _ ↦ False) (evaluate ⟨typedLine, 0⟩ (.array
        [.call "FOR" [.binary .assign (.ident "J") (.binary .«to» (.number 1) (.number 2))] [],
          .boolean true]) (nestedMachine.session.noted typedLine)) := by decide +kernel
  obtain ⟨x, s, heval, hplace, hvalues, hloops⟩ := hends.exists_ok
  obtain rfl := Operand.eq_of_place? hplace
  refine ⟨_, s, .sequence rfl ⟨_, heval, rfl⟩ rfl, ?_, hloops⟩
  rw [if_neg (by rw [List.isEmpty_iff_length_eq_zero, hvalues]; decide), hvalues]

/-- A statement that only reads a variable goes on to the next one. -/
theorem execute_ident {site : Site} {name : String} {s s' : Session} {r : Value × Site}
    (h : execute site (.ident name) s = .ok r s') : r.2 = site.next ∧ s' = s := by
  have heval : evaluate site (.ident name) s = .ok (.reference name) s := by
    rw [evaluate_eq, eval]
    rfl
  have hbind : (evaluate site (.ident name) >>= fun x ↦ x.outcome site) s =
      (Operand.reference name).outcome site s := bind_run_of_ok heval
  rw [execute, Action.settled, hbind] at h
  cases houtcome : (Operand.reference name).outcome site s with
  | error stop s₁ =>
    rw [houtcome] at h
    cases h
  | ok a s₁ =>
    rw [houtcome] at h
    cases h
    obtain ⟨v, s₂, hv, hend⟩ := bind_run_eq_ok.1 houtcome
    cases hend
    exact ⟨rfl, Operand.eq_of_resolve hv⟩

theorem Machine.exists_crosses_ident {m : Machine} {site : Site} {name : String}
    (hnext : m.run.next? = some (site, some (.ident name))) (hsite : site.line < 0) {steps : Nat}
    (hsettles : m.settles steps = true) (kept : List String) :
    ∃ m', m.Crosses kept [(site, some (.ident name))] [m] m' := by
  obtain ⟨m₁, hsteps₁, -⟩ | ⟨hnone, -⟩ := settles_cases hsettles
  · cases hexecute : execute site (.ident name) (m.session.noted site.line) with
    | error stop s => cases (step_of_execute_error hnext hexecute).symm.trans hsteps₁
    | ok r s =>
      obtain ⟨hr, rfl⟩ := execute_ident hexecute
      obtain ⟨m', hsteps, hsite', console, hsession⟩ := steps_of_execute hnext hexecute
        (.inr (hr ▸ hsite)) fun v s' hended ↦ by cases hended.symm.trans hsteps₁
      refine ⟨m', .statement hnext hsteps (hsite'.trans hr) ⟨fun other _ ↦ ?_, ?_⟩⟩
      · rw [hsession, ← LoopText.noted_vars m.session site.line]
      · rw [hsession, ← LoopText.noted_loops m.session site.line]
  · cases hnext.symm.trans hnone

theorem isOrderly_nestedHead (outer : List Loop) :
    nestedHead.IsOrderly [] outer nestedMachine where
  laidOut :=
    { next := rfl
      follows := .cons_cons rfl (.cons_cons rfl (.singleton _))
      last := rfl
      parts := by
        rintro _ hpart
        cases List.mem_singleton.1 hpart
        exact List.cons_ne_nil _ _ }
  isVariable := ⟨by decide, by decide⟩
  others _ hother := absurd hother (List.not_mem_nil)
  crosses part hpart m hreaches hnext _ := by
    cases List.mem_singleton.1 hpart
    obtain ⟨visits, hruns⟩ := hreaches
    obtain ⟨steps, hsettles⟩ := hruns.runs.settles settles_nestedMachine
    exact ⟨[m], Machine.exists_crosses_ident hnext (by decide) hsettles _⟩
  budget m hreaches stop s hstep := by
    obtain ⟨visits, hruns⟩ := hreaches
    obtain ⟨steps, hsettles⟩ := hruns.runs.settles settles_nestedMachine
    obtain ⟨m', hsteps, -⟩ | ⟨-, v, s', hended⟩ := Machine.settles_cases hsettles
    · cases hsteps.symm.trans hstep
    · cases hended.symm.trans hstep
  going m hreaches hnext v s hstep := by
    obtain ⟨visits, hruns⟩ := hreaches
    obtain ⟨steps, hsettles⟩ := hruns.runs.settles settles_nestedMachine
    obtain ⟨m', hsteps, -⟩ | ⟨hnone, -⟩ := Machine.settles_cases hsettles
    · cases hsteps.symm.trans hstep
    · exact hnext hnone

/-- The loop makes two passes, after each of which it is left one loop more than before the head. -/
theorem runs_passes_of_nestedHead : ∃ values passes m', values.length = 2 ∧
    nestedMachine.Runs (nestedMachine :: passes.flatten) m' ∧
    List.Forall₂ (nestedHead.IsPass []) values passes ∧ m'.run.site = ⟨typedLine, 3⟩ ∧
    m'.session.loops.length = 1 := by
  obtain ⟨values, s₁, hopens, hvalues, hloops⟩ := opens_nestedHead
  obtain ⟨passes, m', hruns, hpasses, -, hsite, hspares, -⟩ :=
    runs_passes_of_isOrderly.2.2 nestedHead [] nestedMachine values s₁ hopens
      (isOrderly_nestedHead s₁.loops)
  exact ⟨values, passes, m', hvalues, hruns, hpasses, hsite, hspares.loops ▸ hloops⟩

/-- The open loops after a loop need not be those before its head. -/
theorem not_forall_loops_eq : ¬ ∀ (L : LoopText) (m₀ : Machine) (values : List Value)
    (s₁ : Session), L.Opens (m₀.session.noted L.head.1.line) values s₁ →
    L.IsOrderly [] s₁.loops m₀ → ∃ passes m', m₀.Runs (m₀ :: passes.flatten) m' ∧
      List.Forall₂ (L.IsPass []) values passes ∧ m'.run.site = L.last.1.next ∧
      m'.session.loops = m₀.session.loops := by
  intro h
  obtain ⟨values, s₁, hopens, -, hloops⟩ := opens_nestedHead
  have horderly := isOrderly_nestedHead s₁.loops
  obtain ⟨passes, m₁, hruns, hpasses, -, hspares⟩ := horderly.exists_run hopens
  obtain ⟨passes', m₂, hruns', hpasses', -, hsame⟩ := h _ _ _ _ hopens horderly
  have hparts : ∀ part ∈ nestedHead.parts, ∃ p, part = [p] := by
    rintro _ hpart
    exact ⟨_, List.mem_singleton.1 hpart⟩
  have hlength : passes.flatten.length = passes'.flatten.length :=
    (LoopText.length_passes hpasses hparts).trans (LoopText.length_passes hpasses' hparts).symm
  have hm : m₁ = m₂ := hruns.runs.eq_of_length hruns' (congrArg Nat.succ hlength)
  rw [← hspares.loops, hm, hsame] at hloops
  cases hloops

end LineBasic
