import LineBasic.Run
import LineBasic.Proofs.Results

/-!
# Runs step by step

A run with its session is a machine; a step makes another machine of it, or ends it.  Steps never
lose a statement of the text that is executed: a typed line stays what it is, and a listing that is
there is kept.

* `Machine.Steps`, `Machine.Runs` — one step, and several with the machines on the way.
* `Machine.Runs.finish_eq` — several steps of a run that is completed.
* `Run.at?`, `Machine.Steps.at?_eq_some` — the text.
* `Machine.steps_of_execute` — the step that executes a statement.
-/

set_option autoImplicit false
namespace LineBasic

/-- A statement with the site that it stands at; a remark has no tree. -/
abbrev Placed : Type := Site × Option Tree

/-- What a run goes on with at a site. -/
def Run.at? (r : Run) (site : Site) : Option Placed :=
  { r with site }.next?

/-- The session when a statement of a line is executed in it. -/
def Session.noted (s : Session) (line : Int) : Session :=
  if s.isTracing && line != typedLine then { s with traced := line :: s.traced } else s

/-! ## Single statements -/

section
variable {site : Site} {t : Tree} {s s' : Session}

theorem execute_eq_ok {p : Value × Site} : execute site t s = .ok p s' ↔
    ∃ x s₁, evaluate site t s = .ok x s₁ ∧ x.outcome site s₁ = .ok p s' := by
  rw [← bind_run_eq_ok, execute, Action.settled]
  cases (evaluate site t >>= fun x ↦ x.outcome site) s with
  | ok q s₁ => rfl
  | error e s₁ => exact ⟨nofun, nofun⟩

theorem execute_of_jump {target : Site} (h : evaluate site t s = .ok (.jump target) s') :
    execute site t s = .ok (.null, target) s' := by
  rw [execute, Action.settled, bind_run_of_ok h]
  rfl

theorem execute_of_error {e : Stop} (h : evaluate site t s = .error e s') :
    execute site t s = .error (e.settle site) s' := by
  have hbody : (evaluate site t >>= fun x ↦ x.outcome site) s = .error e s' :=
    bind_run_eq_error.2 (.inl h)
  rw [execute, Action.settled, hbody]

end

/-- A run with the session that it works on. -/
structure Machine where
  run : Run
  session : Session

namespace Machine

variable {m m₁ m' : Machine}

/-- A machine executes its next statement and goes on as another one. -/
def Steps (m m' : Machine) : Prop :=
  m.run.step m.session = .ok (.going m'.run) m'.session

/-- What a machine goes on as after a step, if it does. -/
def step? (m : Machine) : Option Machine :=
  match m.run.step m.session with
  | .ok (.going r) s => some ⟨r, s⟩
  | _ => none

theorem steps_of_step? (h : m.step? = some m') : m.Steps m' := by
  unfold step? at h
  split at h
  · cases h
    assumption
  · cases h

/-- Several steps, with the machines that make them. -/
inductive Runs : Machine → List Machine → Machine → Prop
  | done (m : Machine) : Runs m [] m
  | step {m m₁ m' : Machine} {visits : List Machine} (h : m.Steps m₁) (hrest : Runs m₁ visits m') :
      Runs m (m :: visits) m'

theorem Steps.runs (h : m.Steps m') : Runs m [m] m' :=
  .step h (.done m')

theorem Runs.append {visits visits' : List Machine} (h : Runs m visits m₁)
    (h' : Runs m₁ visits' m') : Runs m (visits ++ visits') m' := by
  induction h with
  | done => exact h'
  | step h _ ih => exact .step h (ih h')

/-- A run that is completed goes through each of its steps. -/
theorem Runs.finish_eq {visits : List Machine} (h : Runs m visits m') (fuel : Nat) :
    m.run.finish (visits.length + fuel) m.session = m'.run.finish fuel m'.session := by
  induction h with
  | done m => rw [List.length_nil, Nat.zero_add]
  | @step m m₁ m' visits h _ ih =>
    rw [List.length_cons, Nat.add_right_comm, Run.finish, ← ih]
    change EStateM.bind _ _ _ = _
    unfold EStateM.bind
    rw [h]

/-! ## Single steps -/

variable {p : Placed} {r : Run} {s : Session}

/-- After its statement, a step polls the console if it is time to, and goes on unless it is asked to
stop. -/
theorem step_eq_of_after (hnext : m.run.next? = some p)
    (hafter : m.run.after p.1 p.2 (m.session.noted p.1.line) = .ok r s) :
    m.run.step m.session =
      if s.settings.interval.divides r.executed then
        if s.console.poll.1 then
          .ok (.ended r.value)
            { s with console := s.console.poll.2.print (Run.breakText p.1.line) }
        else .ok (.going r) { s with console := s.console.poll.2 }
      else .ok (.going r) s := by
  rw [Run.step, hnext]
  change EStateM.bind (m.run.after p.1 p.2) _ (m.session.noted p.1.line) = _
  rw [EStateM.bind, hafter]
  change (if s.settings.interval.divides r.executed = true then _ else _ : Action Progress) s = _
  split
  · change (if s.console.poll.1 = true then _ else _ : Action Progress) _ = _
    split <;> rfl
  · rfl

/-- After its statement, a step goes on unless the console asks to stop. -/
theorem step_of_after (hnext : m.run.next? = some p)
    (hafter : m.run.after p.1 p.2 (m.session.noted p.1.line) = .ok r s) :
    (∃ console, m.run.step m.session = .ok (.going r) { s with console }) ∨
      ∃ s', m.run.step m.session = .ok (.ended r.value) s' := by
  rw [step_eq_of_after hnext hafter]
  split
  · split
    · exact .inr ⟨_, rfl⟩
    · exact .inl ⟨_, rfl⟩
  · exact .inl ⟨s.console, rfl⟩

theorem exists_going_of_after (hnext : m.run.next? = some p)
    (hafter : m.run.after p.1 p.2 (m.session.noted p.1.line) = .ok r s)
    (hpoll : s.settings.interval.divides r.executed = true → s.console.poll.1 = false) :
    ∃ console, m.run.step m.session = .ok (.going r) { s with console } := by
  rw [step_eq_of_after hnext hafter]
  split
  · rename_i hdivides
    rw [hpoll hdivides]
    exact ⟨_, rfl⟩
  · exact ⟨s.console, rfl⟩

theorem step_of_after_error (hnext : m.run.next? = some p) {stop : Stop}
    (hafter : m.run.after p.1 p.2 (m.session.noted p.1.line) = .error stop s) :
    m.run.step m.session = .error stop s := by
  rw [Run.step, hnext]
  change EStateM.bind (m.run.after p.1 p.2) _ (m.session.noted p.1.line) = _
  rw [EStateM.bind, hafter]

/-- A step leads past the next statement; after that, at most the console is polled. -/
theorem Steps.exists_console (h : m.Steps m') : ∃ p s console, m.run.next? = some p ∧
    m.run.after p.1 p.2 (m.session.noted p.1.line) = .ok m'.run s ∧
    m'.session = { s with console } := by
  cases hnext : m.run.next? with
  | none =>
    rw [Steps, Run.step, hnext] at h
    cases h
  | some p =>
    refine ⟨p, ?_⟩
    cases hafter : m.run.after p.1 p.2 (m.session.noted p.1.line) with
    | error stop s => cases (step_of_after_error hnext hafter).symm.trans h
    | ok r s =>
      obtain ⟨console, hgoing⟩ | ⟨s', hended⟩ := step_of_after hnext hafter
      · obtain ⟨hr, hs⟩ := EStateM.Result.ok.inj (hgoing.symm.trans h)
        exact ⟨s, console, rfl, Progress.going.inj hr ▸ rfl, hs.symm⟩
      · cases hended.symm.trans h

theorem Steps.exists_after (h : m.Steps m') : ∃ p s, m.run.next? = some p ∧
    m.run.after p.1 p.2 (m.session.noted p.1.line) = .ok m'.run s :=
  let ⟨p, s, _, hnext, hafter, _⟩ := h.exists_console
  ⟨p, s, hnext, hafter⟩

end Machine

/-! ## Texts -/

namespace Run

variable {r r' : Run} {site target : Site} {p : Placed} {s s' : Session}

/-- A statement is on the typed line, or in a listing. -/
theorem isListed_or_isTyped (h : r.at? site = some p) :
    r.listing.isSome = true ∨ site.line = typedLine ∧ p.1 = site := by
  simp only [at?, next?] at h
  split at h
  · obtain ⟨t, -, rfl⟩ := Option.map_eq_some_iff.1 h
    exact .inr ⟨‹_›, rfl⟩
  · split at h
    · cases h
    · left
      cases hlisting : r.listing with
      | some lines => rfl
      | none => rw [hlisting] at h; cases h

theorem at?_of_text (htyped : r'.typed = r.typed)
    (hlisting : r.listing.isSome = true → r'.listing = r.listing) (h : r.at? site = some p) :
    r'.at? site = some p := by
  rw [← h]
  simp only [at?, next?]
  obtain hlisted | ⟨hsite, -⟩ := isListed_or_isTyped h
  · rw [htyped, hlisting hlisted]
  · rw [if_pos hsite, if_pos hsite, htyped]

theorem isListed_or_neg (site : Site) (h : r.at? site = some p) :
    r.listing.isSome = true ∨ p.1.line < 0 := by
  refine (isListed_or_isTyped h).imp_right fun ⟨htyped, heq⟩ ↦ ?_
  rw [heq, htyped]
  decide

/-- No listing is made for going on in the one that is there, or on the typed line. -/
theorem listingFor_eq (h : r.listing.isSome = true ∨ target.line < 0) :
    r.listingFor target s = .ok r.listing s := by
  unfold listingFor
  cases hlisting : r.listing with
  | some lines => rfl
  | none =>
    rw [hlisting] at h
    obtain hsome | hneg := h
    · cases hsome
    · change (if _ then _ else _ : Action (Option Listing)) s = _
      rw [if_neg fun h ↦ absurd h.1 (Int.not_le.2 hneg)]
      rfl

/-- Where a run goes on in a program: after a remark, or where its statement leads. -/
theorem after_eq_ok {statement : Option Tree} (hlisted : r.listing.isSome = true)
    (h : r.after site statement s = .ok r' s') : r'.typed = r.typed ∧ r'.listing = r.listing ∧
      (statement = none ∧ r'.site = site.next ∧ s' = s ∨
        ∃ t v, statement = some t ∧ execute site t s = .ok (v, r'.site) s') := by
  cases statement with
  | none =>
    cases h
    exact ⟨rfl, rfl, .inl ⟨rfl, rfl, rfl⟩⟩
  | some t =>
    obtain ⟨⟨v, next⟩, s₁, hexecute, h⟩ := bind_run_eq_ok.1 h
    obtain ⟨listing, s₂, hlisting, h⟩ := bind_run_eq_ok.1 h
    cases (listingFor_eq (.inl hlisted)).symm.trans hlisting
    cases h
    exact ⟨rfl, rfl, .inr ⟨t, v, rfl, hexecute⟩⟩

/-- A run goes on in a text that has the statements it had before. -/
theorem at?_of_after {statement : Option Tree}
    (hafter : r.after site statement s = .ok r' s') (h : r.at? target = some p) :
    r'.at? target = some p := by
  cases statement with
  | none =>
    cases hafter
    exact h
  | some t =>
    obtain ⟨⟨v, next⟩, s₁, -, hafter⟩ := bind_run_eq_ok.1 hafter
    obtain ⟨listing, s₂, hlisting, hafter⟩ := bind_run_eq_ok.1 hafter
    cases hafter
    refine at?_of_text (r := r) rfl (fun hlisted ↦ ?_) h
    cases (listingFor_eq (.inl hlisted)).symm.trans hlisting
    rfl

end Run

namespace Machine

variable {m m' : Machine} {site target : Site} {t : Tree} {p : Placed} {s : Session}

theorem Steps.at?_eq_some (h : m.Steps m') (hat : m.run.at? site = some p) :
    m'.run.at? site = some p := by
  obtain ⟨_, _, -, hafter⟩ := h.exists_after
  exact Run.at?_of_after hafter hat

theorem Runs.at?_eq_some {visits : List Machine} (h : Runs m visits m')
    (hat : m.run.at? site = some p) : m'.run.at? site = some p := by
  induction h with
  | done => exact hat
  | step h _ ih => exact ih (h.at?_eq_some hat)

/-! ## Statements -/

/-- A machine goes on with what the next statement gives, unless the console asks to stop. -/
theorem steps_of_execute (hnext : m.run.next? = some (site, some t)) {v : Value}
    (hexecute : execute site t (m.session.noted site.line) = .ok (v, target) s)
    (htarget : m.run.listing.isSome = true ∨ target.line < 0)
    (hgoing : ∀ v s, m.run.step m.session ≠ .ok (.ended v) s) :
    ∃ m', m.Steps m' ∧ m'.run.site = target ∧ ∃ console, m'.session = { s with console } := by
  have hafter : m.run.after site (some t) (m.session.noted site.line) = .ok { m.run with
      site := target
      executed := m.run.executed + 1
      value := if site.line = typedLine then v else m.run.value } s :=
    bind_run_eq_ok.2 ⟨(v, target), s, hexecute,
      bind_run_eq_ok.2 ⟨m.run.listing, s, Run.listingFor_eq htarget, rfl⟩⟩
  obtain ⟨console, hstep⟩ | ⟨s', hended⟩ := step_of_after hnext hafter
  · exact ⟨⟨_, _⟩, hstep, rfl, console, rfl⟩
  · exact absurd hended (hgoing _ _)

/-- In a program, a machine goes on where its statement leads. -/
theorem Steps.exists_execute (h : m.Steps m') (hlisted : m.run.listing.isSome = true)
    (hnext : m.run.next? = some (site, some t)) : ∃ v s console,
      execute site t (m.session.noted site.line) = .ok (v, m'.run.site) s ∧
      m'.session = { s with console } := by
  obtain ⟨p, s, console, hsome, hafter, hsession⟩ := h.exists_console
  obtain rfl := Option.some.inj (hnext.symm.trans hsome)
  obtain ⟨-, -, ⟨hnone, -⟩ | ⟨_, v, ht, hexecute⟩⟩ := Run.after_eq_ok hlisted hafter
  · cases hnone
  · cases ht
    exact ⟨v, s, console, hexecute, hsession⟩

theorem step_of_execute_error (hnext : m.run.next? = some (site, some t)) {stop : Stop}
    (hexecute : execute site t (m.session.noted site.line) = .error stop s) :
    m.run.step m.session = .error stop s := by
  refine step_of_after_error hnext ?_
  change EStateM.bind (execute site t) _ _ = _
  rw [EStateM.bind, hexecute]

end Machine
end LineBasic
