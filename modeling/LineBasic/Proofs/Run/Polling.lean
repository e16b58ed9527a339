import LineBasic.Proofs.Run.Places
import LineBasic.Proofs.Run.Straight
import LineBasic.Proofs.Tree.Rejection

/-!
# Runs and the polls of the console

A run polls the console after every so many statements, and at no other time.  It goes on as long as
the console does not ask to stop.  So if one of the polls to come is answered with a stop, every run
comes to an end, also that of a program with an endless loop, and the number of its statements is
known beforehand.

* `Console.polled`, `Console.answer` — the console after polls, and what it answers.
* `Console.SameBreaks` — printing and reading make no difference to the answers.
* `Machine.IsPolled` — what the steps of a run keep, with `Machine.IsPolled.step_eq` for one step
  and `Machine.IsPolled.runs` for many.
* `runProgram_isPolled` — the result.
-/

set_option autoImplicit false
namespace LineBasic

/-! ## Polls -/

namespace Console

variable {c c' : Console}

/-- The console after a number of polls. -/
def polled (c : Console) : Nat → Console
  | 0 => c
  | n + 1 => (c.polled n).poll.2

/-- Whether the console asks to stop at a poll, the first one being number zero. -/
def answer (c : Console) (n : Nat) : Bool :=
  (c.polled n).poll.1

theorem polls_polled (c : Console) (n : Nat) : (c.polled n).polls = c.polls + n := by
  induction n with
  | zero => rfl
  | succ n ih => exact congrArg (· + 1) ih

theorem breakEvery_polled (c : Console) (n : Nat) : (c.polled n).breakEvery = c.breakEvery := by
  induction n with
  | zero => rfl
  | succ n ih => exact ih

/-- A console asks to stop at every poll of a certain number, or at the first one if it was asked
to. -/
theorem answer_eq_true_iff {n : Nat} : c.answer n = true ↔
    (∃ k, c.breakEvery = some k ∧ (c.polls + n + 1) % k = 0) ∨ n = 0 ∧ c.stopRequested = true := by
  have hrequested : (c.polled n).stopRequested = true ↔ n = 0 ∧ c.stopRequested = true := by
    cases n with
    | zero => exact ⟨fun h ↦ ⟨rfl, h⟩, fun h ↦ h.2⟩
    | succ n => exact ⟨nofun, nofun⟩
  rw [answer, poll, polls_polled, breakEvery_polled, Bool.or_eq_true, hrequested]
  cases c.breakEvery with
  | none => simp
  | some k => simp

/-- If a console ever asks to stop, it does so within as many polls as it breaks off runs after. -/
theorem exists_answer {n : Nat} (h : c.answer n = true) :
    ∃ i < max (c.breakEvery.getD 1) 1, c.answer i = true := by
  obtain ⟨k, hk, hmod⟩ | ⟨rfl, -⟩ := answer_eq_true_iff.1 h
  · have hpos : 0 < k := by
      refine Nat.pos_of_ne_zero fun hzero ↦ ?_
      rw [hzero, Nat.mod_zero] at hmod
      exact Nat.succ_ne_zero _ hmod
    refine ⟨n % k, ?_, answer_eq_true_iff.2 (.inl ⟨k, hk, ?_⟩)⟩
    · rw [hk]
      exact Nat.lt_of_lt_of_le (Nat.mod_lt n hpos) (Nat.le_max_left k 1)
    · rw [← hmod, Nat.add_right_comm, Nat.add_right_comm c.polls n, Nat.add_mod_mod]
  · exact ⟨0, Nat.lt_of_lt_of_le Nat.one_pos (Nat.le_max_right _ 1), h⟩

/-- Two consoles that ask to stop at the same polls, however much was printed and read. -/
structure SameBreaks (c c' : Console) : Prop where
  stopRequested : c'.stopRequested = c.stopRequested
  polls : c'.polls = c.polls
  breakEvery : c'.breakEvery = c.breakEvery

namespace SameBreaks

theorem refl (c : Console) : c.SameBreaks c :=
  ⟨rfl, rfl, rfl⟩

theorem trans {c'' : Console} (h : c.SameBreaks c') (h' : c'.SameBreaks c'') : c.SameBreaks c'' :=
  ⟨h'.stopRequested.trans h.stopRequested, h'.polls.trans h.polls,
    h'.breakEvery.trans h.breakEvery⟩

theorem poll_fst (h : c.SameBreaks c') : c'.poll.1 = c.poll.1 := by
  rw [poll, poll, h.stopRequested, h.polls, h.breakEvery]

theorem poll_snd (h : c.SameBreaks c') : c.poll.2.SameBreaks c'.poll.2 :=
  ⟨rfl, congrArg (· + 1) h.polls, h.breakEvery⟩

end SameBreaks
end Console

/-! ## Statements do not poll -/

namespace Session

variable {s s' : Session}

theorem Change.sameBreaks (h : s.Change s') : s.console.SameBreaks s'.console := by
  cases h with
  | assigned h =>
    obtain ⟨vars, -, rfl⟩ := eq_of_assign h
    exact .refl _
  | printed text => exact ⟨rfl, rfl, rfl⟩
  | lineRead h =>
    unfold Console.readLine? at h
    split at h
    · cases h
    · cases h
      exact ⟨rfl, rfl, rfl⟩
  | _ => exact .refl _

theorem Evolves.sameBreaks (h : s.Evolves s') : s.console.SameBreaks s'.console := by
  induction h with
  | refl => exact .refl _
  | tail _ hchange ih => exact ih.trans hchange.sameBreaks

/-- A session that has the settings of another one and will be polled in the same way. -/
structure SamePolls (s s' : Session) : Prop where
  settings : s'.settings = s.settings
  console : s.console.SameBreaks s'.console

theorem SamePolls.refl (s : Session) : s.SamePolls s :=
  ⟨rfl, .refl _⟩

theorem SamePolls.trans {s'' : Session} (h : s.SamePolls s') (h' : s'.SamePolls s'') :
    s.SamePolls s'' :=
  ⟨h'.settings.trans h.settings, h.console.trans h'.console⟩

theorem Evolves.samePolls (h : s.Evolves s') : s.SamePolls s' :=
  ⟨h.settings, h.sameBreaks⟩

theorem samePolls_noted (s : Session) (line : Int) : s.SamePolls (s.noted line) := by
  unfold noted
  split
  · exact ⟨rfl, .refl _⟩
  · exact .refl _

end Session

theorem keeps_execute_samePolls (s : Session) (site : Site) (t : Tree) :
    Keeps s.SamePolls (fun _ ↦ True) (execute site t) := by
  refine ⟨fun s₁ hs₁ ↦ ?_⟩
  obtain ⟨p, s₂, heq, h⟩ | ⟨stop, s₂, heq, h, -⟩ := closes_execute site t s₁
  · exact heq ▸ .ok trivial (hs₁.trans h.samePolls)
  · exact heq ▸ .error trivial (hs₁.trans h.samePolls)

/-- Neither reading the program nor collecting labels and data polls the console. -/
theorem samePolls_of_startProgram {s s₀ : Session} {r : Run} (h : startProgram s = .ok r s₀) :
    s.SamePolls s₀ := by
  obtain ⟨lines, -, hcollect, -⟩ := startProgram_eq_ok h
  have hkeeps : Keeps s.SamePolls (fun _ ↦ True) (collect lines) :=
    keeps_collect (fun _ h ↦ ⟨h.settings, h.console⟩) (fun h ↦ ⟨h.settings, h.console⟩)
      fun e _ ↦ keeps_execute_samePolls s e.1 e.2
  exact (hcollect ▸ hkeeps.run s.reset ⟨rfl, .refl _⟩).of_ok.2

/-- After a statement, one more is counted, and the console was not polled. -/
theorem Run.samePolls_of_after {r r' : Run} {site : Site} {statement : Option Tree}
    {s s' : Session} (hlisted : r.listing.isSome = true)
    (h : r.after site statement s = .ok r' s') :
    r'.executed = r.executed + 1 ∧ s.SamePolls s' := by
  cases statement with
  | none =>
    cases h
    exact ⟨rfl, .refl _⟩
  | some t =>
    obtain ⟨p, s₁, hexecute, h⟩ := bind_run_eq_ok.1 h
    obtain ⟨listing, s₂, hlisting, h⟩ := bind_run_eq_ok.1 h
    cases (listingFor_eq (.inl hlisted)).symm.trans hlisting
    cases h
    exact ⟨rfl, (hexecute ▸ (keeps_execute_samePolls s site t).run s (.refl s)).of_ok.2⟩

/-! ## The interval -/

/-- The number of statements from one poll to the next, for a setting that is an integer. -/
def Settings.every (k : Int) : Nat :=
  (max k 1).toNat

theorem Settings.every_pos (k : Int) : 0 < every k := by
  unfold every
  omega

theorem Quantity.whole?_atLeastOne {q : Quantity} {k : Int} (h : q.whole? = some k) :
    q.atLeastOne.whole? = some (Settings.every k : Int) := by
  have hevery : (Settings.every k : Int) = max k 1 := by
    unfold Settings.every
    omega
  rw [hevery]
  cases q with
  | whole n =>
    cases h
    rfl
  | truth b =>
    cases h
    cases b <;> rfl
  | real | other => cases h

theorem Quantity.divides_iff {q : Quantity} {every : Nat} (h : q.whole? = some (every : Int))
    (count : Nat) : q.divides count = true ↔ every ∣ count := by
  have hdivides : q.divides count = ((count : Int) % every == 0) := by
    unfold divides
    rw [h]
  rw [hdivides, beq_iff_eq, Nat.dvd_iff_mod_eq_zero]
  omega

/-! ## Steps -/

namespace Machine

/-- A machine of a program that polls the console after every so many statements, starting with the
given console: the polls that were due have been made, and none was answered with a stop. -/
structure IsPolled (every : Nat) (c : Console) (m : Machine) : Prop where
  listed : m.run.listing.isSome = true
  interval : m.session.settings.interval.whole? = some (every : Int)
  console : (c.polled (m.run.executed / every)).SameBreaks m.session.console
  answers : ∀ i < m.run.executed / every, c.answer i = false

namespace IsPolled

variable {every : Nat} {c : Console} {m m' : Machine} {p : Placed} {r : Run} {s : Session}

/-- After a statement, the console is polled if a poll is due, and its answer decides whether the
run goes on. -/
theorem step_eq (h : m.IsPolled every c) (hnext : m.run.next? = some p)
    (hafter : m.run.after p.1 p.2 (m.session.noted p.1.line) = .ok r s) :
    m.run.step m.session =
      if every ∣ m.run.executed + 1 then
        if c.answer (m.run.executed / every) then
          .ok (.ended r.value)
            { s with console := s.console.poll.2.print (Run.breakText p.1.line) }
        else .ok (.going r) { s with console := s.console.poll.2 }
      else .ok (.going r) s := by
  obtain ⟨hexecuted, hsame⟩ := Run.samePolls_of_after h.listed hafter
  have hsame := (m.session.samePolls_noted p.1.line).trans hsame
  have hdue : s.settings.interval.divides r.executed = true ↔ every ∣ m.run.executed + 1 := by
    rw [hsame.settings, hexecuted]
    exact Quantity.divides_iff h.interval _
  have hanswer : s.console.poll.1 = c.answer (m.run.executed / every) :=
    (h.console.trans hsame.console).poll_fst
  rw [step_eq_of_after hnext hafter, hanswer]
  simp only [hdue]

/-- What a step keeps: a poll that is due is made, and its answer was not to stop. -/
theorem step (h : m.IsPolled every c) (hstep : m.Steps m') :
    m'.IsPolled every c ∧ m'.run.executed = m.run.executed + 1 := by
  obtain ⟨p, s, hnext, hafter⟩ := hstep.exists_after
  obtain ⟨hexecuted, hsame⟩ := Run.samePolls_of_after h.listed hafter
  have hsame := (m.session.samePolls_noted p.1.line).trans hsame
  have hconsole := h.console.trans hsame.console
  have hlisted : m'.run.listing.isSome = true := by
    rw [(Run.after_eq_ok h.listed hafter).2.1]
    exact h.listed
  have hstep : m.run.step m.session = .ok (.going m'.run) m'.session := hstep
  rw [h.step_eq hnext hafter] at hstep
  have hinterval : s.settings.interval.whole? = some (every : Int) :=
    (congrArg (Quantity.whole? ∘ Settings.interval) hsame.settings).trans h.interval
  refine ⟨?_, hexecuted⟩
  split at hstep
  · rename_i hdue
    have hpolls : m'.run.executed / every = m.run.executed / every + 1 := by
      rw [hexecuted, Nat.succ_div_of_dvd hdue]
    split at hstep
    · cases hstep
    · rename_i hanswer
      obtain ⟨-, hsession⟩ := EStateM.Result.ok.inj hstep
      refine ⟨hlisted, ?_, ?_, fun i hi ↦ ?_⟩
      · rw [← hsession]
        exact hinterval
      · rw [hpolls, ← hsession]
        exact hconsole.poll_snd
      · rw [hpolls] at hi
        obtain hlt | rfl := Nat.lt_succ_iff_lt_or_eq.1 hi
        · exact h.answers i hlt
        · exact Bool.eq_false_iff.2 hanswer
  · rename_i hdue
    have hpolls : m'.run.executed / every = m.run.executed / every := by
      rw [hexecuted, Nat.succ_div_of_not_dvd hdue]
    obtain ⟨-, hsession⟩ := EStateM.Result.ok.inj hstep
    refine ⟨hlisted, ?_, ?_, ?_⟩
    · rw [← hsession]
      exact hinterval
    · rw [hpolls, ← hsession]
      exact hconsole
    · rw [hpolls]
      exact h.answers

/-- What a run keeps, and how many statements were executed in it. -/
theorem runs (h : m.IsPolled every c) {visits : List Machine} (hruns : m.Runs visits m') :
    m'.IsPolled every c ∧ m'.run.executed = m.run.executed + visits.length := by
  induction hruns with
  | done => exact ⟨h, rfl⟩
  | step hstep _ ih =>
    obtain ⟨h₁, hexecuted⟩ := h.step hstep
    obtain ⟨h', hexecuted'⟩ := ih h₁
    refine ⟨h', ?_⟩
    rw [hexecuted', hexecuted, List.length_cons]
    omega

/-- A poll that is answered with a stop is never passed. -/
theorem executed_lt (h : m.IsPolled every c) (hpos : 0 < every) {n : Nat}
    (hanswer : c.answer n = true) : m.run.executed < (n + 1) * every := by
  refine (Nat.div_lt_iff_lt_mul hpos).1 (Nat.lt_succ_of_le (Nat.le_of_not_lt fun hlt ↦ ?_))
  cases hanswer.symm.trans (h.answers n hlt)

end IsPolled

/-! ## Whole runs -/

/-- The next step of a machine is its last one, and ends with a value or a stop. -/
inductive Concludes (m : Machine) : EStateM.Result Stop Session Value → Prop
  | ended {v : Value} {s : Session} (h : m.run.step m.session = .ok (.ended v) s) :
      Concludes m (.ok v s)
  | stopped {e : Stop} {s : Session} (h : m.run.step m.session = .error e s) :
      Concludes m (.error e s)

/-- A run that is completed takes all steps that it may take, or comes to a last one before. -/
theorem exists_runs_of_finish (m : Machine) (fuel : Nat) :
    (∃ visits m', m.Runs visits m' ∧ visits.length = fuel) ∨
      ∃ visits m', m.Runs visits m' ∧ visits.length < fuel ∧
        m'.Concludes (m.run.finish fuel m.session) := by
  induction fuel generalizing m with
  | zero => exact .inl ⟨[], m, .done m, rfl⟩
  | succ fuel ih =>
    cases hstep : m.run.step m.session with
    | error e s =>
      refine .inr ⟨[], m, .done m, Nat.succ_pos fuel, ?_⟩
      rw [Run.finish, bind_run_of_error hstep]
      exact .stopped hstep
    | ok progress s =>
      cases progress with
      | ended v =>
        refine .inr ⟨[], m, .done m, Nat.succ_pos fuel, ?_⟩
        rw [Run.finish, bind_run_of_ok hstep]
        exact .ended hstep
      | going r =>
        have hsteps : m.Steps ⟨r, s⟩ := hstep
        have hfinish : m.run.finish (fuel + 1) m.session = r.finish fuel s := by
          rw [Run.finish, bind_run_of_ok hstep]
        obtain ⟨visits, m', hruns, hlength⟩ | ⟨visits, m', hruns, hlength, hends⟩ := ih ⟨r, s⟩
        · exact .inl ⟨m :: visits, m', .step hsteps hruns, congrArg (· + 1) hlength⟩
        · exact .inr ⟨m :: visits, m', .step hsteps hruns, Nat.succ_lt_succ hlength,
            hfinish ▸ hends⟩

end Machine

/-- A console that asks to stop at some poll does so before the allowance of steps is used up. -/
theorem Session.le_fuel {s : Session} {every i : Nat}
    (hinterval : s.settings.interval.whole? = some (every : Int))
    (hi : i < max (s.console.breakEvery.getD 1) 1) : (i + 1) * every ≤ s.fuel := by
  unfold fuel
  rw [hinterval]
  cases hbreak : s.console.breakEvery with
  | none =>
    rw [hbreak] at hi
    obtain rfl : i = 0 := Nat.lt_one_iff.1 hi
    simp only [Nat.zero_add, Nat.one_mul, Int.toNat_natCast]
    exact Nat.le_trans (Nat.le_succ _) (Nat.le_max_right _ _)
  | some k =>
    rw [hbreak] at hi
    exact Nat.le_trans (Nat.mul_le_mul_right every hi) (Nat.le_succ _)

/-! ## Ends -/

/-- No statement uses up the allowance of steps. -/
theorem Session.Halts.ne_outOfFuel {first s : Session} {stop : Stop} (h : first.Halts s stop) :
    stop ≠ .outOfFuel := by
  cases h with
  | stale hstop => obtain rfl | rfl := hstop <;> exact nofun
  | _ => exact nofun

theorem execute_ne_outOfFuel {site : Site} {t : Tree} {s s' : Session} {e : Stop}
    (h : execute site t s = .error e s') : e ≠ .outOfFuel := by
  obtain ⟨p, s₁, hok, -⟩ | ⟨stop, s₁, herror, -, hhalts⟩ := closes_execute site t s
  · cases hok.symm.trans h
  · cases herror.symm.trans h
    exact hhalts.ne_outOfFuel

section
variable {s s' : Session} {e : Stop}

theorem Action.unwinding_eq_error {α : Type} {act : Action α} (h : act.unwinding s = .error e s') :
    ∃ s₁, act s = .error e s₁ := by
  unfold unwinding at h
  split at h
  · rename_i heq
    cases h
    exact ⟨_, heq⟩
  · exact ⟨s', h⟩

theorem Action.exists_unwinding_eq_error {α : Type} {act : Action α} (h : act s = .error e s') :
    ∃ s₁, act.unwinding s = .error e s₁ ∧ (s₁ = s' ∨ s₁ = s'.unwind) := by
  unfold unwinding
  rw [h]
  cases e with
  | fault f => exact ⟨_, rfl, .inr rfl⟩
  | _ => exact ⟨_, rfl, .inl rfl⟩

/-- A run that is completed stops as its steps do. -/
theorem Run.exists_complete_eq_error {r : Run} (h : r.finish s.fuel s = .error e s') :
    ∃ s₁, r.complete s = .error e s₁ ∧ (s₁ = s' ∨ s₁ = s'.unwind) := by
  have hbody : (do
      let v ← r.finish (← get).fuel
      modify fun s ↦ { s with binders := s.binders.reset }
      return v : Action Value) s = .error e s' :=
    bind_run_eq_error.2 (.inr ⟨s, s, rfl, bind_run_eq_error.2 (.inl h)⟩)
  exact Action.exists_unwinding_eq_error hbody

theorem listing_ne_outOfFuel (h : Action.listing s = .error e s') : e ≠ .outOfFuel := by
  rw [Action.listing, get_bind_run] at h
  obtain ⟨done, l, rest, -, -, hl⟩ := exists_of_mapM_run_eq_error (fun k a s₁ hk ↦ by
    obtain ⟨statements, s₂, hparse, hk⟩ := bind_run_eq_ok.1 hk
    cases hk
    exact (parse_eq_ok hparse).1) h
  obtain hparse | ⟨_, _, -, hl⟩ := bind_run_eq_error.1 hl
  · rintro rfl
    obtain hline | hinherent := parse_cases hparse
    · obtain ⟨⟨_, hcase⟩ | ⟨_, hcase, -⟩ | ⟨_, _, hcase, -⟩, -⟩ :=
        parseLine_rejection Builtin.isName (some l.1) l.2 <;> cases hcase.symm.trans hline
    · cases hinherent
  · cases hl

theorem collect_ne_outOfFuel {lines : Listing} (h : collect lines s = .error e s') :
    e ≠ .outOfFuel := by
  unfold collect at h
  simp only at h
  split at h
  · cases h
  · rename_i heq
    cases h
    obtain ⟨s₁, hforM⟩ := Action.unwinding_eq_error heq
    obtain ⟨done, placed, rest, s₂, -, -, hfails⟩ := exists_of_forM_run_eq_error hforM
    obtain hfails | ⟨_, _, -, hfails⟩ := bind_run_eq_error.1 hfails
    · exact execute_ne_outOfFuel hfails
    · cases hfails

theorem startProgram_ne_outOfFuel (h : startProgram s = .error e s') : e ≠ .outOfFuel := by
  change (Action.listing >>= fun lines ↦ _) s.reset = _ at h
  obtain h | ⟨lines, s₁, hlisting, h⟩ := bind_run_eq_error.1 h
  · exact listing_ne_outOfFuel h
  obtain h | ⟨_, s₂, -, h⟩ := bind_run_eq_error.1 h
  · exact collect_ne_outOfFuel h
  obtain h | ⟨_, s₃, -, h⟩ := bind_run_eq_error.1 h
  · obtain heq | heq := checkInterval_cases s₂
    · cases heq.symm.trans h
    · cases heq.symm.trans h
      exact nofun
  · cases h

end

/-! ## The result -/

section
variable {s s₀ : Session} {r : Run} {k : Int}

theorem isPolled_of_startProgram (hk : s.settings.pollInterval.whole? = some k)
    (hstart : startProgram s = .ok r s₀) :
    Machine.IsPolled (Settings.every k) s.console ⟨r, s₀⟩ ∧ r.executed = 0 := by
  obtain ⟨lines, -, -, rfl⟩ := startProgram_eq_ok hstart
  have hsame := samePolls_of_startProgram hstart
  refine ⟨⟨rfl, ?_, ?_, fun i hi ↦ ?_⟩, rfl⟩
  · exact (congrArg (Quantity.whole? ∘ Settings.interval) hsame.settings).trans
      (Quantity.whole?_atLeastOne hk)
  · rw [Nat.zero_div]
    exact hsame.console
  · rw [Nat.zero_div] at hi
    exact absurd hi (Nat.not_lt_zero i)

/-- Where a run comes to, the number of statements is that of the machines on the way. -/
theorem isPolled_of_runs (hk : s.settings.pollInterval.whole? = some k)
    (hstart : startProgram s = .ok r s₀) {visits : List Machine} {m : Machine}
    (hruns : Machine.Runs ⟨r, s₀⟩ visits m) :
    m.IsPolled (Settings.every k) s.console ∧ m.run.executed = visits.length := by
  obtain ⟨hpolled, hzero⟩ := isPolled_of_startProgram hk hstart
  obtain ⟨hpolled, hexecuted⟩ := hpolled.runs hruns
  refine ⟨hpolled, hexecuted.trans ?_⟩
  change r.executed + visits.length = _
  rw [hzero, Nat.zero_add]

/-- The statements that a run of the stored program comes to are on the lines of the program. -/
theorem exists_line_of_runs (hstart : startProgram s = .ok r s₀) {visits : List Machine}
    {m : Machine} (hruns : Machine.Runs ⟨r, s₀⟩ visits m) {p : Placed}
    (hnext : m.run.next? = some p) : ∃ l ∈ s.program.lines, p.1.line = l.1 := by
  obtain ⟨lines, hparsed, -, rfl⟩ := startProgram_eq_ok hstart
  obtain ⟨htyped, hlisting⟩ := hruns.text_eq rfl
  exact exists_line_of_mem_placed hparsed (Run.mem_placed_of_next? htyped hlisting hnext)

/-- A stop request ends every run of a stored program. -/
theorem runProgram_ends_of_answer (hk : s.settings.pollInterval.whole? = some k) {n : Nat}
    (hanswer : s.console.answer n = true) (hstart : startProgram s = .ok r s₀) :
    ∃ visits m, Machine.Runs ⟨r, s₀⟩ visits m ∧ visits.length < (n + 1) * Settings.every k ∧
      ((∃ v s', m.run.step m.session = .ok (.ended v) s' ∧
          runProgram s = .ok () { s' with binders := s'.binders.reset }) ∨
        ∃ e s' s'', m.run.step m.session = .error e s' ∧ e ≠ .outOfFuel ∧
          runProgram s = .error e s'') := by
  have hpos := Settings.every_pos k
  obtain ⟨hpolled, hzero⟩ := isPolled_of_startProgram hk hstart
  obtain ⟨i, hi, hfirst⟩ := Console.exists_answer hanswer
  -- The first such poll decides how long the run may be; it is within the allowance of steps.
  have hfuel : (i + 1) * Settings.every k ≤ s₀.fuel := by
    refine Session.le_fuel hpolled.interval ?_
    rw [(samePolls_of_startProgram hstart).console.breakEvery]
    exact hi
  have hbound {visits : List Machine} {m : Machine} (hruns : Machine.Runs ⟨r, s₀⟩ visits m)
      {j : Nat} (hj : s.console.answer j = true) : visits.length < (j + 1) * Settings.every k := by
    obtain ⟨hpolled, hexecuted⟩ := isPolled_of_runs hk hstart hruns
    exact hexecuted ▸ hpolled.executed_lt hpos hj
  obtain ⟨visits, m, hruns, hlength⟩ | ⟨visits, m, hruns, -, hends⟩ :=
    Machine.exists_runs_of_finish ⟨r, s₀⟩ s₀.fuel
  · exact absurd (hbound hruns hfirst) (Nat.not_lt.2 (hlength ▸ hfuel))
  refine ⟨visits, m, hruns, hbound hruns hanswer, ?_⟩
  generalize hfinish : r.finish s₀.fuel s₀ = result at hends
  cases hends with
  | @ended v s' hstep =>
    exact .inl ⟨v, s', hstep, runProgram_eq_ok_of_finish hstart hfinish⟩
  | @stopped e s' hstep =>
    have hlisted := (isPolled_of_runs hk hstart hruns).1.listed
    obtain ⟨site, t, -, hexecute⟩ := Machine.exists_execute_of_step_eq_error hlisted hstep
    obtain ⟨s'', hcomplete, -⟩ := Run.exists_complete_eq_error hfinish
    have hrun : runProgram s = .error e s'' :=
      bind_run_eq_error.2 (.inr ⟨r, s₀, hstart, bind_run_eq_error.2 (.inl hcomplete)⟩)
    exact .inr ⟨e, s', s'', hstep, execute_ne_outOfFuel hexecute, hrun⟩

/-- A run of the stored program polls the console after every so many statements: after a number of
them, that many polls have been made, none of them was answered with a stop, and after the next one
the console is polled if it is time to.  If it asks to stop then, the run has ended, with a message
that names the line of that statement.  So if the console asks to stop at some poll, the run comes
to an end before there were more statements than up to that poll, whatever the program. -/
theorem runProgram_isPolled (hk : s.settings.pollInterval.whole? = some k) :
    (∀ r s₀ visits m, startProgram s = .ok r s₀ → Machine.Runs ⟨r, s₀⟩ visits m →
      let polls := visits.length / Settings.every k
      m.session.console.polls = s.console.polls + polls ∧
      (∀ i < polls, s.console.answer i = false) ∧
      (m.run.next? = none → m.run.step m.session = .ok (.ended m.run.value) m.session) ∧
      ∀ site t, m.run.next? = some (site, t) →
        (∃ l ∈ s.program.lines, site.line = l.1) ∧
        (∀ e s₁, m.run.after site t (m.session.noted site.line) = .error e s₁ →
          m.run.step m.session = .error e s₁) ∧
        ∀ r' s₁, m.run.after site t (m.session.noted site.line) = .ok r' s₁ →
          s₁.console.polls = m.session.console.polls ∧
          m.run.step m.session =
            if Settings.every k ∣ visits.length + 1 then
              if s.console.answer polls then
                .ok (.ended r'.value) { s₁ with
                  console := s₁.console.poll.2.print ("Break in " ++ toString site.line ++ "\n") }
              else .ok (.going r') { s₁ with console := s₁.console.poll.2 }
            else .ok (.going r') s₁) ∧
    ∀ n, s.console.answer n = true →
      (∃ e s', startProgram s = .error e s' ∧ e ≠ .outOfFuel ∧ runProgram s = .error e s') ∨
      ∃ r s₀ visits m, startProgram s = .ok r s₀ ∧ Machine.Runs ⟨r, s₀⟩ visits m ∧
        visits.length < (n + 1) * Settings.every k ∧
        ((∃ v s', m.run.step m.session = .ok (.ended v) s' ∧
            runProgram s = .ok () { s' with binders := s'.binders.reset }) ∨
          ∃ e s' s'', m.run.step m.session = .error e s' ∧ e ≠ .outOfFuel ∧
            runProgram s = .error e s'') := by
  constructor
  · intro r s₀ visits m hstart hruns
    obtain ⟨hpolled, hexecuted⟩ := isPolled_of_runs hk hstart hruns
    rw [← hexecuted]
    refine ⟨?_, hpolled.answers, fun hnext ↦ ?_, fun site t hnext ↦ ?_⟩
    · rw [hpolled.console.polls, Console.polls_polled]
    · rw [Run.step, hnext]
      rfl
    obtain ⟨l, hl, hline⟩ := exists_line_of_runs hstart hruns hnext
    refine ⟨⟨l, hl, hline⟩, fun e s₁ hafter ↦ Machine.step_of_after_error hnext hafter,
      fun r' s₁ hafter ↦ ⟨?_, ?_⟩⟩
    · obtain ⟨-, hsame⟩ := Run.samePolls_of_after hpolled.listed hafter
      exact ((m.session.samePolls_noted site.line).trans hsame).console.polls
    · have htext : Run.breakText site.line = "Break in " ++ toString site.line ++ "\n" := by
        refine if_neg fun htyped ↦ ?_
        have hneg : (l.1 : Int) = typedLine := hline.symm.trans htyped
        exact absurd (hneg ▸ Int.natCast_nonneg l.1) (by decide)
      rw [← htext]
      exact hpolled.step_eq hnext hafter
  · intro n hanswer
    cases hstart : startProgram s with
    | error e s' =>
      exact .inl ⟨e, s', rfl, startProgram_ne_outOfFuel hstart,
        bind_run_eq_error.2 (.inl hstart)⟩
    | ok r s₀ =>
      obtain ⟨visits, m, hends⟩ := runProgram_ends_of_answer hk hanswer hstart
      exact .inr ⟨r, s₀, visits, m, rfl, hends⟩

/-- An endless loop, broken off at the second poll. -/
theorem runProgram_isPolled_endless :
    let s : Session := { Session.start { pollInterval := .whole 3 } { breakEvery := some 2 }
      .unavailable 0 with program := ⟨[(10, "GOTO 10")], by decide⟩ }
    s.settings.pollInterval.whole? = some 3 ∧ s.console.answer 1 = true ∧
      ∃ r s₀ visits m v s', startProgram s = .ok r s₀ ∧ Machine.Runs ⟨r, s₀⟩ visits m ∧
        visits.length < 6 ∧ m.run.step m.session = .ok (.ended v) s' ∧
        runProgram s = .ok () { s' with binders := s'.binders.reset } := by
  intro s
  have hk : s.settings.pollInterval.whole? = some 3 := rfl
  have hanswer : s.console.answer 1 = true := by decide
  have hends : Ends (fun _ ↦ True) (fun _ ↦ True) (fun _ ↦ False) (runProgram s) := by
    decide +kernel
  obtain ⟨_, s₁, hok, -⟩ := hends.exists_ok
  refine ⟨hk, hanswer, ?_⟩
  obtain ⟨e, s', -, -, herror⟩ | ⟨r, s₀, visits, m, hstart, hruns, hlength, hlast⟩ :=
    (runProgram_isPolled hk).2 1 hanswer
  · cases hok.symm.trans herror
  obtain ⟨v, s', hstep, hrun⟩ | ⟨e, s', s'', -, -, herror⟩ := hlast
  · exact ⟨r, s₀, visits, m, v, s', hstart, hruns, hlength, hstep, hrun⟩
  · cases hok.symm.trans herror

end
end LineBasic
