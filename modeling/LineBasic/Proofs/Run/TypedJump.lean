import LineBasic.Proofs.Dialogue.Confirmation
import LineBasic.Proofs.Run.LoopStatements
import LineBasic.Proofs.Run.Numbered
import LineBasic.Proofs.Run.Past
import LineBasic.Proofs.Run.Polling
import LineBasic.Proofs.Run.Typed

/-!
# Programs that are entered from the prompt

A run of the stored program starts at its first line, in a reset session, with labels and data
collected.  A typed jump to the first line comes there as well, in the session as it is.  In a fresh
session, and where there is nothing to collect, the two do the same: the typed line takes one step,
and from there on the runs are in the same listing at the same place.  They only differ in how many
statements were executed, and so in when the console is polled.

* `Session.withPolls` — how often the console was polled makes no difference to statements.
* `Run.Accompanies`, `Session.Accompanies` — runs at the same place, and their sessions.
* `sameEnds_step`, `sameEnds_finish` — a step, and all of them.
* `sameEnds_typedJump` — the typed step.
* `typedJump_sameEnds` — the result.
-/

set_option autoImplicit false
namespace LineBasic

/-! ## Ends that are the same -/

section
variable {ε σ α β α' β' : Type} {Q : α → β → Prop} {Q' : α' → β' → Prop} {R R' : σ → σ → Prop}

/-- Ends of two computations that are the same, up to what values and states have to do with one
another. -/
inductive SameEnds (Q : α → β → Prop) (R : σ → σ → Prop) :
    EStateM.Result ε σ α → EStateM.Result ε σ β → Prop
  | ok {a : α} {b : β} {s s' : σ} (ha : Q a b) (hs : R s s') : SameEnds Q R (.ok a s) (.ok b s')
  | error {e : ε} {s s' : σ} (hs : R s s') : SameEnds Q R (.error e s) (.error e s')

theorem SameEnds.bind {x : EStateM ε σ α} {y : EStateM ε σ β} {f : α → EStateM ε σ α'}
    {g : β → EStateM ε σ β'} {s s' : σ} (h : SameEnds Q R (x s) (y s'))
    (hfg : ∀ a b s s', Q a b → R s s' → SameEnds Q' R' (f a s) (g b s'))
    (hR : ∀ s s', R s s' → R' s s') : SameEnds Q' R' ((x >>= f) s) ((y >>= g) s') := by
  change SameEnds Q' R' (EStateM.bind x f s) (EStateM.bind y g s')
  unfold EStateM.bind
  generalize x s = r, y s' = r' at h
  cases h with
  | ok ha hs => exact hfg _ _ _ _ ha hs
  | error hs => exact .error (hR _ _ hs)

theorem SameEnds.mono {r : EStateM.Result ε σ α} {r' : EStateM.Result ε σ β}
    (h : SameEnds Q R r r') (hR : ∀ s s', R s s' → R' s s') : SameEnds Q R' r r' := by
  cases h with
  | ok ha hs => exact .ok ha (hR _ _ hs)
  | error hs => exact .error (hR _ _ hs)

end

/-! ## Polls that were made -/

namespace Session

variable {s : Session}

/-- The session with another number of polls made. -/
def withPolls (s : Session) (polls : Nat) : Session :=
  { s with console := { s.console with polls } }

/-- Two sessions that are the same up to how often the console was polled. -/
def SameButPolls (s s' : Session) : Prop :=
  ∃ polls, s' = s.withPolls polls

/-- Polls are all that there was before a session with no polls made. -/
theorem after_eq_withPolls (hpolls : s.console.polls = 0) (hbreak : s.console.breakEvery = none)
    (n : Nat) : s.after ⟨"", n, []⟩ = s.withPolls n := by
  have hconsole : s.console.after ⟨"", n, []⟩ = { s.console with polls := n } := by
    simp [Console.after, hbreak, hpolls]
  rw [after, hconsole, List.append_nil]
  rfl

/-- A patient console is polled, and nothing else comes of it. -/
theorem poll_eq_withPolls (h : s.console.IsPatient) :
    { s with console := s.console.poll.2 } = s.withPolls (s.console.polls + 1) := by
  have hconsole : s.console.poll.2 = { s.console with polls := s.console.polls + 1 } := by
    rw [Console.poll, ← h.stopRequested]
  rw [hconsole]
  rfl

end Session

/-- How often the console was polled makes no difference to statements. -/
theorem execute_withPolls {s : Session} (hbreak : s.console.breakEvery = none) (site : Site)
    (t : Tree) (polls : Nat) :
    execute site t (s.withPolls polls) = atEnd (·.withPolls polls) (execute site t s) := by
  -- Both sessions are the one without polls, after some polls.
  have hrun (n : Nat) : execute site t (s.withPolls n) =
      atEnd (·.after ⟨"", n, []⟩) (execute site t (s.withPolls 0)) := by
    rw [← after_execute site t (s.withPolls 0)]
    exact congrArg _ (Session.after_eq_withPolls (s := s.withPolls 0) rfl hbreak n).symm
  have hself : execute site t s = _ := hrun s.console.polls
  have hsame := (keeps_execute_samePolls (s.withPolls 0) site t).run _ (.refl _)
  rw [hrun, hself]
  generalize execute site t (s.withPolls 0) = r at hsame
  have hput {s₁ : Session} (h : (s.withPolls 0).SamePolls s₁) :
      s₁.after ⟨"", polls, []⟩ = (s₁.after ⟨"", s.console.polls, []⟩).withPolls polls := by
    have hbreak₁ : s₁.console.breakEvery = none := h.console.breakEvery.trans hbreak
    rw [Session.after_eq_withPolls h.console.polls hbreak₁,
      Session.after_eq_withPolls h.console.polls hbreak₁]
    rfl
  cases hsame with
  | ok _ h => exact congrArg _ (hput h)
  | error _ h => exact congrArg _ (hput h)

/-! ## Runs at the same place -/

/-- Runs in the same listing, at the same place of it. -/
structure Run.Accompanies (r r' : Run) : Prop where
  listed : r.listing.isSome = true
  listing : r'.listing = r.listing
  site : r'.site = r.site
  numbered : 0 ≤ r.site.line

/-- Sessions of such runs. -/
structure Session.Accompanies (s s' : Session) : Prop where
  polls : s.SameButPolls s'
  numbered : s.IsNumbered
  patient : s.console.IsPatient

section
variable {r r' : Run} {s s' : Session}

theorem Session.Accompanies.noted (h : s.Accompanies s') (line : Int) :
    (s.noted line).Accompanies (s'.noted line) := by
  obtain ⟨⟨polls, rfl⟩, hnumbered, hpatient⟩ := h
  refine ⟨⟨polls, ?_⟩, ?_, ?_⟩
  · unfold Session.noted
    rw [apply_ite (Session.withPolls · polls)]
    rfl
  · unfold Session.noted
    split
    · exact ⟨hnumbered.returns, hnumbered.loops, hnumbered.labels⟩
    · exact hnumbered
  · unfold Session.noted
    split <;> exact hpatient

/-- How often either console was polled is of no account. -/
theorem Session.Accompanies.withPolls (h : s.Accompanies s') (n n' : Nat) :
    (s.withPolls n).Accompanies (s'.withPolls n') := by
  obtain ⟨⟨polls, rfl⟩, hnumbered, hpatient⟩ := h
  exact ⟨⟨n', rfl⟩, ⟨hnumbered.returns, hnumbered.loops, hnumbered.labels⟩,
    hpatient.breakEvery, hpatient.stopRequested⟩

/-- A statement does the same in both sessions. -/
theorem sameEnds_execute (hs : s.Accompanies s') {site : Site} (hsite : 0 ≤ site.line) (t : Tree) :
    SameEnds (fun p p' ↦ p' = p ∧ 0 ≤ p.2.line) Session.Accompanies (execute site t s)
      (execute site t s') := by
  obtain ⟨⟨polls, rfl⟩, hnumbered, hpatient⟩ := hs
  rw [execute_withPolls hpatient.breakEvery]
  have hkeeps := (keeps_execute_isNumbered hsite t).run s hnumbered
  obtain ⟨p, s₁, heq, hevolves⟩ | ⟨e, s₁, heq, hevolves, -⟩ := closes_execute site t s
  · rw [heq] at hkeeps ⊢
    obtain ⟨hline, hnumbered₁⟩ := hkeeps.of_ok
    exact .ok ⟨rfl, hline⟩ ⟨⟨polls, rfl⟩, hnumbered₁, hevolves.isPatient hpatient⟩
  · rw [heq] at hkeeps ⊢
    exact .error ⟨⟨polls, rfl⟩, hkeeps.of_error.2, hevolves.isPatient hpatient⟩

namespace Run

theorem Accompanies.next? (h : r.Accompanies r') : r'.next? = r.next? := by
  have htyped : ¬ r.site.line = typedLine := fun heq ↦ absurd (heq ▸ h.numbered) (by decide)
  rw [Run.next?, Run.next?, h.site, h.listing, if_neg htyped, if_neg htyped]

/-- Past the typed line, what comes next is on a numbered line. -/
theorem numbered_of_next? (hsite : 0 ≤ r.site.line) {p : Placed} (h : r.next? = some p) :
    0 ≤ p.1.line := by
  have htyped : ¬ r.site.line = typedLine := fun heq ↦ absurd (heq ▸ hsite) (by decide)
  rw [Run.next?, if_neg htyped, if_neg (Int.not_lt.2 hsite), Listing.first?_eq_find?] at h
  obtain ⟨l, -, hline, -⟩ := Listing.mem_placed.1 (List.mem_of_find?_eq_some h)
  rw [hline]
  exact Int.natCast_nonneg l.1

theorem sameEnds_after (h : r.Accompanies r') (hs : s.Accompanies s') {site : Site}
    (hsite : 0 ≤ site.line) (statement : Option Tree) :
    SameEnds Accompanies Session.Accompanies (r.after site statement s)
      (r'.after site statement s') := by
  cases statement with
  | none => exact .ok ⟨h.listed, h.listing, rfl, hsite⟩ hs
  | some t =>
    refine (sameEnds_execute hs hsite t).bind (fun p p' s₁ s₁' hp hs₁ ↦ ?_) fun _ _ ↦ id
    obtain ⟨rfl, hline⟩ := hp
    have hlisted' : r'.listing.isSome = true := h.listing ▸ h.listed
    dsimp only
    rw [bind_run_of_ok (listingFor_eq (.inl h.listed)),
      bind_run_of_ok (listingFor_eq (.inl hlisted'))]
    exact .ok ⟨h.listed, h.listing, rfl, hline⟩ hs₁

end Run

/-- What steps of two runs lead to: runs at the same place again, or the end of both. -/
inductive Progress.Accompanies : Progress → Progress → Prop
  | going {r r' : Run} (h : r.Accompanies r') : Accompanies (.going r) (.going r')
  | ended (v v' : Value) : Accompanies (.ended v) (.ended v')

/-- A patient console may be polled after a statement, and does not end the run. -/
theorem exists_step_of_isPatient {m : Machine} {p : Placed} (hnext : m.run.next? = some p)
    (hafter : m.run.after p.1 p.2 (m.session.noted p.1.line) = .ok r s)
    (hpatient : s.console.IsPatient) :
    ∃ n, m.run.step m.session = .ok (.going r) (s.withPolls n) := by
  rw [Machine.step_eq_of_after hnext hafter, hpatient.poll.1, Session.poll_eq_withPolls hpatient]
  split
  · exact ⟨s.console.polls + 1, rfl⟩
  · exact ⟨s.console.polls, rfl⟩

/-- Runs at the same place take the same step. -/
theorem sameEnds_step (h : r.Accompanies r') (hs : s.Accompanies s') :
    SameEnds Progress.Accompanies Session.Accompanies (r.step s) (r'.step s') := by
  cases hnext : r.next? with
  | none =>
    rw [Run.step, Run.step, h.next?, hnext]
    exact .ok (.ended _ _) hs
  | some p =>
    have hnext' : r'.next? = some p := h.next?.trans hnext
    have hafter := Run.sameEnds_after h (hs.noted p.1.line) (Run.numbered_of_next? h.numbered hnext)
      p.2
    generalize hl : r.after p.1 p.2 (s.noted p.1.line) = l,
      hl' : r'.after p.1 p.2 (s'.noted p.1.line) = l' at hafter
    cases hafter with
    | @ok r₁ r₁' s₁ s₁' hr₁ hs₁ =>
      have hpatient' : s₁'.console.IsPatient := by
        obtain ⟨polls, rfl⟩ := hs₁.polls
        exact ⟨hs₁.patient.breakEvery, hs₁.patient.stopRequested⟩
      obtain ⟨n, hstep⟩ := exists_step_of_isPatient (m := ⟨r, s⟩) hnext hl hs₁.patient
      obtain ⟨n', hstep'⟩ := exists_step_of_isPatient (m := ⟨r', s'⟩) hnext' hl' hpatient'
      rw [hstep, hstep']
      exact .ok (.going hr₁) (hs₁.withPolls n n')
    | error hs₁ =>
      rw [Machine.step_of_after_error (m := ⟨r, s⟩) hnext hl,
        Machine.step_of_after_error (m := ⟨r', s'⟩) hnext' hl']
      exact .error hs₁

/-- Runs at the same place end in the same way. -/
theorem sameEnds_finish (h : r.Accompanies r') (hs : s.Accompanies s') (fuel : Nat) :
    SameEnds (fun _ _ ↦ True) Session.Accompanies (r.finish fuel s) (r'.finish fuel s') := by
  induction fuel generalizing r r' s s' with
  | zero => exact .error hs
  | succ fuel ih =>
    rw [Run.finish, Run.finish]
    refine (sameEnds_step h hs).bind (fun p p' s₁ s₁' hp h₁ ↦ ?_) fun _ _ ↦ id
    cases hp with
    | going hr => exact ih hr h₁
    | ended v v' => exact .ok trivial h₁

/-- A run that comes to its end does so with any larger allowance. -/
theorem Run.finish_succ {fuel : Nat} (h : ∀ s', r.finish fuel s ≠ .error .outOfFuel s') :
    r.finish (fuel + 1) s = r.finish fuel s := by
  induction fuel generalizing r s with
  | zero => exact absurd rfl (h s)
  | succ fuel ih =>
    rw [Run.finish] at h ⊢
    rw [Run.finish]
    cases hstep : r.step s with
    | error e s₁ => rw [bind_run_of_error hstep, bind_run_of_error hstep]
    | ok progress s₁ =>
      rw [bind_run_of_ok hstep] at h
      rw [bind_run_of_ok hstep, bind_run_of_ok hstep]
      cases progress with
      | going r₁ => exact ih h
      | ended v => rfl

/-! ## The typed jump -/

/-- The line that a statement is a jump to, if it is one by number. -/
def Tree.gotoLine? : Tree → Option Int
  | .call "GOTO" [.number x] [] => (Number.truncate x).toOption
  | _ => none

theorem Tree.eq_of_gotoLine? {t : Tree} {line : Int} (h : t.gotoLine? = some line) :
    ∃ x, t = .call "GOTO" [.number x] [] ∧ Number.truncate x = .ok line := by
  unfold gotoLine? at h
  split at h
  · rename_i x
    refine ⟨x, rfl, ?_⟩
    cases hx : Number.truncate x with
    | ok n =>
      rw [hx] at h
      exact congrArg _ (Option.some.inj h)
    | error e =>
      rw [hx] at h
      cases h
  · cases h

/-- The typed line is a jump to the first line. -/
theorem exists_parseLine_goto : ∃ x,
    parseLine Builtin.isName none "GOTO 1" = .ok [some (.call "GOTO" [.number x] [])] ∧
      Number.truncate x = .ok 1 := by
  have hlines : (parseLine Builtin.isName none "GOTO 1").toOption.map
      (·.map fun t ↦ t.bind Tree.gotoLine?) = some [some 1] := by decide +kernel
  cases hparse : parseLine Builtin.isName none "GOTO 1" with
  | error e =>
    rw [hparse] at hlines
    cases hlines
  | ok statements =>
    rw [hparse] at hlines
    match statements with
    | [some t] =>
      obtain ⟨hline, -⟩ := List.cons.inj (Option.some.inj hlines)
      obtain ⟨x, rfl, hx⟩ := Tree.eq_of_gotoLine? hline
      exact ⟨x, rfl, hx⟩
    | [] | [none] => cases hlines
    | _ :: _ :: _ => exact absurd (congrArg List.length (Option.some.inj hlines)) (by simp)

theorem describeTree_goto {x : Float} {line : Int} (hx : Number.truncate x = .ok line)
    (h : Heap) : ∃ text, h.describeTree (.call "GOTO" [.number x] []) = .ok text := by
  have hliteral : ∃ text, literal x = .ok text := by
    rw [literal, Number.literalText, hx]
    exact ⟨_, rfl⟩
  obtain ⟨text, htext⟩ := hliteral
  refine ⟨"GOTO(" ++ text ++ ")", ?_⟩
  simp only [Heap.describeTree, treeText, treeTexts, htext]
  rfl

theorem checkInterval_of_ne (hinterval : s.settings.interval ≠ .other) :
    Action.checkInterval s = .ok () s := by
  rw [Action.checkInterval, get_bind_run]
  cases hq : s.settings.interval with
  | other => exact absurd hq hinterval
  | _ => rfl

theorem startTyped_goto (hinterval : s.settings.interval ≠ .other) : ∃ x,
    startTyped "GOTO 1" s =
      .ok { typed := [some (.call "GOTO" [.number x] [])], site := ⟨typedLine, 0⟩ } s ∧
    Number.truncate x = .ok 1 := by
  obtain ⟨x, hline, hx⟩ := exists_parseLine_goto
  refine ⟨x, ?_, hx⟩
  have hparse : Action.parse none "GOTO 1" s = .ok [some (.call "GOTO" [.number x] [])] s := by
    obtain ⟨text, htext⟩ := describeTree_goto hx s.heap
    rw [Action.parse, hline]
    change (if s.isDebugging = true then _ else _ : Action _) s = _
    split
    · refine bind_run_eq_ok.2 ⟨⟨⟩, s, ?_, rfl⟩
      rw [List.forIn_cons]
      refine bind_run_eq_ok.2 ⟨.yield ⟨⟩, s, ?_, rfl⟩
      change (Action.ofStop (s.heap.describeTree _) >>= _) s = _
      rw [htext]
      rfl
    · rfl
  exact (bind_run_of_ok hparse).trans (bind_run_of_ok (checkInterval_of_ne hinterval))

theorem execute_goto {x : Float} {line : Int} (hx : Number.truncate x = .ok line)
    (hline : 0 ≤ line) (site : Site) (s : Session) :
    execute site (.call "GOTO" [.number x] []) s = .ok (.null, ⟨line, 0⟩) s := by
  refine execute_of_jump ?_
  rw [evaluate_eq,
    eval_call_of_raw (b := .goto) (by decide) (checkEnabled_eq_ok rfl rfl) rfl fun _ ↦ rfl]
  have htarget : Builtin.goto.targetLine (.value (.number x)) s = .ok line s := by
    rw [Builtin.targetLine, get_bind_run]
    change (Action.ofNumber (Number.truncate x) >>= _) s = _
    rw [hx]
    change (if line < 0 then _ else _ : Action Int) s = _
    rw [if_neg (Int.not_lt.2 hline)]
    rfl
  exact bind_run_of_ok htarget

/-- The typed line jumps into the program, unless a stored line cannot be parsed. -/
theorem step_typedJump {x : Float} (hx : Number.truncate x = .ok 1)
    (hcount : 1 < s.program.lineCount) (hpatient : s.console.IsPatient) {r : Run}
    (hr : r = { typed := [some (.call "GOTO" [.number x] [])], site := ⟨typedLine, 0⟩ }) :
    (∀ e, Action.listing s = .error e s → r.step s = .error e s) ∧
    ∀ lines, Action.listing s = .ok lines s → ∃ n r₁, r.step s = .ok (.going r₁) (s.withPolls n) ∧
      r₁.listing = some lines ∧ r₁.site = ⟨1, 0⟩ := by
  subst hr
  set r : Run := { typed := [some (.call "GOTO" [.number x] [])], site := ⟨typedLine, 0⟩ }
  have hnext : r.next? = some (⟨typedLine, 0⟩, some (.call "GOTO" [.number x] [])) := rfl
  have hnoted : s.noted typedLine = s := by
    rw [Session.noted, if_neg (by simp)]
  have hexecute := execute_goto hx Int.one_nonneg ⟨typedLine, 0⟩ s
  have hlistingFor : r.listingFor ⟨1, 0⟩ s = (do return some (← Action.listing) : Action _) s := by
    change (if 0 ≤ (1 : Int) ∧ (1 : Int) < s.program.lineCount then _ else _ : Action _) s = _
    rw [if_pos ⟨Int.one_nonneg, by exact_mod_cast hcount⟩]
  constructor
  · intro e hlisting
    refine Machine.step_of_after_error (m := ⟨r, s⟩) hnext ?_
    rw [hnoted]
    refine bind_run_eq_error.2 (.inr ⟨_, s, hexecute, bind_run_eq_error.2 (.inl ?_)⟩)
    exact hlistingFor.trans (bind_run_of_error hlisting)
  · intro lines hlisting
    have hafter : r.after ⟨typedLine, 0⟩ (some (.call "GOTO" [.number x] [])) (s.noted typedLine) =
        .ok { r with site := ⟨1, 0⟩, listing := some lines, executed := 1 } s := by
      rw [hnoted]
      refine bind_run_eq_ok.2 ⟨_, s, hexecute, bind_run_eq_ok.2 ⟨some lines, s, ?_, rfl⟩⟩
      exact hlistingFor.trans (bind_run_of_ok hlisting)
    obtain ⟨n, hstep⟩ := exists_step_of_isPatient (m := ⟨r, s⟩) hnext hafter hpatient
    exact ⟨n, _, hstep, rfl, rfl⟩

/-! ## Programs without labels and data -/

/-- A program none of whose statements is executed before it runs. -/
def Program.CollectsNothing (p : Program) : Prop :=
  ∀ l ∈ p.lines, ∀ statements, parseLine Builtin.isName (some l.1) l.2 = .ok statements →
    ∀ t, some t ∈ statements → isCollected t = false

/-- Which programs there is nothing to collect in is found out by parsing them. -/
theorem Program.collectsNothing_iff {p : Program} : p.CollectsNothing ↔
    ∀ l ∈ p.lines, ((parseLine Builtin.isName (some l.1) l.2).toOption.all
      (·.all (·.all fun t ↦ !isCollected t))) = true := by
  refine forall₂_congr fun l _ ↦ ?_
  cases parseLine Builtin.isName (some l.1) l.2 with
  | error e => exact iff_of_true nofun rfl
  | ok statements =>
    change _ ↔ statements.all _ = true
    rw [List.all_eq_true]
    constructor
    · rintro h (_ | t) ht
      · rfl
      · simpa using h statements rfl t ht
    · rintro h _ ⟨⟩ t ht
      simpa using h (some t) ht

instance (p : Program) : Decidable p.CollectsNothing :=
  decidable_of_iff' _ Program.collectsNothing_iff

theorem Program.CollectsNothing.collected_eq_nil {p : Program} (h : p.CollectsNothing)
    {lines : Listing} (hparsed : p.parsed = .ok lines) : lines.collected = [] := by
  have hlines : ∀ l ∈ lines, ∀ t, some t ∈ l.2 → isCollected t = false := by
    refine forall_mem_of_mapM hparsed fun l hl k hk ↦ ?_
    obtain ⟨statements, hparse, hk⟩ := bind_eq_ok.1 hk
    cases hk
    exact h l hl statements hparse
  refine List.eq_nil_iff_forall_not_mem.2 fun ⟨site, t⟩ hmem ↦ ?_
  obtain ⟨hplaced, hcollected⟩ := Listing.mem_collected.1 hmem
  obtain ⟨l, hl, -, hget⟩ := Listing.mem_placed.1 hplaced
  cases (hlines l hl t (List.mem_of_getElem? hget)).symm.trans hcollected

/-- A session that a reset makes no difference to, whose console is patient. -/
structure Session.IsFresh (s : Session) : Prop where
  reset : s.reset = s
  isCollecting : s.isCollecting = false
  patient : s.console.IsPatient

theorem Session.IsFresh.unwind (h : s.IsFresh) : s.unwind = s := by
  rw [← h.reset]
  rfl

theorem Session.IsFresh.isNumbered (h : s.IsFresh) : s.IsNumbered := by
  rw [← h.reset]
  exact ⟨List.forall_mem_nil _, List.forall_mem_nil _, fun name line hline ↦ by cases hline⟩

section
variable (hfresh : s.IsFresh) (hinterval : s.settings.interval ≠ .other)
  (hnothing : s.program.CollectsNothing)

include hfresh hinterval hnothing

/-- A program starts with its listing, unless a line cannot be parsed. -/
theorem startProgram_of_isFresh :
    (∃ e, Action.listing s = .error e s ∧ startProgram s = .error e s) ∨
      ∃ lines, Action.listing s = .ok lines s ∧
        startProgram s = .ok { listing := some lines, site := ⟨1, 0⟩ } s := by
  have hstart : startProgram s = (do
      let lines ← Action.listing
      collect lines
      Action.checkInterval
      return { listing := some lines, site := ⟨1, 0⟩ } : Action Run) s := by
    conv_rhs => rw [← hfresh.reset]
    rfl
  rw [hstart]
  cases hlisting : Action.listing s with
  | error e s₁ =>
    obtain rfl := eq_of_listing_error hlisting
    exact .inl ⟨e, rfl, bind_run_of_error hlisting⟩
  | ok lines s₁ =>
    obtain ⟨rfl, hparsed⟩ := listing_eq_ok hlisting
    have hcollect := collect_of_nil (hnothing.collected_eq_nil hparsed) hfresh.isCollecting
    exact .inr ⟨lines, rfl, (bind_run_of_ok hlisting).trans <|
      (bind_run_of_ok hcollect).trans (bind_run_of_ok (checkInterval_of_ne hinterval))⟩

variable (hcount : 1 < s.program.lineCount)

include hcount

/-- With one more step for the typed line, both runs end in the same way. -/
theorem sameEnds_typedJump (fuel : Nat) :
    SameEnds (fun _ _ ↦ True) Session.Accompanies
      ((do (← startProgram).finish fuel : Action Value) s)
      ((do (← startTyped "GOTO 1").finish (fuel + 1) : Action Value) s) := by
  obtain ⟨x, htyped, hx⟩ := startTyped_goto hinterval
  have hself (n : Nat) : s.Accompanies (s.withPolls n) :=
    ⟨⟨n, rfl⟩, hfresh.isNumbered, hfresh.patient⟩
  obtain ⟨herror, hok⟩ := step_typedJump hx hcount hfresh.patient rfl
  rw [bind_run_of_ok htyped, Run.finish]
  obtain ⟨e, hlisting, hstart⟩ | ⟨lines, hlisting, hstart⟩ :=
    startProgram_of_isFresh hfresh hinterval hnothing
  · rw [bind_run_of_error hstart, bind_run_of_error (herror e hlisting)]
    exact .error (hself s.console.polls)
  · obtain ⟨n, r₁, hstep, hlisted, hsite⟩ := hok lines hlisting
    rw [bind_run_of_ok hstart, bind_run_of_ok hstep]
    exact sameEnds_finish ⟨rfl, hlisted, hsite, Int.one_nonneg⟩ (hself n) fuel

/-! ## Whole runs -/

omit hfresh hinterval hnothing hcount in
/-- After faults nothing is under way in either session. -/
theorem SameEnds.unwinding {α : Type} {Q : α → α → Prop} {act act' : Action α}
    (h : SameEnds Q Session.SameButPolls (act s) (act' s')) :
    SameEnds Q Session.SameButPolls (act.unwinding s) (act'.unwinding s') := by
  unfold Action.unwinding
  generalize act s = l, act' s' = l' at h
  cases h with
  | ok ha hs => exact .ok ha hs
  | @error e _ _ hs =>
    obtain ⟨n, rfl⟩ := hs
    cases e with
    | fault f => exact .error ⟨n, rfl⟩
    | _ => exact .error ⟨n, rfl⟩

end
end

/-- A run that uses up its allowance of steps. -/
def RunsOn {α : Type} (r : EStateM.Result Stop Session α) : Prop :=
  ∃ s, r = .error .outOfFuel s

instance decidableRunsOn {α : Type} : (r : EStateM.Result Stop Session α) → Decidable (RunsOn r)
  | .ok _ _ => isFalse fun ⟨_, heq⟩ ↦ by cases heq
  | .error e s => decidable_of_iff (e = .outOfFuel)
    ⟨fun h ↦ ⟨s, h ▸ rfl⟩, fun ⟨_, heq⟩ ↦ (EStateM.Result.error.inj heq).1⟩

section
variable {r : Run} {s : Session}

theorem Session.exists_fuel (s : Session) : ∃ fuel, s.fuel = fuel + 1 := by
  refine Nat.exists_eq_add_one_of_ne_zero (Nat.ne_of_gt ?_)
  unfold fuel
  split
  · exact Nat.succ_pos _
  · exact Nat.lt_of_lt_of_le (Nat.succ_pos _) (Nat.le_max_right _ _)
  · decide

end

section
variable {r r' : Run} {s s' : Session}

/-- Runs that come to the same end are completed in the same way. -/
theorem sameEnds_complete
    (h : SameEnds (fun _ _ ↦ True) Session.SameButPolls (r.finish s.fuel s)
      (r'.finish s'.fuel s')) :
    SameEnds (fun _ _ ↦ True) Session.SameButPolls (r.complete s) (r'.complete s') := by
  refine .unwinding ?_
  rw [get_bind_run, get_bind_run]
  refine h.bind (fun v v' s₁ s₁' _ hs₁ ↦ ?_) fun _ _ ↦ id
  obtain ⟨n, rfl⟩ := hs₁
  exact .ok trivial ⟨n, rfl⟩

variable (hfresh : s.IsFresh) (hinterval : s.settings.interval ≠ .other)
  (hnothing : s.program.CollectsNothing) (hcount : 1 < s.program.lineCount)

include hfresh hinterval hnothing hcount

/-- A typed jump into the program ends as a run of it does. -/
theorem sameEnds_runTyped (hends : ¬ RunsOn (runTyped "GOTO 1" s)) :
    SameEnds (fun _ _ ↦ True) Session.SameButPolls (runProgram s) (runTyped "GOTO 1" s) := by
  obtain ⟨r, htyped⟩ : ∃ r, startTyped "GOTO 1" s = .ok r s :=
    let ⟨_, htyped, _⟩ := startTyped_goto hinterval
    ⟨_, htyped⟩
  obtain ⟨fuel, hfuel⟩ := s.exists_fuel
  have hsame := sameEnds_typedJump hfresh hinterval hnothing hcount fuel
  have hrun : runTyped "GOTO 1" s = r.complete s := bind_run_of_ok htyped
  rw [hrun] at hends ⊢
  rw [bind_run_of_ok htyped, ← hfuel] at hsame
  obtain ⟨e, -, hstart⟩ | ⟨lines, -, hstart⟩ := startProgram_of_isFresh hfresh hinterval hnothing
  · rw [bind_run_of_error hstart] at hsame
    rw [runProgram, bind_run_of_error hstart]
    generalize hfinish : r.finish s.fuel s = result at hsame
    cases hsame with
    | @error _ _ s₁ hs =>
      obtain ⟨n, rfl⟩ := hs.polls
      obtain ⟨s₂, hcomplete, hs₂⟩ := Run.exists_complete_eq_error hfinish
      rw [hcomplete]
      refine .error ⟨n, ?_⟩
      obtain rfl | rfl := hs₂
      · rfl
      · exact congrArg (Session.withPolls · n) hfresh.unwind
  · generalize ({ listing := some lines, site := ⟨1, 0⟩ } : Run) = r₀ at hstart
    rw [bind_run_of_ok hstart] at hsame
    have hfinish : r₀.finish s.fuel s = r₀.finish fuel s := by
      rw [hfuel]
      refine Run.finish_succ fun s₁ h ↦ hends ?_
      rw [h] at hsame
      generalize hl : r.finish s.fuel s = l at hsame
      cases hsame
      obtain ⟨s₂, hcomplete, -⟩ := Run.exists_complete_eq_error hl
      exact ⟨s₂, hcomplete⟩
    rw [← hfinish] at hsame
    have hcomplete := sameEnds_complete (hsame.mono fun _ _ hs ↦ hs.polls)
    rw [runProgram, bind_run_of_ok hstart]
    change SameEnds _ _ (EStateM.bind r₀.complete _ s) _
    unfold EStateM.bind
    generalize r₀.complete s = l, r.complete s = l' at hcomplete
    cases hcomplete with
    | ok _ hs => exact .ok trivial hs
    | error hs => exact .error hs

end

/-! ## The prompt -/

namespace Dialogue

/-- Two dialogues that are the same up to how often the console was polled. -/
def SameButPolls (d d' : Dialogue) : Prop :=
  ∃ polls, d' = { d with session := d.session.withPolls polls }

section
variable {α β : Type} {Q : α → β → Prop} {d d' : Dialogue}

theorem sameEnds_onSession {act : Action α} {act' : Action β}
    (h : SameEnds Q Session.SameButPolls (act d.session) (act' d.session)) :
    SameEnds Q SameButPolls (onSession act d) (onSession act' d) := by
  unfold onSession
  generalize act d.session = l, act' d.session = l' at h
  cases h with
  | ok ha hs =>
    obtain ⟨n, rfl⟩ := hs
    exact .ok ha ⟨n, rfl⟩
  | error hs =>
    obtain ⟨n, rfl⟩ := hs
    exact .error ⟨n, rfl⟩

theorem sameEnds_prompt (h : d.SameButPolls d') :
    SameEnds Eq SameButPolls (prompt d) (prompt d') := by
  obtain ⟨n, rfl⟩ := h
  have hover (d : Dialogue) (h : d.isOver = true) : prompt d = .ok false d := by
    change (if d.isOver = true then _ else _ : Exchange Bool) d = _
    rw [if_pos h]
    rfl
  have hgoes (d : Dialogue) (h : ¬ d.isOver = true) :
      prompt d = (printPrompt >>= fun _ ↦ return true) d := by
    change (if d.isOver = true then _ else _ : Exchange Bool) d = _
    rw [if_neg h]
  by_cases hisOver : d.isOver = true
  · rw [hover d hisOver, hover { d with session := d.session.withPolls n } hisOver]
    exact .ok rfl ⟨n, rfl⟩
  · rw [hgoes d hisOver, hgoes { d with session := d.session.withPolls n } hisOver]
    refine SameEnds.bind (Q := fun _ _ ↦ True) ?_ (fun _ _ _ _ _ hs ↦ .ok rfl hs) fun _ _ ↦ id
    rw [printPrompt, get_bind_run, get_bind_run]
    dsimp only [Session.withPolls]
    cases d.session.settings.prompt with
    | some text => exact .ok trivial ⟨n, rfl⟩
    | none => exact .error ⟨n, rfl⟩

/-- What follows on a line does not tell what the line asked for, unless it was stored. -/
theorem sameEnds_conclude {act act' : Exchange Unit} {text text' : String}
    (h : SameEnds (fun _ _ ↦ True) SameButPolls (act d) (act' d')) :
    SameEnds Eq SameButPolls (conclude (.command text) act d)
      (conclude (.statements text') act' d') := by
  unfold conclude
  generalize act d = l, act' d' = l' at h
  cases h with
  | ok _ hd => exact sameEnds_prompt hd
  | @error failure d₁ d₁' hd =>
    cases failure with
    | stop stop =>
      cases stop with
      | fault f =>
        obtain ⟨n, rfl⟩ := hd
        exact sameEnds_prompt ⟨n, rfl⟩
      | _ => exact .error hd
    | file e => exact .error hd

/-- A line without a line number is a command or statements. -/
theorem entryOfLine_of_unnumbered {line : String} (hstrip : Text.strip line = line)
    (h : (programLine? line).isNone = true) :
    entryOfLine line = if Command.isLine line then .command line else .statements line := by
  rw [entryOfLine, hstrip, entryOf, Option.isNone_iff_eq_none.1 h]

theorem submit_run : submit "RUN" = conclude (.command "RUN") (onSession runProgram) := by
  have hentry : entryOfLine "RUN" = .command "RUN" := by
    rw [entryOfLine_of_unnumbered (by decide +kernel) (by decide +kernel)]
    exact if_pos (by decide +kernel)
  have hcommand : (entryOfLine "RUN").command? = some .run := by decide +kernel
  rw [submit_of_not_empty (by decide +kernel), enter_of_command? hcommand, hentry]
  rfl

theorem submit_goto : submit "GOTO 1" =
    conclude (.statements "GOTO 1") (onSession do let _ ← runTyped "GOTO 1") := by
  have hentry : entryOfLine "GOTO 1" = .statements "GOTO 1" := by
    rw [entryOfLine_of_unnumbered (by decide +kernel) (by decide +kernel)]
    exact if_neg (by decide +kernel)
  rw [submit_of_not_empty (by decide +kernel), hentry]
  rfl

end
end Dialogue

/-! ## The result -/

/-- In a fresh session with a stored program that has nothing to collect, and a console that does
not ask to stop, a typed jump to the first line does the same as a run.  Step by step, the two print
the same and have the same variables, options, loops and subroutines, or fail with the same fault,
also where a stored line cannot be parsed; only the console is not polled after the same statements.
So the whole runs end in the same way, and so do the lines at the prompt. -/
theorem typedJump_sameEnds (settings : Settings) (hinterval : settings.interval ≠ .other)
    (console : Console) (hconsole : console.IsPatient) (bus : Bus) (seed : UInt64)
    (files : FileStore) (program : Program) (hfirst : ∃ l ∈ program.lines, 1 ≤ l.1)
    (hnothing : program.CollectsNothing) :
    let s : Session := { Session.start settings console bus seed with program }
    (∀ fuel, SameEnds (fun _ _ ↦ True) Session.SameButPolls
      ((do (← startProgram).finish fuel : Action Value) s)
      ((do (← startTyped "GOTO 1").finish (fuel + 1) : Action Value) s)) ∧
    (¬ RunsOn (runTyped "GOTO 1" s) →
      SameEnds (fun _ _ ↦ True) Session.SameButPolls (runProgram s) (runTyped "GOTO 1" s) ∧
      SameEnds Eq Dialogue.SameButPolls (Dialogue.submit "RUN" { session := s, files })
        (Dialogue.submit "GOTO 1" { session := s, files })) := by
  intro s
  have hfresh : s.IsFresh := ⟨rfl, rfl, hconsole⟩
  have hcount : 1 < s.program.lineCount := by
    obtain ⟨l, hl, hle⟩ := hfirst
    exact Nat.lt_of_le_of_lt hle (Program.lt_lineCount hl)
  refine ⟨fun fuel ↦ ?_, fun hends ↦ ?_⟩
  · exact (sameEnds_typedJump hfresh hinterval hnothing hcount fuel).mono fun _ _ hs ↦ hs.polls
  · have hsame := sameEnds_runTyped hfresh hinterval hnothing hcount hends
    refine ⟨hsame, ?_⟩
    rw [Dialogue.submit_run, Dialogue.submit_goto]
    refine Dialogue.sameEnds_conclude (Dialogue.sameEnds_onSession ?_)
    change SameEnds _ _ (runProgram s) (EStateM.bind (runTyped "GOTO 1") _ s)
    unfold EStateM.bind
    generalize runProgram s = l, runTyped "GOTO 1" s = l' at hsame
    cases hsame with
    | ok _ hs => exact .ok trivial hs
    | error hs => exact .error hs

/-- A program with a loop and a subroutine. -/
theorem typedJump_sameEnds_loop :
    let program : Program := ⟨[(10, "FOR I = 1 TO 2 : PRINT I"), (20, "NEXT : GOSUB 40"),
      (30, "END"), (40, "RETURN")], by decide⟩
    let s : Session := { Session.start {} {} .unavailable 0 with program }
    program.CollectsNothing ∧ ¬ RunsOn (runTyped "GOTO 1" s) ∧
      SameEnds (fun _ _ ↦ True) Session.SameButPolls (runProgram s) (runTyped "GOTO 1" s) := by
  intro program s
  have hnothing : program.CollectsNothing := by decide +kernel
  have hends : ¬ RunsOn (runTyped "GOTO 1" s) := by decide +kernel
  obtain ⟨-, hsame⟩ := typedJump_sameEnds {} nofun {} ⟨rfl, rfl⟩ .unavailable 0 (.memory {}) program
    ⟨(10, _), List.mem_cons_self .., by decide⟩ hnothing
  exact ⟨hnothing, hends, (hsame hends).1⟩

end LineBasic
