import LineBasic.Proofs.Dialogue.Saving
import LineBasic.Proofs.Evaluation.Balance
import LineBasic.Proofs.Run.Data

/-!
# Runs and the past

A run of the stored program starts with a reset, and what was printed, polled and traced before it
only stands before what it prints, polls and traces.  So two sessions that are about to run the same
program under the same conditions run it in the same way, whatever happened in them before.

The console is one of the conditions.  A stop that was requested and not yet granted breaks off the
next run; and a console that breaks off runs on its own counts its polls from run to run.

* `afterwards` — computations do the same after a past.
* `after_runProgram` — the past stands before a run.
* `Session.IsSetUp`, `Dialogue.Configured` — what dialogues leave as it is configured.
* `runProgram_of_sameConditions` — the result.
-/

set_option autoImplicit false
namespace LineBasic

variable {α : Type} {p : Past}

/-! ## Statements -/

theorem after_dataOf (values : List Value) : Commutes (·.after p) (Builtin.dataOf values) := by
  intro s
  unfold Builtin.dataOf
  rw [get_bind_run, get_bind_run]
  change (if s.isCollecting = true then _ else _ : Action Value) _ = _
  split
  · rfl
  · rfl

theorem after_comeBackOf : Commutes (·.after p) Builtin.comeBackOf := by
  intro s
  cases h : s.returns with
  | nil =>
    rw [Builtin.comeBackOf_of_nil h, Builtin.comeBackOf_of_nil (s := s.after p) h]
    rfl
  | cons back outer =>
    rw [Builtin.comeBackOf_of_cons h, Builtin.comeBackOf_of_cons (s := s.after p) h]
    rfl

theorem after_labelOf (site : Site) (x : Operand) :
    Commutes (·.after p) (Builtin.labelOf site x) :=
  Builtin.commutes_labelOf (f := (·.after p)) (fun _ ↦ rfl) (fun _ ↦ rfl) (fun _ _ ↦ rfl) site x

theorem Commutes.inCall {f : Session → Session} (hbinders : ∀ s, (f s).binders = s.binders)
    (hput : ∀ s b, { f s with binders := b } = f { s with binders := b }) (c : Closure)
    (args : Frame) {act : Action α} (h : Commutes f act) :
    Commutes f (Action.inCall c args act) := by
  intro s
  cases hfull : s.binders.isFull with
  | true =>
    rw [inCall_of_isFull hfull, inCall_of_isFull ((hbinders s).symm ▸ hfull), hbinders]
    rfl
  | false =>
    rw [inCall_of_not_isFull hfull, inCall_of_not_isFull ((hbinders s).symm ▸ hfull), hput, h,
      hbinders]
    cases act { s with binders := s.binders.enter c args } with
    | ok a s' => exact congrArg _ (hput s' s.binders)
    | error e s' => exact congrArg _ (hput s' s.binders)

/-- All computations do the same after a past. -/
@[reducible]
def afterwards (site : Site) (p : Past) : Trait site where
  holds act := Commutes (·.after p) act
  permits _ := true
  pure a := .pure a
  bind := .bind_of_ok
  detached h := h.after p
  assign name v :=
    Action.commutes_assign (f := (·.after p)) (fun _ ↦ ⟨rfl, rfl, rfl, rfl, fun _ ↦ rfl⟩) name v
  write _ _ base way index name v := (Operand.apart_store_element base way index name v _).after p
  binders _ h := .get (fun _ ↦ rfl) fun s ↦ h s.binders
  inCall c args h := .inCall (f := (·.after p)) (fun _ ↦ rfl) (fun _ _ ↦ rfl) c args h
  loops _ h := .get (fun _ ↦ rfl) fun s ↦ h s.loops
  putLoops _ := .modify fun _ ↦ rfl
  goSub _ := .modify fun _ ↦ rfl
  comeBack _ := after_comeBackOf
  label _ x := after_labelOf site x
  random _ v := Builtin.commutes_randomOf (f := (·.after p)) (fun _ ↦ rfl) (fun _ ↦ rfl)
    ((Builtin.random.detached_number v).after p)
  collectData _ values := after_dataOf values
  nextDatum :=
    Builtin.commutes_nextDatum (f := (·.after p)) (fun _ ↦ rfl) (fun _ ↦ rfl) fun _ ↦ rfl
  restore := .bind (.modify fun _ ↦ rfl) fun _ ↦ .pure _
  clear := .bind (.modify fun _ ↦ rfl) fun _ ↦ .pure _

theorem Commutes.settled {f : Session → Session} {act : Action α} (h : Commutes f act)
    (site : Site) : Commutes f (act.settled site) := by
  intro s
  unfold Action.settled
  rw [h s]
  cases act s with
  | ok a s' => rfl
  | error e s' => rfl

theorem after_evaluate (site : Site) (t : Tree) : Commutes (·.after p) (evaluate site t) :=
  Trait.holds_evaluate (P := afterwards site p) (fun _ ↦ rfl) t

theorem after_execute (site : Site) (t : Tree) : Commutes (·.after p) (execute site t) :=
  ((after_evaluate site t).bind fun x ↦ (x.detached_outcome site).after p).settled site

/-! ## Runs -/

theorem Commutes.unwinding {f : Session → Session} {act : Action α} (h : Commutes f act)
    (hf : ∀ s, (f s).unwind = f s.unwind) : Commutes f act.unwinding := by
  intro s
  unfold Action.unwinding
  rw [h s]
  cases act s with
  | ok a s' => rfl
  | error e s' =>
    cases e with
    | fault fault => exact congrArg _ (hf s')
    | _ => rfl

theorem after_listing : Commutes (·.after p) Action.listing :=
  .get (fun _ ↦ rfl) fun s ↦ (Detached.mapM (fun l : Nat × String ↦
    .bind (detached_parse (some l.1) l.2) fun _ ↦ .pure _) s.program.lines).after p

theorem after_trace (line : Int) : Commutes (·.after p) (Action.trace line) := by
  refine .modify fun s ↦ ?_
  rw [apply_ite (Session.after · p)]
  rfl

/-- Whole rounds of polls before make no difference to a poll. -/
theorem Console.poll_after (c : Console) (p : Past) :
    (c.after p).poll = (c.poll.1, c.poll.2.after p) := by
  cases h : c.breakEvery with
  | none => simp [poll, after, h, Nat.add_right_comm]
  | some n =>
    simp only [poll, after, h, Option.getD_some, Nat.add_right_comm c.polls _ 1,
      Nat.add_mul_mod_self_right]

theorem after_poll : Commutes (·.after p) Action.poll := by
  intro s
  change EStateM.Result.ok (s.console.after p).poll.1
    { s.after p with console := (s.console.after p).poll.2 } = _
  rw [Console.poll_after]
  rfl

theorem after_listingFor (r : Run) (site : Site) : Commutes (·.after p) (r.listingFor site) := by
  rw [Run.listingFor]
  cases r.listing with
  | some lines => exact .pure _
  | none =>
    refine .get (fun _ ↦ rfl) fun s ↦ ?_
    split
    · exact after_listing.bind fun _ ↦ .pure _
    · exact .pure _

theorem after_after (r : Run) (site : Site) (statement : Option Tree) :
    Commutes (·.after p) (r.after site statement) := by
  cases statement with
  | none => exact .pure _
  | some t =>
    exact (after_execute site t).bind fun q ↦ (after_listingFor r q.2).bind fun _ ↦ .pure _

theorem after_step (r : Run) : Commutes (·.after p) r.step := by
  rw [Run.step]
  cases r.next? with
  | none => exact .pure _
  | some next =>
    obtain ⟨site, statement⟩ := next
    refine (after_trace _).bind fun _ ↦ (after_after r site statement).bind fun r' ↦ ?_
    refine .get (fun _ ↦ rfl) fun s ↦ ?_
    split
    · refine after_poll.bind fun stop ↦ ?_
      split
      · exact ((Action.detached_print _).bind fun _ ↦ .pure _).after p
      · exact .pure _
    · exact .pure _

theorem after_finish (fuel : Nat) (r : Run) : Commutes (·.after p) (r.finish fuel) := by
  induction fuel generalizing r with
  | zero => exact (Detached.throw _).after p
  | succ fuel ih =>
    refine (after_step r).bind fun progress ↦ ?_
    cases progress with
    | going r' => exact ih r'
    | ended v => exact .pure _

theorem after_complete (r : Run) : Commutes (·.after p) r.complete := by
  refine Commutes.unwinding (.get (fun _ ↦ rfl) fun s ↦ ?_) fun _ ↦ rfl
  exact (after_finish s.fuel r).bind fun _ ↦ .bind (.modify fun _ ↦ rfl) fun _ ↦ .pure _

theorem after_collect (lines : Listing) : Commutes (·.after p) (collect lines) := by
  have hall : Commutes (·.after p) lines.executeCollected := by
    unfold Listing.executeCollected
    induction lines.collected with
    | nil => exact .pure _
    | cons e rest ih => exact ((after_execute e.1 e.2).bind fun _ ↦ .pure _).bind fun _ ↦ ih
  intro s
  rw [collect_eq, collect_eq]
  have hrun : lines.executeCollected.unwinding { s.after p with isCollecting := true } = _ :=
    hall.unwinding (fun _ ↦ rfl) { s with isCollecting := true }
  rw [hrun]
  cases lines.executeCollected.unwinding { s with isCollecting := true } with
  | ok _ s' => rfl
  | error e s' => rfl

/-- What happened before a run of the stored program stands before what happens in it, and changes
nothing. -/
theorem after_runProgram (p : Past) : Commutes (·.after p) runProgram := by
  have hstart : Commutes (·.after p) startProgram :=
    .bind (.modify fun _ ↦ rfl) fun _ ↦ after_listing.bind fun lines ↦
      (after_collect lines).bind fun _ ↦ (detached_checkInterval.after p).bind fun _ ↦ .pure _
  exact hstart.bind fun r ↦ (after_complete r).bind fun _ ↦ .pure _

/-- A run of the stored program starts with a reset, so it is the same from sessions that a reset
makes the same. -/
theorem runProgram_of_reset {s s' : Session} (h : s'.reset = s.reset) :
    runProgram s' = runProgram s := by
  have hstart (s : Session) : startProgram s = (do
      let lines ← Action.listing
      collect lines
      Action.checkInterval
      return { listing := some lines, site := ⟨1, 0⟩ } : Action Run) s.reset := rfl
  change EStateM.bind startProgram _ s' = EStateM.bind startProgram _ s
  unfold EStateM.bind
  rw [hstart s', h, ← hstart s]

/-! ## Configured sessions -/

namespace Session

/-- A session that is configured in a way. -/
structure IsConfigured (c : Settings) (s : Session) : Prop where
  settings : s.settings = c
  isProduction : s.isProduction = c.production
  limit : s.binders.limit = c.maxDepth

/-- A configured session in which labels and data are not being collected. -/
structure IsSetUp (c : Settings) (s : Session) : Prop extends s.IsConfigured c where
  isCollecting : s.isCollecting = false

/-- A session that is configured as another one, and is collecting if that is. -/
structure SameSetup (s s' : Session) : Prop where
  settings : s'.settings = s.settings
  isProduction : s'.isProduction = s.isProduction
  limit : s'.binders.limit = s.binders.limit
  isCollecting : s'.isCollecting = s.isCollecting

variable {c : Settings} {s s' : Session}

theorem IsConfigured.of_same (h : s.IsConfigured c) (hs' : s.SameSetup s') : s'.IsConfigured c :=
  ⟨hs'.settings.trans h.settings, hs'.isProduction.trans h.isProduction, hs'.limit.trans h.limit⟩

theorem IsSetUp.of_same (h : s.IsSetUp c) (hs' : s.SameSetup s') : s'.IsSetUp c :=
  ⟨h.toIsConfigured.of_same hs', hs'.isCollecting.trans h.isCollecting⟩

theorem SameText.sameSetup (h : s.SameText s') : s.SameSetup s' :=
  ⟨h.settings, h.isProduction, congrArg Binders.Stack.limit h.binders, h.isCollecting⟩

end Session

section
variable (c : Settings)

/-- Statements leave the configuration alone. -/
theorem sameSetup_execute (site : Site) (t : Tree) (s : Session) :
    Ends s.SameSetup (fun _ ↦ True) (fun _ ↦ True) (execute site t s) := by
  have hbinders := balances_execute site t s
  obtain ⟨q, s', heq, hevolves⟩ | ⟨stop, s', heq, hevolves, -⟩ := closes_execute site t s
  all_goals
    rw [heq] at hbinders ⊢
  · exact .ok trivial ⟨hevolves.settings, hevolves.isProduction,
      congrArg Binders.Stack.limit hbinders.of_ok.2, hevolves.isCollecting⟩
  · exact .error trivial ⟨hevolves.settings, hevolves.isProduction,
      congrArg Binders.Stack.limit hbinders.of_error.2, hevolves.isCollecting⟩

theorem keeps_execute_isConfigured (site : Site) (t : Tree) :
    Keeps (Session.IsConfigured c) (fun _ ↦ True) (execute site t) :=
  ⟨fun s hs ↦ (sameSetup_execute site t s).mono (fun _ ↦ hs.of_same) (fun _ ↦ id) fun _ ↦ id⟩

theorem endures_isSetUp : Endures (Session.IsSetUp c) where
  books hs hs' := hs.of_same hs'.sameSetup
  unwind hs := ⟨⟨hs.settings, hs.isProduction, hs.limit⟩, hs.isCollecting⟩
  returned hs := ⟨⟨hs.settings, hs.isProduction, hs.limit⟩, hs.isCollecting⟩
  reset hs := ⟨⟨hs.settings, hs.isProduction, hs.limit⟩, hs.isCollecting⟩
  execute site t _ :=
    ⟨fun s hs ↦ (sameSetup_execute site t s).mono (fun _ ↦ hs.of_same) (fun _ ↦ id) fun _ ↦ id⟩
  collect {lines} _ := by
    have hconfigured : Keeps (Session.IsConfigured c) (fun _ ↦ True) (collect lines) :=
      keeps_collect (fun _ hs ↦ ⟨hs.settings, hs.isProduction, hs.limit⟩)
        (fun hs ↦ ⟨hs.settings, hs.isProduction, hs.limit⟩)
        fun e _ ↦ keeps_execute_isConfigured c e.1 e.2
    refine ⟨fun s hs ↦ ?_⟩
    exact ((hconfigured.run s hs.toIsConfigured).and (isCollecting_of_collect lines s)).mono
      (fun _ h ↦ ⟨h.1, h.2⟩) (fun _ _ ↦ trivial) fun _ _ ↦ trivial

end

namespace Dialogue

/-- The dialogues that a host can come to with a configuration.  Between turns, it may do to the
session whatever it likes, as long as it leaves the configuration alone and does not itself start to
collect labels and data: queue input, ask for a stop, edit the program, change variables. -/
inductive Configured (c : Settings) : Dialogue → Prop
  | start (console : Console) (bus : Bus) (seed : UInt64) (files : FileStore) :
      Configured c { session := .start c console bus seed, files }
  | done {d d' turn} (h : Configured c d) (hd' : Turn.exchange turn d = .ok () d') : Configured c d'
  | failed {d d' turn failure} (h : Configured c d)
      (hd' : Turn.exchange turn d = .error failure d') : Configured c d'
  | outside {d d'} (h : Configured c d) (hd' : d.session.SameSetup d'.session) : Configured c d'

variable {c : Settings} {d : Dialogue}

theorem keeps_exchange_isSetUp (c : Settings) (turn : Turn) :
    Keeps (Has (Session.IsSetUp c)) (fun _ ↦ True) turn.exchange := by
  have hP := endures_isSetUp c
  have hedit {s : Session} (p : Program) (hs : s.IsSetUp c) :
      Session.IsSetUp c { s with program := p } :=
    ⟨⟨hs.settings, hs.isProduction, hs.limit⟩, hs.isCollecting⟩
  cases turn with
  | submit text =>
    exact .bind (keeps_submit hP (Entry.respects (P := Session.IsSetUp c) hP.reset hedit _))
      fun _ _ ↦ .pure trivial
  | type text => exact keeps_onSession (.bind (keeps_runTyped hP text) fun _ _ ↦ .pure trivial)
  | run => exact keeps_onSession (keeps_runProgram hP)
  | load content =>
    exact keeps_onSession (keeps_replaceProgram (P := Session.IsSetUp c) hP.reset hedit content)

theorem Configured.isSetUp (h : Configured c d) : d.session.IsSetUp c := by
  induction h with
  | start console bus seed files => exact ⟨⟨rfl, rfl, rfl⟩, rfl⟩
  | done _ hd' ih => exact (hd' ▸ (keeps_exchange_isSetUp c _).run _ ih).of_ok.2
  | failed _ hd' ih => exact (hd' ▸ (keeps_exchange_isSetUp c _).run _ ih).of_error.2
  | outside _ hd' ih => exact ih.of_same hd'

end Dialogue

/-! ## Runs under the same conditions -/

/-- The period with which the console breaks off runs on its own. -/
def Console.period (c : Console) : Nat :=
  c.breakEvery.getD 1

/-- Two consoles that give the same answers to the polls to come. -/
structure Console.SameAnswers (c c' : Console) : Prop where
  stopRequested : c'.stopRequested = c.stopRequested
  breakEvery : c'.breakEvery = c.breakEvery
  polls : c'.polls % c.period = c.polls % c.period

namespace Session

/-- Two sessions with the same stored program, flags, queued input, memory bus and random
numbers. -/
structure SameConditions (s s' : Session) : Prop where
  program : s'.program = s.program
  isDebugging : s'.isDebugging = s.isDebugging
  isTracing : s'.isTracing = s.isTracing
  input : s'.console.input = s.console.input
  bus : s'.bus = s.bus
  random : s'.random = s.random

/-- Two sessions that are in the same state, apart from what was printed, polled and traced. -/
structure SameState (s s' : Session) : Prop extends s.SameConditions s' where
  heap : s'.heap = s.heap
  vars : s'.vars = s.vars
  labels : s'.labels = s.labels
  data : s'.data = s.data
  cursor : s'.cursor = s.cursor
  indexBase : s'.indexBase = s.indexBase
  returns : s'.returns = s.returns
  loops : s'.loops = s.loops
  binders : s'.binders = s.binders

theorem sameState_after (s : Session) (p p' : Past) : (s.after p).SameState (s.after p') :=
  ⟨⟨rfl, rfl, rfl, rfl, rfl, rfl⟩, rfl, rfl, rfl, rfl, rfl, rfl, rfl, rfl, rfl⟩

/-- The past of a session. -/
def past (s : Session) : Past where
  output := s.console.output
  rounds := s.console.polls / s.console.period
  traced := s.traced

/-- The session without its past. -/
def withoutPast (s : Session) : Session :=
  { s with
    console := { s.console with output := "", polls := s.console.polls % s.console.period }
    traced := [] }

theorem after_past (s : Session) : s.withoutPast.after s.past = s := by
  have hpolls : s.console.polls % s.console.period +
      s.console.polls / s.console.period * s.console.period = s.console.polls :=
    Nat.mod_add_div' _ _
  have hconsole : s.withoutPast.console.after s.past = s.console := by
    change { s.console with
      output := s.console.output ++ ""
      polls := s.console.polls % s.console.period +
        s.console.polls / s.console.period * s.console.period } = s.console
    rw [hpolls, String.append_empty]
  change { s with console := s.withoutPast.console.after s.past } = s
  rw [hconsole]

/-- Configured sessions under the same conditions are the same after a reset, apart from their
past. -/
theorem reset_withoutPast {c : Settings} {s s' : Session} (h : s.IsSetUp c) (h' : s'.IsSetUp c)
    (hsame : s.SameConditions s') (hanswers : s.console.SameAnswers s'.console) :
    s'.withoutPast.reset = s.withoutPast.reset := by
  have hconsole : s'.withoutPast.console = s.withoutPast.console := by
    have hperiod : s'.console.period = s.console.period := by
      rw [Console.period, hanswers.breakEvery, Console.period]
    change Console.mk "" s'.console.input s'.console.stopRequested
      (s'.console.polls % s'.console.period) s'.console.breakEvery = _
    rw [hperiod, hanswers.polls, hanswers.breakEvery, hanswers.stopRequested, hsame.input]
    rfl
  have hbinders : s'.binders.reset = s.binders.reset := by
    rw [Binders.Stack.reset, Binders.Stack.reset, h.limit, h'.limit]
  have hsettings : s'.settings = s.settings := h'.settings.trans h.settings.symm
  have hproduction : s'.isProduction = s.isProduction := h'.isProduction.trans h.isProduction.symm
  have hcollecting : s'.isCollecting = s.isCollecting := h'.isCollecting.trans h.isCollecting.symm
  change Session.mk s'.settings s'.program .initial .empty s'.binders.reset [] [] {} [] 0
    s'.settings.indexBase s'.isDebugging s'.isTracing s'.isProduction s'.isCollecting
    s'.withoutPast.console s'.bus s'.random [] = _
  rw [hconsole, hbinders, hsettings, hproduction, hcollecting, hsame.program, hsame.isDebugging,
    hsame.isTracing, hsame.bus, hsame.random]
  rfl

end Session

/-- What is compared: sessions in the same state, after a text was printed in both since they were
two given ones. -/
@[reducible]
def printing (s s' : Session) (text : String) : Likeness where
  sessions t t' := t.console.output = s.console.output ++ text ∧
    t'.console.output = s'.console.output ++ text ∧ t.SameState t'
  stops := Eq
  leaves _ := False
  escapes _ := False

namespace Dialogue

/-- Whatever happened in two dialogues before, their sessions run the stored program in the same way
under the same conditions: both runs end, in the same state, after they printed the same text, or
they stop in the same way. -/
theorem runProgram_of_sameConditions {c : Settings} {d d' : Dialogue} (h : Configured c d)
    (h' : Configured c d') (hsame : d.session.SameConditions d'.session)
    (hanswers : d.session.console.SameAnswers d'.session.console) :
    ∃ text, Beside (printing d.session d'.session text) Eq (runProgram d.session)
      (runProgram d'.session) := by
  have hrun (s : Session) : runProgram s = atEnd (·.after s.past) (runProgram s.withoutPast) := by
    have hafter : runProgram (s.withoutPast.after s.past) = _ :=
      after_runProgram s.past s.withoutPast
    rwa [s.after_past] at hafter
  have hreset := Session.reset_withoutPast h.isSetUp h'.isSetUp hsame hanswers
  rw [hrun d.session, hrun d'.session, runProgram_of_reset hreset]
  cases runProgram d.session.withoutPast with
  | ok _ s => exact ⟨s.console.output, .ok rfl ⟨rfl, rfl, s.sameState_after _ _⟩⟩
  | error e s => exact ⟨s.console.output, .error rfl ⟨rfl, rfl, s.sameState_after _ _⟩⟩

theorem Configured.afterLine {c : Settings} {d : Dialogue} (h : Configured c d) (line : String) :
    Configured c (d.afterLine line) := by
  have hexchange : Turn.exchange (.submit line) d =
      (do let _ ← Dialogue.submit line : Exchange Unit) d := rfl
  unfold Dialogue.afterLine
  cases hsubmit : submit line d with
  | ok goesOn d' =>
    have hdone : Turn.exchange (.submit line) d = .ok () d' :=
      hexchange.trans ((bind_run_of_ok hsubmit).trans rfl)
    exact h.done hdone
  | error failure d' =>
    have hfailed : Turn.exchange (.submit line) d = .error failure d' :=
      hexchange.trans (bind_run_eq_error.2 (.inl hsubmit))
    exact h.failed hfailed

theorem Configured.afterLines {c : Settings} {d : Dialogue} (h : Configured c d)
    (lines : List String) : Configured c (lines.foldl Dialogue.afterLine d) := by
  induction lines generalizing d with
  | nil => exact h
  | cons line lines ih => exact ih (h.afterLine line)

/-- The dialogue after typed lines, from its start. -/
def typing (lines : List String) : Dialogue :=
  lines.foldl afterLine { session := .start {} {} .unavailable 0 }

theorem configured_typing (lines : List String) : Configured {} (typing lines) :=
  .afterLines (.start {} .unavailable 0 (.memory {})) lines

/-- One of the dialogues ran a program that failed in a loop, before it was given the program, the
memory bus and the random numbers of the other one. -/
theorem runProgram_of_sameConditions_after_failure :
    let d := typing ["10 PRINT \"A\"", "20 PRINT X"]
    let before := typing ["10 FOREACH X IN {TRUE} : PRINT Y", "RUN"]
    let d' := { before with
      session.program := d.session.program
      session.bus := d.session.bus
      session.random := d.session.random }
    ∃ text, Beside (printing d.session d'.session text) Eq (runProgram d.session)
      (runProgram d'.session) := by
  intro d before d'
  have hbefore : Configured {} before := configured_typing _
  obtain ⟨hdebugging, htracing, hinput, hstop, hbreak, hpolls⟩ :
      d'.session.isDebugging = d.session.isDebugging ∧ d'.session.isTracing = d.session.isTracing ∧
      d'.session.console.input = d.session.console.input ∧
      d'.session.console.stopRequested = d.session.console.stopRequested ∧
      d'.session.console.breakEvery = d.session.console.breakEvery ∧
      d'.session.console.polls % d.session.console.period =
        d.session.console.polls % d.session.console.period := by
    decide +kernel
  exact runProgram_of_sameConditions (configured_typing _) (hbefore.outside ⟨rfl, rfl, rfl, rfl⟩)
    ⟨rfl, hdebugging, htracing, hinput, rfl, rfl⟩ ⟨hstop, hbreak, hpolls⟩

/-- A stop that was asked for before a run, and is waiting, breaks the run off. -/
theorem runProgram_of_stopRequested : ∃ c d d', Configured c d ∧ Configured c d' ∧
    d.session.SameConditions d'.session ∧
    ¬ ∃ text, Beside (printing d.session d'.session text) Eq (runProgram d.session)
      (runProgram d'.session) := by
  let d := typing ["10 PRINT \"A\"", "20 PRINT \"B\""]
  let d' := { d with session.console := d.session.console.requestStop }
  have hconfigured : Configured {} d := configured_typing _
  refine ⟨{}, d, d', hconfigured, hconfigured.outside ⟨rfl, rfl, rfl, rfl⟩,
    ⟨rfl, rfl, rfl, rfl, rfl, rfl⟩, fun ⟨text, hbeside⟩ ↦ ?_⟩
  have hrun : ∃ a s, runProgram d.session = .ok a s ∧ s.console.output = "A\nB\n" := by
    decide +kernel
  have hrun' : ∃ a s, runProgram d'.session = .ok a s ∧ s.console.output = "A\nBreak in 10\n" := by
    decide +kernel
  obtain ⟨a, s, heq, hprints⟩ := hrun
  obtain ⟨a', s', heq', hprints'⟩ := hrun'
  rw [heq, heq'] at hbeside
  cases hbeside with
  | ok _ hs =>
    obtain ⟨htext, htext', -⟩ := hs
    have hsame : s'.console.output = s.console.output := htext'.trans htext.symm
    rw [hprints, hprints'] at hsame
    exact absurd hsame (by decide)

end Dialogue
end LineBasic
