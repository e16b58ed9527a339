import LineBasic.Proofs.Run.Machine
import LineBasic.Proofs.Safety.Execution

/-!
# Runs that fail

A run of the stored program can fail at a line that cannot be parsed, while labels and data are
collected, or at one of its statements, at any depth of calls, loops and subroutines.  However it
fails, none of these are under way afterwards.  All lines are parsed before anything is executed, so
a line that cannot be parsed leaves the session as the reset made it.

Whether labels and data are being collected is noted in the session.  The note is taken back however
the collecting ends, so that a host never finds it.

* `Session.IsIdle` — nothing is under way.
* `Dialogue.Hosted` — the dialogues of a host that leaves the note alone.
* `runProgram_failure` — runs of the stored program.
* `runTyped_failure` — runs of typed lines, after which nothing is under way either, unless the line
  could not be parsed.
-/

set_option autoImplicit false
namespace LineBasic

/-- No loops, subroutines and calls are under way, and no frames are in force. -/
structure Session.IsIdle (s : Session) : Prop where
  returns : s.returns = []
  loops : s.loops = []
  frames : s.binders.frames = []
  calls : s.binders.calls = []

/-! ## The note of collecting -/

namespace Session

variable {s s' : Session}

theorem Change.isCollecting (h : s.Change s') : s'.isCollecting = s.isCollecting := by
  cases h with
  | assigned h =>
    obtain ⟨vars, -, rfl⟩ := eq_of_assign h
    rfl
  | _ => rfl

theorem Evolves.isCollecting (h : s.Evolves s') : s'.isCollecting = s.isCollecting := by
  induction h with
  | refl => rfl
  | tail _ hchange ih => exact hchange.isCollecting.trans ih

end Session

theorem isCollecting_of_collect (lines : Listing) (s : Session) :
    Ends (fun s' ↦ s'.isCollecting = false) (fun _ ↦ True) (fun _ ↦ True) (collect lines s) := by
  unfold collect
  simp only
  split
  · exact .ok trivial rfl
  · exact .error trivial rfl

theorem outlasts_not_isCollecting : Outlasts fun s ↦ s.isCollecting = false where
  books hs hs' := hs'.isCollecting.trans hs
  unwind := id
  returned := id
  reset := id
  execute site t _ := by
    refine ⟨fun s hs ↦ ?_⟩
    obtain ⟨p, s', heq, hevolves⟩ | ⟨stop, s', heq, hevolves, -⟩ := closes_execute site t s
    · exact heq ▸ .ok trivial (hevolves.isCollecting.trans hs)
    · exact heq ▸ .error trivial (hevolves.isCollecting.trans hs)
  collect _ := ⟨fun s _ ↦ isCollecting_of_collect _ s⟩

/-- The dialogues that a host can come to that does not itself note that labels and data are being
collected. -/
inductive Dialogue.Hosted : Dialogue → Prop
  | start (settings : Settings) (console : Console) (bus : Bus) (seed : UInt64)
      (files : FileStore) : Hosted { session := .start settings console bus seed, files }
  | done {d d' turn} (h : Hosted d) (hd' : Turn.exchange turn d = .ok () d') : Hosted d'
  | failed {d d' turn failure} (h : Hosted d) (hd' : Turn.exchange turn d = .error failure d') :
      Hosted d'
  | outside {d d'} (h : Hosted d) (hd' : d.session.SameWork d'.session) : Hosted d'

theorem Dialogue.Hosted.isCollecting {d : Dialogue} (h : Hosted d) :
    d.session.isCollecting = false := by
  induction h with
  | start settings console bus seed files => rfl
  | done _ hd' ih =>
    exact (hd' ▸ (Turn.keeps_exchange outlasts_not_isCollecting _).run _ ih).of_ok.2
  | failed _ hd' ih =>
    exact (hd' ▸ (Turn.keeps_exchange outlasts_not_isCollecting _).run _ ih).of_error.2
  | outside _ hd' ih => exact hd'.isCollecting.trans ih

/-! ## Faults of runs -/

section
variable {α : Type} {s s' : Session} {f : Fault}

theorem Action.unwinding_eq_fault {act : Action α}
    (h : act.unwinding s = .error (.fault f) s') :
    ∃ s₁, act s = .error (.fault f) s₁ ∧ s' = s₁.unwind := by
  unfold Action.unwinding at h
  split at h
  · cases h
    exact ⟨_, ‹_›, rfl⟩
  · rename_i hother
    exact absurd h (hother _ _)

theorem Session.isIdle_unwind (s : Session) : s.unwind.IsIdle :=
  ⟨rfl, rfl, rfl, rfl⟩

theorem Session.isIdle_reset (s : Session) : s.reset.IsIdle :=
  ⟨rfl, rfl, rfl, rfl⟩

/-- Reading the lines of the program changes nothing. -/
theorem eq_of_listing_error {stop : Stop} (h : Action.listing s = .error stop s') : s' = s :=
  (h ▸ (keeps_listing (P := (· = s))).run s rfl).of_error.2

/-- Collecting fails as the statements do that are executed for it. -/
theorem exists_of_collect_eq_fault {lines : Listing}
    (h : collect lines s = .error (.fault f) s') :
    ∃ s₁, (lines.collected.forM fun e ↦ do let _ ← execute e.1 e.2 : Action Unit)
      { s with isCollecting := true } = .error (.fault f) s₁ ∧
      s' = { s₁.unwind with isCollecting := false } := by
  unfold collect at h
  simp only at h
  split at h
  · cases h
  · rename_i heq
    cases h
    obtain ⟨s₁, hforM, rfl⟩ := Action.unwinding_eq_fault heq
    exact ⟨s₁, hforM, rfl⟩

theorem checkInterval_cases (s : Session) :
    Action.checkInterval s = .ok () s ∨ Action.checkInterval s = .error .misfit s := by
  rw [Action.checkInterval, get_bind_run]
  cases s.settings.interval with
  | other => exact .inr rfl
  | _ => exact .inl rfl

/-- A run fails to start as its lines are read, or as labels and data are collected; a setting that
does not fit is no fault. -/
theorem startProgram_cases (h : startProgram s = .error (.fault f) s') :
    Action.listing s.reset = .error (.fault f) s' ∨
      ∃ lines s₁, Action.listing s.reset = .ok lines s₁ ∧
        collect lines s₁ = .error (.fault f) s' := by
  change (Action.listing >>= fun lines ↦ _) s.reset = _ at h
  obtain h | ⟨lines, s₁, hlisting, h⟩ := bind_run_eq_error.1 h
  · exact .inl h
  obtain h | ⟨_, s₂, -, h⟩ := bind_run_eq_error.1 h
  · exact .inr ⟨lines, s₁, hlisting, h⟩
  obtain h | ⟨_, s₃, -, h⟩ := bind_run_eq_error.1 h
  · obtain heq | heq := checkInterval_cases s₂
    · cases heq.symm.trans h
    · cases heq.symm.trans h
  · cases h

theorem startProgram_eq_fault (h : startProgram s = .error (.fault f) s') : s'.IsIdle := by
  obtain h | ⟨lines, s₁, -, h⟩ := startProgram_cases h
  · rw [eq_of_listing_error h]
    exact s.isIdle_reset
  · obtain ⟨s₂, -, rfl⟩ := exists_of_collect_eq_fault h
    exact ⟨rfl, rfl, rfl, rfl⟩

/-- A run that is completed fails as one of its steps does. -/
theorem Run.exists_of_complete_eq_fault {r : Run} (h : r.complete s = .error (.fault f) s') :
    ∃ s₁, r.finish s.fuel s = .error (.fault f) s₁ ∧ s' = s₁.unwind := by
  obtain ⟨s₁, hrun, rfl⟩ := Action.unwinding_eq_fault h
  rw [get_bind_run] at hrun
  obtain hfinish | ⟨_, s₂, -, hrest⟩ := bind_run_eq_error.1 hrun
  · exact ⟨s₁, hfinish, rfl⟩
  · cases hrest

theorem Run.complete_eq_fault {r : Run} (h : r.complete s = .error (.fault f) s') : s'.IsIdle := by
  obtain ⟨s₁, -, rfl⟩ := exists_of_complete_eq_fault h
  exact s₁.isIdle_unwind

theorem runProgram_cases (h : runProgram s = .error (.fault f) s') :
    startProgram s = .error (.fault f) s' ∨
      ∃ r s₁, startProgram s = .ok r s₁ ∧ r.complete s₁ = .error (.fault f) s' := by
  obtain h | ⟨r, s₁, hstart, h⟩ := bind_run_eq_error.1 h
  · exact .inl h
  obtain h | ⟨_, s₂, -, h⟩ := bind_run_eq_error.1 h
  · exact .inr ⟨r, s₁, hstart, h⟩
  · cases h

theorem runProgram_eq_fault (h : runProgram s = .error (.fault f) s') : s'.IsIdle := by
  obtain h | ⟨r, s₁, -, h⟩ := runProgram_cases h
  · exact startProgram_eq_fault h
  · exact Run.complete_eq_fault h

/-! ## Lines that cannot be parsed -/

theorem parse_eq_error {line : Option Int} {text : String} {stop : Stop}
    (h : parseLine Builtin.isName line text = .error stop) (s : Session) :
    Action.parse line text s = .error stop s := by
  rw [Action.parse, h]
  rfl

/-- Of actions that change nothing, the first one that fails ends the list. -/
theorem mapM_run_eq_error {γ : Type} {g : γ → Action α} {cs : List γ}
    (hstays : ∀ c ∈ cs, ∀ a s₁, g c s = .ok a s₁ → s₁ = s)
    (hfails : ∃ c ∈ cs, ∃ stop, g c s = .error stop s) :
    ∃ c ∈ cs, ∃ stop s₁, g c s = .error stop s₁ ∧ cs.mapM g s = .error stop s₁ := by
  induction cs with
  | nil => simp at hfails
  | cons c cs ih =>
    rw [List.mapM_cons]
    cases hc : g c s with
    | error stop s₁ =>
      exact ⟨c, List.mem_cons_self .., stop, s₁, hc, bind_run_eq_error.2 (.inl hc)⟩
    | ok a s₁ =>
      obtain rfl := hstays c (List.mem_cons_self ..) a s₁ hc
      obtain ⟨d, hd, stop, hstop⟩ := hfails
      obtain rfl | hd := List.mem_cons.1 hd
      · cases hc.symm.trans hstop
      obtain ⟨e, he, stop', s₂, hstop', hmap⟩ :=
        ih (fun b hb ↦ hstays b (List.mem_cons_of_mem _ hb)) ⟨d, hd, stop, hstop⟩
      exact ⟨e, List.mem_cons_of_mem _ he, stop', s₂, hstop', bind_run_eq_error.2
        (.inr ⟨a, s₁, hc, bind_run_eq_error.2 (.inl hmap)⟩)⟩

/-- A program with a line that cannot be parsed is not run: its lines are read in the reset session,
which remains what it is. -/
theorem runProgram_eq_error {l : Nat × String} (hl : l ∈ s.program.lines) {stop : Stop}
    (h : parseLine Builtin.isName (some l.1) l.2 = .error stop) :
    ∃ l' ∈ s.program.lines, ∃ stop', Action.parse (some l'.1) l'.2 s.reset = .error stop' s.reset ∧
      runProgram s = .error stop' s.reset := by
  let readLine (l : Nat × String) : Action (Nat × Statements) := do
    return (l.1, ← Action.parse (some l.1) l.2)
  have hstays : ∀ l' ∈ s.program.lines, ∀ p s₁, readLine l' s.reset = .ok p s₁ → s₁ = s.reset := by
    intro l' _ p s₁ hp
    obtain ⟨_, _, hparse, hp⟩ := bind_run_eq_ok.1 hp
    cases hp
    exact (hparse ▸ (keeps_parse (P := (· = s.reset)) _ _).run s.reset rfl).of_ok.2
  obtain ⟨l', hl', stop', s₁, hparse, hlisting⟩ := mapM_run_eq_error hstays
    ⟨l, hl, stop, bind_run_eq_error.2 (.inl (parse_eq_error h s.reset))⟩
  obtain hparse | ⟨_, _, -, hparse⟩ := bind_run_eq_error.1 hparse
  · obtain rfl : s₁ = s.reset :=
      (hparse ▸ (keeps_parse (P := (· = s.reset)) _ _).run s.reset rfl).of_error.2
    refine ⟨l', hl', stop', hparse, bind_run_eq_error.2 (.inl ?_)⟩
    exact bind_run_eq_error.2 (.inr ⟨⟨⟩, s.reset, rfl, bind_run_eq_error.2 (.inl hlisting)⟩)
  · cases hparse

end

/-! ## The results -/

/-- A host never finds a session noted as collecting labels and data.  After a run of the stored
program that ended with a fault, nothing is under way, and collecting is not noted unless it was
before.  If a line cannot be parsed, the run fails, with a line that cannot be read in the reset
session, and leaves that session: nothing is printed, and there are no variables, labels and
data. -/
theorem runProgram_failure :
    (∀ d, Dialogue.Hosted d → d.session.isCollecting = false) ∧
    ∀ s : Session,
      (∀ f s', runProgram s = .error (.fault f) s' →
        s'.IsIdle ∧ (s.isCollecting = false → s'.isCollecting = false)) ∧
      ∀ l ∈ s.program.lines, ∀ stop, parseLine Builtin.isName (some l.1) l.2 = .error stop →
        (∃ l' ∈ s.program.lines, ∃ stop',
          Action.parse (some l'.1) l'.2 s.reset = .error stop' s.reset ∧
          runProgram s = .error stop' s.reset) ∧
        s.reset.console = s.console ∧ s.reset.vars = .empty ∧ s.reset.labels = {} ∧
        s.reset.data = [] := by
  refine ⟨fun d hd ↦ hd.isCollecting, fun s ↦ ⟨fun f s' h ↦ ⟨runProgram_eq_fault h, ?_⟩, ?_⟩⟩
  · exact fun hs ↦ (h ▸ (keeps_runProgram outlasts_not_isCollecting.endures).run s hs).of_error.2
  · exact fun l hl stop h ↦ ⟨runProgram_eq_error hl h, rfl, rfl, rfl, rfl⟩

/-- A program that fails in a loop in a subroutine, and one whose last line is cut off. -/
theorem runProgram_failure_in_loop :
    let s : Session := .start {} {} .unavailable 0
    let failing : Session := { s with program :=
      ⟨[(10, "GOSUB 20"), (20, "FOR I = 1 TO 2"), (30, "X = NOWHERE")], by decide⟩ }
    let cut : Session := { s with program := ⟨[(10, "DATA 1"), (20, "X = (")], by decide⟩ }
    (∃ f s', runProgram failing = .error (.fault f) s' ∧ s'.IsIdle ∧ s'.isCollecting = false) ∧
    ∃ stop, runProgram cut = .error stop cut.reset := by
  intro s failing cut
  have hfails : Ends (fun _ ↦ True) (fun _ ↦ False) Stop.IsFault (runProgram failing) := by
    decide +kernel
  have hcut : (parseLine Builtin.isName (some 20) "X = (").isOk = false := by decide +kernel
  constructor
  · obtain ⟨stop, s', h, hfault, -⟩ := hfails.exists_error
    obtain ⟨f, rfl⟩ := hfault.exists_eq
    obtain ⟨hidle, hnote⟩ := (runProgram_failure.2 failing).1 f s' h
    exact ⟨f, s', h, hidle, hnote rfl⟩
  · cases h : parseLine Builtin.isName (some 20) "X = (" with
    | ok statements =>
      rw [h] at hcut
      cases hcut
    | error stop =>
      obtain ⟨⟨l, -, stop', -, hrun⟩, -⟩ :=
        (runProgram_failure.2 cut).2 (20, "X = (") (by simp [cut]) stop h
      exact ⟨stop', hrun⟩

/-! ## Typed lines -/

section
variable {s s' : Session} {f : Fault} {text : String}

/-- A line is refused when it cannot be parsed, or when its statements cannot be written out, which
lies in the values in them. -/
theorem parse_cases {line : Option Int} {stop : Stop} (h : Action.parse line text s = .error stop s') :
    parseLine Builtin.isName line text = .error stop ∨ stop.IsInherent := by
  obtain h | ⟨statements, s₁, -, h⟩ := bind_run_eq_error.1 h
  · left
    cases hparse : parseLine Builtin.isName line text with
    | ok statements =>
      rw [hparse] at h
      cases h
    | error stop' =>
      rw [hparse] at h
      cases h
      rfl
  rw [get_bind_run] at h
  right
  cases hdebugging : s₁.isDebugging with
  | false =>
    rw [hdebugging] at h
    cases h
  | true =>
    rw [hdebugging, if_pos rfl] at h
    obtain h | ⟨_, _, -, h⟩ := bind_run_eq_error.1 h
    · obtain ⟨statement, -, -, s₂, h⟩ := exists_of_forIn_eq_error h
      cases statement with
      | none => cases h
      | some t =>
        change (Action.ofStop (s₂.heap.describeTree t) >>= fun _ ↦ _) s₂ = _ at h
        obtain h | ⟨_, _, -, h⟩ := bind_run_eq_error.1 h
        · have hinherent := s₂.heap.inherent_describeTree t
          cases htext : s₂.heap.describeTree t with
          | ok text =>
            rw [htext] at h
            cases h
          | error stop' =>
            rw [htext] at h
            cases h
            exact hinherent _ htext
        · cases h
    · cases h

/-- Writing the statements of a line out, as debugging does, leads to no fault. -/
theorem parse_eq_fault {line : Option Int}
    (h : Action.parse line text s = .error (.fault f) s') :
    parseLine Builtin.isName line text = .error (.fault f) := by
  obtain h | hinherent := parse_cases h
  · exact h
  · cases hinherent

/-- A line that cannot be parsed leaves the session as it is. -/
theorem runTyped_eq_error {stop : Stop} (h : parseLine Builtin.isName none text = .error stop)
    (s : Session) : runTyped text s = .error stop s :=
  bind_run_eq_error.2 (.inl (bind_run_eq_error.2 (.inl (parse_eq_error h s))))

theorem runTyped_eq_fault (h : runTyped text s = .error (.fault f) s') :
    parseLine Builtin.isName none text = .error (.fault f) ∨ s'.IsIdle := by
  obtain h | ⟨r, s₁, -, h⟩ := bind_run_eq_error.1 h
  · obtain h | ⟨_, s₁, -, h⟩ := bind_run_eq_error.1 h
    · exact .inl (parse_eq_fault h)
    obtain h | ⟨_, _, -, h⟩ := bind_run_eq_error.1 h
    · obtain heq | heq := checkInterval_cases s₁
      · cases heq.symm.trans h
      · cases heq.symm.trans h
    · cases h
  · exact .inr (Run.complete_eq_fault h)

end

/-- A typed line that cannot be parsed fails, and leaves the session as it is.  After any other typed
line that ends with a fault, be it in a line of the program that it jumps to and that cannot be
parsed, nothing is under way. -/
theorem runTyped_failure (text : String) (s : Session) :
    (∀ stop, parseLine Builtin.isName none text = .error stop → runTyped text s = .error stop s) ∧
    ∀ f s', runTyped text s = .error (.fault f) s' →
      (s'.IsIdle ↔ (∃ statements, parseLine Builtin.isName none text = .ok statements) ∨
        s.IsIdle) := by
  refine ⟨fun stop h ↦ runTyped_eq_error h s, fun f s' h ↦ ?_⟩
  cases hparse : parseLine Builtin.isName none text with
  | ok statements =>
    obtain hfault | hidle := runTyped_eq_fault h
    · cases hparse.symm.trans hfault
    · exact iff_of_true hidle (.inl ⟨statements, rfl⟩)
  | error stop =>
    cases (runTyped_eq_error hparse s).symm.trans h
    exact ⟨.inr, fun h ↦ h.resolve_left nofun⟩

/-- A typed line that fails in a subroutine that cannot be parsed, with a loop open. -/
theorem runTyped_failure_in_subroutine :
    let s : Session := { Session.start {} {} .unavailable 0 with
      program := ⟨[(20, "X = (")], by decide⟩
      loops := [⟨"I", .rest [], ⟨typedLine, 0⟩⟩] }
    (∃ f s', runTyped "GOSUB 20" s = .error (.fault f) s' ∧ s'.IsIdle) ∧
    ∃ stop, runTyped "X = (" s = .error stop s := by
  intro s
  have hfails : Ends (fun _ ↦ True) (fun _ ↦ False) Stop.IsFault (runTyped "GOSUB 20" s) := by
    decide +kernel
  have hparsed : (parseLine Builtin.isName none "GOSUB 20").isOk = true := by decide +kernel
  have hcut : (parseLine Builtin.isName none "X = (").isOk = false := by decide +kernel
  constructor
  · obtain ⟨stop, s', h, hfault, -⟩ := hfails.exists_error
    obtain ⟨f, rfl⟩ := hfault.exists_eq
    refine ⟨f, s', h, ((runTyped_failure "GOSUB 20" s).2 f s' h).2 (.inl ?_)⟩
    cases hparse : parseLine Builtin.isName none "GOSUB 20" with
    | ok statements => exact ⟨statements, rfl⟩
    | error stop =>
      rw [hparse] at hparsed
      cases hparsed
  · cases hparse : parseLine Builtin.isName none "X = (" with
    | ok statements =>
      rw [hparse] at hcut
      cases hcut
    | error stop => exact ⟨stop, (runTyped_failure "X = (" s).1 stop hparse⟩

/-- A typed line that cannot be parsed does not close the loop of a line that was typed before. -/
theorem not_forall_runTyped_isIdle :
    ¬ ∀ (line text : String) (v : Value) (s s' : Session) (f : Fault),
      runTyped line (.start {} {} .unavailable 0) = .ok v s →
        runTyped text s = .error (.fault f) s' → s'.IsIdle := by
  intro hall
  have hloop : ∃ v s, runTyped "FOR I = 1 TO 2" (.start {} {} .unavailable 0) = .ok v s ∧
      s.loops ≠ [] := by decide +kernel
  obtain ⟨v, s, hrun, hloops⟩ := hloop
  have hcut : (parseLine Builtin.isName none "X = (").isOk = false := by decide +kernel
  have hfails : Ends (fun _ ↦ True) (fun _ ↦ False) Stop.IsFault
      (runTyped "X = (" (.start {} {} .unavailable 0)) := by decide +kernel
  obtain ⟨stop, s', hfails, hfault, -⟩ := hfails.exists_error
  obtain ⟨f, rfl⟩ := hfault.exists_eq
  cases hparse : parseLine Builtin.isName none "X = (" with
  | ok statements =>
    rw [hparse] at hcut
    cases hcut
  | error stop =>
    cases (runTyped_eq_error hparse _).symm.trans hfails
    exact hloops (hall _ _ v s s f hrun (runTyped_eq_error hparse s)).loops

end LineBasic
