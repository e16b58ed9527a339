import LineBasic.Proofs.Dialogue.Confirmation

/-!
# Loads that fail

A load first looks for a text under the names that it may have been saved under, then clears the
session, and reads the text last.  So a load that finds no text leaves the session as it is; one
that finds a text which is no program has cleared the session by then, and loads nothing.

* `FileStore.findFirst` — the text that a load finds.
* `Dialogue.fulfil_load` — a load, in its cases.
* `Session.SameContent` — what a failed load may have lost.
* `Dialogue.failedLoad_keeps_iff` — the result.
-/

set_option autoImplicit false
namespace LineBasic

/-- The text under the first of several names that there is one under. -/
def FileStore.findFirst (files : FileStore) : List String → Except FileError (Option String)
  | [] => .ok none
  | name :: names => do
    match ← files.read name with
    | some content => return some content
    | none => files.findFirst names

namespace Session

/-- A session that was cleared, without a program. -/
def blank (s : Session) : Session :=
  { s.reset with program := .empty }

/-- Sessions with the same program, variables, labels and data, and the same open loops,
subroutines and parameters. -/
structure SameContent (s s' : Session) : Prop where
  program : s'.program = s.program
  vars : s'.vars = s.vars
  labels : s'.labels = s.labels
  data : s'.data = s.data
  cursor : s'.cursor = s.cursor
  indexBase : s'.indexBase = s.indexBase
  returns : s'.returns = s.returns
  loops : s'.loops = s.loops
  binders : s'.binders = s.binders

/-- A session after which something was printed, and nothing else was done. -/
def Prints (s s' : Session) : Prop :=
  ∃ text, s' = { s with console := s.console.print text }

variable {s s₁ s₂ : Session}

theorem Prints.sameContent (h : s₁.Prints s₂) : s₁.SameContent s₂ := by
  obtain ⟨text, rfl⟩ := h
  exact ⟨rfl, rfl, rfl, rfl, rfl, rfl, rfl, rfl, rfl⟩

theorem SameContent.symm (h : s₁.SameContent s₂) : s₂.SameContent s₁ :=
  ⟨h.program.symm, h.vars.symm, h.labels.symm, h.data.symm, h.cursor.symm, h.indexBase.symm,
    h.returns.symm, h.loops.symm, h.binders.symm⟩

theorem SameContent.trans (h : s.SameContent s₁) (h' : s₁.SameContent s₂) : s.SameContent s₂ :=
  ⟨h'.program.trans h.program, h'.vars.trans h.vars, h'.labels.trans h.labels,
    h'.data.trans h.data, h'.cursor.trans h.cursor, h'.indexBase.trans h.indexBase,
    h'.returns.trans h.returns, h'.loops.trans h.loops, h'.binders.trans h.binders⟩

end Session

/-! ## What a load does -/

/-- The session is cleared before the text is read. -/
theorem Command.replaceProgram_run (content : String) (s : Session) : replaceProgram content s =
    match Program.ofText content with
    | .ok p => .ok () { s.blank with program := p }
    | .error stop => .error stop s.blank := by
  cases hcontent : Program.ofText content <;> simp only [replaceProgram, hcontent] <;> rfl

namespace Dialogue

variable {d d₁ : Dialogue} {line name : String} {failure : Failure}

theorem readFirst_eq (names : List String) : readFirst names d =
    match d.files.findFirst names with
    | .ok found => .ok found d
    | .error e => .error (.file e) d := by
  induction names with
  | nil => rfl
  | cons name names ih =>
    rw [readFirst, get_bind_run, FileStore.findFirst]
    cases d.files.read name with
    | error e => rfl
    | ok found =>
      cases found with
      | some content => rfl
      | none => exact ih

/-- A text that is found takes the place of everything in the session, before it is read. -/
theorem fulfil_load (name : String) : fulfil (.load name) d =
    match d.files.findFirst (Command.loadedNames name) with
    | .error e => .error (.file e) d
    | .ok none => .error (.stop (.fault (Command.noSuchFile name))) d
    | .ok (some content) => match Program.ofText content with
      | .ok p => .ok () { d with session := { d.session.blank with program := p } }
      | .error stop => .error (.stop stop) { d with session := d.session.blank } := by
  have hread := readFirst_eq (d := d) (Command.loadedNames name)
  rw [fulfil]
  cases hfound : d.files.findFirst (Command.loadedNames name) with
  | error e =>
    rw [hfound] at hread
    exact bind_run_eq_error.2 (.inl hread)
  | ok found =>
    rw [hfound] at hread
    rw [bind_run_of_ok hread]
    cases found with
    | none => rfl
    | some content =>
      simp only [Command.finishLoad, onSession, Command.replaceProgram_run]
      cases Program.ofText content <;> rfl

/-- After a line that failed, at most its fault was printed. -/
theorem prints_of_enter_eq_error (hcommand : (entryOfLine line).command? ≠ none)
    (hfail : enter (entryOfLine line) d = .error failure d₁) :
    d₁.session.Prints (d.afterLine line).session := by
  have hshows : Shows d₁ (d.afterLine line) := by
    refine of_afterLine keeps_printLine_shows (fun hempty ↦ ?_) (hfail ▸ .error trivial .refl)
    exact absurd (command?_of_empty hempty) hcommand
  obtain ⟨text, hafter⟩ := hshows
  exact ⟨text, by rw [hafter]⟩

theorem Loads.command?_ne_none (h : Loads d line name) : (entryOfLine line).command? ≠ none := by
  obtain ⟨text, d', hentry, hbegin⟩ := h
  rw [hentry]
  intro hnone
  rw [Entry.command?] at hnone
  rw [beginLine] at hbegin
  cases hwords : Command.lineWords text with
  | nil =>
    rw [hwords] at hbegin
    cases hbegin
  | cons word args =>
    rw [hwords, List.head?_cons, Option.bind_some] at hnone
    simp only [hwords, hnone] at hbegin
    cases hbegin

/-- A line that starts to load does what the load does; but for a confirmation that is not pending
any more, it changes nothing before. -/
theorem Loads.exists_enter_eq (h : Loads d line name) (hd : d.isConfirmed = false) :
    ∃ d' : Dialogue, d'.session = d.session ∧ d'.files = d.files ∧
      enter (entryOfLine line) d = fulfil (.load name) d' := by
  obtain ⟨-, henter⟩ | ⟨-, -, henter⟩ := h.enter_eq hd
  · exact ⟨d, rfl, rfl, henter⟩
  · exact ⟨{ d with pending := none }, rfl, rfl, henter⟩

/-- A load that finds no text fails, and the session is as it was. -/
theorem Loads.enter_of_not_found (h : Loads d line name) (hd : d.isConfirmed = false)
    (hfound : ∀ content, d.files.findFirst (Command.loadedNames name) ≠ .ok (some content)) :
    ∃ failure d₁, enter (entryOfLine line) d = .error failure d₁ ∧ d₁.session = d.session := by
  obtain ⟨d', hsession, hfiles, henter⟩ := h.exists_enter_eq hd
  rw [henter, fulfil_load, hfiles]
  cases hfind : d.files.findFirst (Command.loadedNames name) with
  | error e => exact ⟨_, d', rfl, hsession⟩
  | ok found =>
    cases found with
    | none => exact ⟨_, d', rfl, hsession⟩
    | some content => exact absurd hfind (hfound content)

/-- A load that finds a text fails if the text is no program, and the session was cleared. -/
theorem Loads.enter_of_found {content : String} (h : Loads d line name)
    (hd : d.isConfirmed = false)
    (hfound : d.files.findFirst (Command.loadedNames name) = .ok (some content)) :
    (∃ p d₁, Program.ofText content = .ok p ∧ enter (entryOfLine line) d = .ok () d₁) ∨
    ∃ stop d₁, Program.ofText content = .error stop ∧
      enter (entryOfLine line) d = .error (.stop stop) d₁ ∧ d₁.session = d.session.blank := by
  obtain ⟨d', hsession, hfiles, henter⟩ := h.exists_enter_eq hd
  rw [henter, fulfil_load, hfiles, hfound]
  cases hcontent : Program.ofText content with
  | ok p =>
    simp only [hcontent]
    exact .inl ⟨p, _, rfl, rfl⟩
  | error stop =>
    simp only [hcontent]
    exact .inr ⟨stop, _, rfl, rfl, by rw [hsession]⟩

/-! ## The result -/

/-- A line that starts to load fails if and only if no text is found, or one that is no program.
If none is found, the session stays as it is; otherwise it was cleared.  So a load that fails keeps
the program, the variables, the labels, the data and what is open if and only if it has found no
text, or there was nothing to lose. -/
theorem failedLoad_keeps_iff (hd : d.isConfirmed = false) (h : Loads d line name) :
    let found := d.files.findFirst (Command.loadedNames name)
    ((∃ failure d₁, enter (entryOfLine line) d = .error failure d₁) ↔
      ∀ content, found = .ok (some content) → ∃ stop, Program.ofText content = .error stop) ∧
    ∀ failure d₁, enter (entryOfLine line) d = .error failure d₁ →
      ((∀ content, found ≠ .ok (some content)) → d.session.Prints (d.afterLine line).session) ∧
      (∀ content, found = .ok (some content) →
        d.session.blank.Prints (d.afterLine line).session) ∧
      (d.session.SameContent (d.afterLine line).session ↔
        (∀ content, found ≠ .ok (some content)) ∨ d.session.SameContent d.session.blank) := by
  intro found
  have hprints {failure : Failure} {d₁ : Dialogue}
      (hfail : enter (entryOfLine line) d = .error failure d₁) :
      d₁.session.Prints (d.afterLine line).session :=
    prints_of_enter_eq_error h.command?_ne_none hfail
  by_cases hfound : ∃ content, found = .ok (some content)
  · obtain ⟨content, hfound⟩ := hfound
    have hsome : ¬ ∀ content, found ≠ .ok (some content) := fun hnone ↦ hnone content hfound
    obtain ⟨p, d', hread, hdone⟩ | ⟨stop, d', hread, hfail, hblank⟩ :=
      h.enter_of_found hd hfound
    · refine ⟨iff_of_false ?_ fun hall ↦ ?_, fun failure d₁ hfail ↦ ?_⟩
      · rintro ⟨failure, d₁, hfail⟩
        rw [hdone] at hfail
        cases hfail
      · obtain ⟨stop, hstop⟩ := hall content hfound
        rw [hread] at hstop
        cases hstop
      · rw [hdone] at hfail
        cases hfail
    · have hafter : d.session.blank.Prints (d.afterLine line).session := hblank ▸ hprints hfail
      refine ⟨iff_of_true ⟨_, _, hfail⟩ fun other hother ↦ ?_, fun _ _ _ ↦
        ⟨fun hnone ↦ absurd hnone hsome, fun _ _ ↦ hafter, fun hsame ↦ ?_, fun hkept ↦ ?_⟩⟩
      · cases hfound.symm.trans hother
        exact ⟨stop, hread⟩
      · exact .inr (hsame.trans hafter.sameContent.symm)
      · exact (hkept.resolve_left hsome).trans hafter.sameContent
  · have hnone : ∀ content, found ≠ .ok (some content) := fun content hsome ↦
      hfound ⟨content, hsome⟩
    obtain ⟨failure, d', hfail, hsession⟩ := h.enter_of_not_found hd hnone
    have hafter : d.session.Prints (d.afterLine line).session := hsession ▸ hprints hfail
    exact ⟨iff_of_true ⟨_, _, hfail⟩ fun content hsome ↦ absurd hsome (hnone content),
      fun _ _ _ ↦ ⟨fun _ ↦ hafter, fun content hsome ↦ absurd hsome (hnone content),
        iff_of_true hafter.sameContent (.inl hnone)⟩⟩

/-- A dialogue where a program was stored, and a text that is none is to be loaded over it. -/
def overwriting : Dialogue where
  session := { Session.start {} {} .unavailable 0 with program := Program.empty.storeAt 10 "END" }
  files := .memory ⟨[("draft", "END\n")]⟩
  pending := some ["draft"]

theorem failedLoad_keeps_iff_overwriting :
    overwriting.isConfirmed = false ∧ Loads overwriting "YES" "draft" ∧
      overwriting.files.findFirst (Command.loadedNames "draft") = .ok (some "END\n") ∧
      ∃ failure d₁, enter (entryOfLine "YES") overwriting = .error failure d₁ ∧
        ¬ overwriting.session.SameContent (overwriting.afterLine "YES").session := by
  have hloads : Loads overwriting "YES" "draft" := loads_yes rfl
  have hfound : overwriting.files.findFirst (Command.loadedNames "draft") = .ok (some "END\n") :=
    rfl
  have h := failedLoad_keeps_iff rfl hloads
  obtain ⟨failure, d₁, hfail⟩ := h.1.2 fun content hcontent ↦ by
    cases hfound.symm.trans hcontent
    exact ⟨_, rfl⟩
  refine ⟨rfl, hloads, hfound, failure, d₁, hfail, fun hsame ↦ ?_⟩
  obtain hnone | hblank := ((h.2 failure d₁ hfail).2.2).1 hsame
  · exact hnone _ hfound
  · exact absurd (congrArg Program.isEmpty hblank.program) (by decide +kernel)

/-- A load that fails can lose the program. -/
theorem not_forall_failedLoad_keeps : ¬ ∀ (d : Dialogue) (line name : String) failure d₁,
    d.isConfirmed = false → Loads d line name →
    enter (entryOfLine line) d = .error failure d₁ →
    d.session.SameContent (d.afterLine line).session := by
  intro hall
  have hloads : Loads overwriting "YES" "draft" := loads_yes rfl
  have hfound : overwriting.files.findFirst (Command.loadedNames "draft") = .ok (some "END\n") :=
    rfl
  have hrefused : (Program.ofText "END\n").isOk = false := by decide +kernel
  obtain ⟨p, _, hread, -⟩ | ⟨stop, d₁, -, hfail, hblank⟩ := hloads.enter_of_found rfl hfound
  · rw [hread] at hrefused
    cases hrefused
  · have hsame := hall overwriting "YES" "draft" _ d₁ rfl hloads hfail
    have hprints := prints_of_enter_eq_error hloads.command?_ne_none hfail
    have hprogram := hprints.sameContent.program.symm.trans hsame.program
    rw [hblank] at hprogram
    exact absurd (congrArg Program.isEmpty hprogram) (by decide +kernel)

end Dialogue
end LineBasic
