import LineBasic.Proofs.Dialogue.Memory

/-!
# Loading over a program

A load over a program that is there prints a warning and is pending from then on, until a
confirmation takes it up or a later warning takes its place.  Nothing else loads over a program.

* `Dialogue.WarnsAt`, `Dialogue.ConfirmsAt` — which lines print the warning, and which confirm.
* `Dialogue.IsOpen` — which warning a confirmation may still answer.
* `Dialogue.awaits_afterLine` — what a line does to the pending load.
* `Dialogue.pending_afterLines_iff` — which load is pending after any lines.
* `Dialogue.loads_confirmed` — the result.
-/

set_option autoImplicit false
namespace LineBasic
namespace Dialogue

/-! ## Lines of commands -/

/-- What follows the word of a command. -/
def Entry.arguments : Entry → List String
  | .command text => (Command.lineWords text).tail
  | _ => []

/-- What a typed line asks for, without the blanks around it. -/
def entryOfLine (line : String) : Entry :=
  entryOf (Text.strip line)

section
variable {d d₁ : Dialogue} {entry : Entry} {c : Command} {line text : String} {args : List String}

theorem beginLine_of_command? (h : (Entry.command text).command? = some c) :
    beginLine text = begin c (Entry.command text).arguments := by
  rw [Entry.command?] at h
  rw [beginLine, Entry.arguments]
  cases hwords : Command.lineWords text with
  | nil =>
    rw [hwords] at h
    cases h
  | cons word args =>
    rw [hwords, List.head?_cons, Option.bind_some] at h
    simp only [h, List.tail_cons]

theorem enter_of_command? (h : entry.command? = some c) :
    enter entry = begin c entry.arguments >>= fulfil := by
  cases entry with
  | command text => rw [enter, process, beginLine_of_command? h]
  | program | statements => cases h

theorem afterLine_of_empty (h : (Text.strip line).isEmpty = true) : d.afterLine line = d := by
  have hsubmit : submit line d = .ok true d := by
    simp only [submit, h, if_true]
    rfl
  rw [afterLine, hsubmit]

theorem submit_of_not_empty (h : (Text.strip line).isEmpty = false) :
    submit line = conclude (entryOfLine line) (enter (entryOfLine line)) := by
  simp only [submit, h, Bool.false_eq_true, if_false, entryOfLine]

theorem command?_of_empty (h : (Text.strip line).isEmpty = true) :
    (entryOfLine line).command? = none := by
  have hentry : (entryOf "").command? = none := by decide +kernel
  rw [entryOfLine, String.isEmpty_iff.1 h, hentry]

/-- What holds where a line was done, and goes on to hold when something is printed, holds after the
line. -/
theorem of_afterLine {P : Dialogue → Prop}
    (hprint : ∀ text, Keeps P (fun _ ↦ True) (printLine text))
    (hempty : (Text.strip line).isEmpty = true → P d)
    (h : Ends P (fun _ ↦ True) (fun _ ↦ True) (enter (entryOfLine line) d)) :
    P (d.afterLine line) := by
  cases hline : (Text.strip line).isEmpty with
  | true => exact afterLine_of_empty hline ▸ hempty hline
  | false =>
    have hends := ends_conclude hprint (entryOfLine line) h
    rw [← submit_of_not_empty hline] at hends
    rw [afterLine]
    generalize submit line d = r at hends
    cases hends with
    | ok _ hd => exact hd
    | error _ hd => exact hd

end

/-! ## The pending load -/

/-- A dialogue in which the given load is pending, and none is confirmed. -/
structure Awaits (pending : Option (List String)) (d : Dialogue) : Prop where
  pending : d.pending = pending
  isConfirmed : d.isConfirmed = false

section
variable {d : Dialogue} {pending : Option (List String)} {line : String} {args : List String}

theorem keeps_onSession_awaits {α : Type} (act : Action α) :
    Keeps (Awaits pending) (fun _ ↦ True) (onSession act) := by
  refine ⟨fun d hd ↦ ?_⟩
  rw [onSession]
  cases act d.session with
  | ok a s => exact .ok trivial ⟨hd.pending, hd.isConfirmed⟩
  | error stop s => exact .error trivial ⟨hd.pending, hd.isConfirmed⟩

theorem keeps_printLine_awaits (text : String) :
    Keeps (Awaits pending) (fun _ ↦ True) (printLine text) :=
  keeps_onSession_awaits _

theorem keeps_ofFile_awaits {α : Type} (x : Except FileError α) :
    Keeps (Awaits pending) (fun _ ↦ True) (ofFile x) := by
  cases x with
  | ok a => exact .pure trivial
  | error e => exact .throw _

theorem keeps_readFirst_awaits (names : List String) :
    Keeps (Awaits pending) (fun _ ↦ True) (readFirst names) := by
  induction names with
  | nil => exact .pure trivial
  | cons name names ih =>
    refine .get fun d _ ↦ .bind (keeps_ofFile_awaits _) fun found _ ↦ ?_
    cases found with
    | some content => exact .pure trivial
    | none => exact ih

theorem keeps_fulfil_awaits (request : Request) :
    Keeps (Awaits pending) (fun _ ↦ True) (fulfil request) := by
  cases request with
  | nothing => exact .pure trivial
  | run => exact keeps_onSession_awaits _
  | save name content =>
    exact .get fun _ hd ↦ .bind (.set ⟨hd.pending, hd.isConfirmed⟩) fun _ _ ↦ keeps_ofFile_awaits _
  | load name => exact .bind (keeps_readFirst_awaits _) fun _ _ ↦ keeps_onSession_awaits _
  | catalog path =>
    exact .get fun _ _ ↦ .bind (keeps_ofFile_awaits _) fun _ _ ↦ keeps_onSession_awaits _

/-- A command that neither loads nor confirms asks for no load. -/
theorem keeps_begin_awaits {c : Command} (hload : c ≠ .load) (hyes : c ≠ .yes)
    (args : List String) :
    Keeps (Awaits pending) (fun request ↦ ∀ name, request ≠ .load name) (begin c args) := by
  have halone (act : Action Unit) :
      Keeps (Awaits pending) (fun request ↦ ∀ name, request ≠ .load name) (begin.alone act) :=
    .bind (keeps_onSession_awaits act) fun _ _ ↦ .pure nofun
  cases c with
  | load => exact absurd rfl hload
  | yes => exact absurd rfl hyes
  | run | catalog => exact .pure nofun
  | save =>
    cases args with
    | nil => exact .throw _
    | cons name args => exact .get fun _ _ ↦ .pure nofun
  | leave => exact .bind (.modify fun _ hd ↦ ⟨hd.pending, hd.isConfirmed⟩) fun _ _ ↦ .pure nofun
  | list | new | renumber | delete | free | traceOn | traceOff | clearScreen => exact halone _

theorem keeps_beginLine_awaits {text : String}
    (hload : (Entry.command text).command? ≠ some .load)
    (hyes : (Entry.command text).command? ≠ some .yes) :
    Keeps (Awaits pending) (fun request ↦ ∀ name, request ≠ .load name) (beginLine text) := by
  cases hcommand : (Entry.command text).command? with
  | some c =>
    rw [beginLine_of_command? hcommand]
    exact keeps_begin_awaits (fun hc ↦ hload (hc ▸ hcommand)) (fun hc ↦ hyes (hc ▸ hcommand)) _
  | none =>
    rw [Entry.command?] at hcommand
    rw [beginLine]
    cases hwords : Command.lineWords text with
    | nil => exact .pure fun _ h ↦ by cases h
    | cons word args =>
      rw [hwords, List.head?_cons, Option.bind_some] at hcommand
      simp only [hcommand]
      exact .throw _

theorem keeps_enter_awaits {entry : Entry} (hload : entry.command? ≠ some .load)
    (hyes : entry.command? ≠ some .yes) : Keeps (Awaits pending) (fun _ ↦ True) (enter entry) := by
  cases entry with
  | program | statements => exact keeps_onSession_awaits _
  | command text =>
    exact .bind (keeps_beginLine_awaits hload hyes) fun request _ ↦ keeps_fulfil_awaits request

/-! ## What a load and a confirmation do -/

/-- A dialogue after which something was printed, and nothing else was done. -/
def Shows (d d' : Dialogue) : Prop :=
  ∃ text, d' = { d with session := { d.session with console := d.session.console.print text } }

theorem Shows.refl : Shows d d :=
  ⟨"", by simp [Console.print]⟩

theorem keeps_printLine_shows (text : String) :
    Keeps (Shows d) (fun _ ↦ True) (printLine text) := by
  refine ⟨fun _ ⟨shown, hd⟩ ↦ .ok trivial ⟨shown ++ (text ++ "\n"), ?_⟩⟩
  rw [hd]
  simp [Console.print, String.append_assoc]

/-- The dialogue after the warning for a load. -/
def warned (d : Dialogue) (args : List String) : Dialogue :=
  { d with
    session := { d.session with
      console := d.session.console.print (Command.unsavedWarning ++ "\n") }
    pending := some args }

theorem begin_load_warned {name : String} (hconfirmed : d.isConfirmed = false)
    (hprogram : d.session.program.isEmpty = false) :
    begin .load (name :: args) d = .ok .nothing (d.warned (name :: args)) := by
  have hasks : (!d.isConfirmed && !d.session.program.isEmpty) = true := by
    rw [hconfirmed, hprogram]
    rfl
  rw [begin, beginLoad, get_bind_run]
  simp only [hasks]
  rfl

theorem begin_load_started {name : String} (hprogram : d.session.program.isEmpty = true) :
    begin .load (name :: args) d = .ok (.load name) d := by
  have hasks : (!d.isConfirmed && !d.session.program.isEmpty) = false := by
    rw [hprogram]
    exact Bool.and_false _
  rw [begin, beginLoad, get_bind_run]
  simp only [hasks]
  rfl

theorem begin_yes_of_pending {name : String} {args' : List String}
    (hpending : d.pending = some (name :: args)) :
    begin .yes args' d = .ok (.load name) { d with pending := none, isConfirmed := false } := by
  rw [begin, confirm, get_bind_run, hpending]
  rfl

theorem begin_yes_of_not_pending {args' : List String} (hpending : d.pending = none) :
    begin .yes args' d = .error (.stop (.fault (.malformed "nothing to confirm!"))) d := by
  rw [begin, confirm, get_bind_run, hpending]
  rfl

/-! ## What a typed line does -/

/-- A load with arguments, over a program that is there. -/
structure Warns (d : Dialogue) (line : String) (args : List String) : Prop where
  command : (entryOfLine line).command? = some .load
  arguments : (entryOfLine line).arguments = args
  ne_nil : args ≠ []
  program : d.session.program.isEmpty = false

/-- A confirmation. -/
def Confirms (line : String) : Prop :=
  (entryOfLine line).command? = some .yes

theorem Warns.not_confirms (h : Warns d line args) : ¬ Confirms line := by
  intro hyes
  rw [Confirms, h.command] at hyes
  cases hyes

/-- A warning is printed, the load is pending, and all else stays as it is. -/
theorem Warns.afterLine (h : Warns d line args) (hd : d.isConfirmed = false) :
    Shows (d.warned args) (d.afterLine line) := by
  obtain ⟨name, more, rfl⟩ := List.exists_cons_of_ne_nil h.ne_nil
  refine of_afterLine keeps_printLine_shows (fun hempty ↦ ?_) ?_
  · have hcommand := h.command
    rw [command?_of_empty hempty] at hcommand
    cases hcommand
  · rw [enter_of_command? h.command, h.arguments, bind_run_of_ok (begin_load_warned hd h.program)]
    exact .ok trivial .refl

/-- A load without arguments only prints its fault. -/
theorem shows_of_load_nil (hcommand : (entryOfLine line).command? = some .load)
    (harguments : (entryOfLine line).arguments = []) : Shows d (d.afterLine line) := by
  refine of_afterLine keeps_printLine_shows (fun _ ↦ .refl) ?_
  rw [enter_of_command? hcommand, harguments]
  exact .error trivial .refl

/-- A confirmation with nothing pending only prints its fault. -/
theorem Confirms.shows (h : Confirms line) (hpending : d.pending = none) :
    Shows d (d.afterLine line) := by
  refine of_afterLine keeps_printLine_shows (fun _ ↦ .refl) ?_
  rw [enter_of_command? h, bind_run_eq_error.2 (.inl (begin_yes_of_not_pending hpending))]
  exact .error trivial .refl

/-- A confirmation does what the pending load asked for. -/
theorem Confirms.enter_eq {name : String} (h : Confirms line) (hd : d.isConfirmed = false)
    (hpending : d.pending = some (name :: args)) :
    enter (entryOfLine line) d = fulfil (.load name) { d with pending := none } := by
  rw [enter_of_command? h, bind_run_of_ok (begin_yes_of_pending hpending), ← hd]

/-- A line that starts to load a program. -/
def Loads (d : Dialogue) (line name : String) : Prop :=
  ∃ text d', entryOfLine line = .command text ∧ beginLine text d = .ok (.load name) d'

/-- What starts to load is a load, over no program, or a confirmation of what is pending. -/
theorem Loads.enter_eq {name : String} (h : Loads d line name) (hd : d.isConfirmed = false) :
    (d.session.program.isEmpty = true ∧ enter (entryOfLine line) d = fulfil (.load name) d) ∨
    (Confirms line ∧ (∃ args, d.pending = some (name :: args)) ∧
      enter (entryOfLine line) d = fulfil (.load name) { d with pending := none }) := by
  obtain ⟨text, d', hentry, hbegin⟩ := h
  have henter : enter (entryOfLine line) d = fulfil (.load name) d' := by
    rw [hentry]
    exact bind_run_of_ok hbegin
  by_cases hload : (Entry.command text).command? = some .load
  · rw [beginLine_of_command? hload] at hbegin
    cases hargs : (Entry.command text).arguments with
    | nil =>
      rw [hargs] at hbegin
      cases hbegin
    | cons name' args =>
      rw [hargs] at hbegin
      cases hprogram : d.session.program.isEmpty with
      | true =>
        rw [begin_load_started hprogram] at hbegin
        cases hbegin
        exact .inl ⟨rfl, henter⟩
      | false =>
        rw [begin_load_warned hd hprogram] at hbegin
        cases hbegin
  · by_cases hyes : (Entry.command text).command? = some .yes
    · rw [beginLine_of_command? hyes] at hbegin
      cases hpending : d.pending with
      | none =>
        rw [begin_yes_of_not_pending hpending] at hbegin
        cases hbegin
      | some args =>
        cases args with
        | nil =>
          rw [begin, confirm, get_bind_run, hpending] at hbegin
          cases hbegin
        | cons name' args =>
          rw [begin_yes_of_pending hpending, ← hd] at hbegin
          cases hbegin
          exact .inr ⟨by rw [Confirms, hentry, hyes], ⟨args, rfl⟩, henter⟩
    · have hkeeps : Keeps (Awaits d.pending) (fun request ↦ ∀ name, request ≠ .load name)
          (beginLine text) := keeps_beginLine_awaits hload hyes
      have hends := hkeeps.run d ⟨rfl, hd⟩
      rw [hbegin] at hends
      exact absurd rfl (hends.of_ok.1 name)

/-- Over a program that is there, only a confirmation starts to load. -/
theorem Loads.confirms {name : String} (h : Loads d line name) (hd : d.isConfirmed = false)
    (hprogram : d.session.program.isEmpty = false) :
    Confirms line ∧ ∃ args, d.pending = some (name :: args) := by
  obtain ⟨hempty, -⟩ | ⟨hconfirms, hpending, -⟩ := h.enter_eq hd
  · exact absurd hempty (by simp [hprogram])
  · exact ⟨hconfirms, hpending⟩

theorem entryOfLine_yes : entryOfLine "YES" = .command "YES" := by
  have hnumber : programLine? "YES" = none := by decide +kernel
  have hline : Command.isLine "YES" = true := by decide +kernel
  have hstrip : Text.strip "YES" = "YES" := by decide +kernel
  rw [entryOfLine, hstrip, entryOf, hnumber]
  simp only [hline, if_true]

theorem confirms_yes : Confirms "YES" := by
  rw [Confirms, entryOfLine_yes]
  decide +kernel

theorem loads_yes {name : String} (hpending : d.pending = some (name :: args)) :
    Loads d "YES" name := by
  have hyes : (Entry.command "YES").command? = some .yes := by decide +kernel
  exact ⟨"YES", _, entryOfLine_yes,
    (congrFun (beginLine_of_command? hyes) d).trans (begin_yes_of_pending hpending)⟩

/-- Whether there was a warning, the pending load was taken up, or neither, no load is confirmed
afterwards. -/
theorem awaits_afterLine (hd : d.isConfirmed = false) (hpending : d.pending ≠ some []) (line) :
    (∀ args, Warns d line args → Awaits (some args) (d.afterLine line)) ∧
    (Confirms line → Awaits none (d.afterLine line)) ∧
    ((∀ args, ¬ Warns d line args) → ¬ Confirms line → Awaits d.pending (d.afterLine line)) := by
  refine ⟨fun args h ↦ ?_, fun h ↦ ?_, fun hwarns hconfirms ↦ ?_⟩
  · obtain ⟨text, hafter⟩ := h.afterLine hd
    rw [hafter]
    exact ⟨rfl, hd⟩
  · cases hp : d.pending with
    | none =>
      obtain ⟨text, hafter⟩ := h.shows hp
      rw [hafter]
      exact ⟨hp, hd⟩
    | some args =>
      obtain ⟨name, more, rfl⟩ := List.exists_cons_of_ne_nil fun hnil ↦ hpending (hnil ▸ hp)
      refine of_afterLine keeps_printLine_awaits (fun hempty ↦ ?_) ?_
      · rw [Confirms, command?_of_empty hempty] at h
        cases h
      · rw [h.enter_eq hd hp]
        exact (keeps_fulfil_awaits _).run _ ⟨rfl, hd⟩
  · refine of_afterLine keeps_printLine_awaits (fun _ ↦ ⟨rfl, hd⟩) ?_
    by_cases hload : (entryOfLine line).command? = some .load
    · rw [enter_of_command? hload]
      cases hargs : (entryOfLine line).arguments with
      | nil => exact .error trivial ⟨rfl, hd⟩
      | cons name args =>
        have hprogram : d.session.program.isEmpty = true := by
          by_contra hprogram
          exact hwarns _ ⟨hload, hargs, List.cons_ne_nil _ _, by simpa using hprogram⟩
        rw [bind_run_of_ok (begin_load_started hprogram)]
        exact (keeps_fulfil_awaits _).run _ ⟨rfl, hd⟩
    · exact (keeps_enter_awaits hload hconfirms).run _ ⟨rfl, hd⟩

end

/-! ## What many typed lines do -/

section
variable {d : Dialogue} {lines : List String} {line : String} {i j n : Nat}
  {args args' : List String}

theorem afterLines_take_succ (h : lines[n]? = some line) :
    d.afterLines (lines.take (n + 1)) = (d.afterLines (lines.take n)).afterLine line := by
  rw [List.take_add_one, h, Option.toList_some, afterLines, afterLines, List.foldl_append]
  rfl

/-- The line with the given index prints the warning for a load with the given arguments. -/
def WarnsAt (d : Dialogue) (lines : List String) (i : Nat) (args : List String) : Prop :=
  ∃ line, lines[i]? = some line ∧ Warns (d.afterLines (lines.take i)) line args

/-- The line with the given index is a confirmation. -/
def ConfirmsAt (lines : List String) (i : Nat) : Prop :=
  ∃ line, lines[i]? = some line ∧ Confirms line

/-- Line `i` is the latest before line `n` that printed the warning, and no line between them was a
confirmation. -/
structure IsOpen (d : Dialogue) (lines : List String) (i n : Nat) (args : List String) : Prop where
  lt : i < n
  warns : WarnsAt d lines i args
  latest : ∀ k, i < k → k < n → ∀ args, ¬ WarnsAt d lines k args
  unconfirmed : ∀ k, i < k → k < n → ¬ ConfirmsAt lines k

theorem WarnsAt.ne_nil (h : WarnsAt d lines i args) : args ≠ [] := by
  obtain ⟨line, -, h⟩ := h
  exact h.ne_nil

theorem WarnsAt.eq (h : WarnsAt d lines i args) (h' : WarnsAt d lines i args') : args = args' := by
  obtain ⟨line, hline, h⟩ := h
  obtain ⟨line', hline', h'⟩ := h'
  cases hline.symm.trans hline'
  rw [← h.arguments, h'.arguments]

/-- What is open stays open over a line that neither warns nor confirms. -/
theorem isOpen_succ_iff (hwarns : ∀ args, ¬ WarnsAt d lines n args)
    (hconfirms : ¬ ConfirmsAt lines n) :
    IsOpen d lines i (n + 1) args ↔ IsOpen d lines i n args := by
  refine ⟨fun h ↦ ?_, fun h ↦ ⟨Nat.lt_succ_of_lt h.lt, h.warns, fun k hk hkn ↦ ?_,
    fun k hk hkn ↦ ?_⟩⟩
  · have hne : i ≠ n := by
      rintro rfl
      exact hwarns _ h.warns
    have hlt := h.lt
    exact ⟨by omega, h.warns, fun k hk hkn ↦ h.latest k hk (Nat.lt_succ_of_lt hkn),
      fun k hk hkn ↦ h.unconfirmed k hk (Nat.lt_succ_of_lt hkn)⟩
  · obtain hkn | rfl := Nat.lt_succ_iff_lt_or_eq.1 hkn
    · exact h.latest k hk hkn
    · exact hwarns
  · obtain hkn | rfl := Nat.lt_succ_iff_lt_or_eq.1 hkn
    · exact h.unconfirmed k hk hkn
    · exact hconfirms

/-- Between lines, the open load is pending, and none is confirmed. -/
theorem pending_afterLines_iff (hd : Awaits none d) (hn : n ≤ lines.length) :
    (d.afterLines (lines.take n)).isConfirmed = false ∧
      ∀ args, (d.afterLines (lines.take n)).pending = some args ↔
        ∃ i, IsOpen d lines i n args := by
  induction n with
  | zero =>
    refine ⟨hd.isConfirmed, fun args ↦ ⟨fun h ↦ ?_, fun ⟨i, hi⟩ ↦ absurd hi.lt (Nat.not_lt_zero i)⟩⟩
    cases hd.pending.symm.trans h
  | succ n ih =>
    obtain ⟨hconfirmed, hpending⟩ := ih (Nat.le_of_lt hn)
    obtain ⟨line, hline⟩ : ∃ line, lines[n]? = some line := ⟨_, List.getElem?_eq_getElem hn⟩
    rw [afterLines_take_succ hline]
    obtain ⟨hwarn, hyes, hother⟩ := awaits_afterLine hconfirmed
      (fun hnil ↦ ((hpending []).1 hnil).elim fun i hi ↦ hi.warns.ne_nil rfl) line
    by_cases hwarns : ∃ args, WarnsAt d lines n args
    · obtain ⟨args, hargs⟩ := hwarns
      obtain ⟨line', hline', h⟩ := id hargs
      cases hline.symm.trans hline'
      have hafter := hwarn args h
      refine ⟨hafter.isConfirmed, fun args' ↦ ?_⟩
      rw [hafter.pending, Option.some_inj]
      constructor
      · rintro rfl
        exact ⟨n, Nat.lt_succ_self n, hargs, fun k hk hkn ↦ by omega, fun k hk hkn ↦ by omega⟩
      · rintro ⟨i, hi⟩
        obtain hin | rfl := Nat.lt_succ_iff_lt_or_eq.1 hi.lt
        · exact absurd hargs (hi.latest n hin (Nat.lt_succ_self n) args)
        · exact hargs.eq hi.warns
    · have hwarns' : ∀ args, ¬ WarnsAt d lines n args := fun args h ↦ hwarns ⟨args, h⟩
      by_cases hconfirms : Confirms line
      · have hafter := hyes hconfirms
        refine ⟨hafter.isConfirmed, fun args' ↦ ?_⟩
        rw [hafter.pending]
        refine ⟨nofun, fun ⟨i, hi⟩ ↦ ?_⟩
        obtain hin | rfl := Nat.lt_succ_iff_lt_or_eq.1 hi.lt
        · exact absurd ⟨line, hline, hconfirms⟩ (hi.unconfirmed n hin (Nat.lt_succ_self n))
        · exact absurd hi.warns (hwarns' args')
      · have hafter := hother (fun args h ↦ hwarns' args ⟨line, hline, h⟩) hconfirms
        refine ⟨hafter.isConfirmed, fun args' ↦ ?_⟩
        rw [hafter.pending, hpending]
        have hconfirms' : ¬ ConfirmsAt lines n := by
          rintro ⟨line', hline', h⟩
          cases hline.symm.trans hline'
          exact hconfirms h
        exact exists_congr fun i ↦ (isOpen_succ_iff hwarns' hconfirms').symm

/-- A warning is open at one confirmation at most. -/
theorem IsOpen.eq (h : IsOpen d lines i n args) (h' : IsOpen d lines i j args')
    (hn : ConfirmsAt lines n) (hj : ConfirmsAt lines j) : n = j := by
  rcases Nat.lt_trichotomy n j with hlt | heq | hlt
  · exact absurd hn (h'.unconfirmed n h.lt hlt)
  · exact heq
  · exact absurd hj (h.unconfirmed j h'.lt hlt)

end

/-! ## The result -/

/-- In a session that starts with no load pending, after any lines typed:

* no load is confirmed between two lines, also where a confirmed load has failed;
* only a confirmation starts to load over a program that is there, and what it loads is what the
  latest load that printed the warning had asked for, if no confirmation followed that one before;
* a load over a program that is there prints the warning, or that its argument is missing, and
  leaves everything as it is but for the load that is pending now;
* a confirmation does what the open load asked for, and without an open load it prints a fault and
  leaves everything as it is;
* no load is open at two confirmations. -/
theorem loads_confirmed (s : Session) (files : FileStore) (lines : List String) :
    let start : Dialogue := { session := s, files }
    (∀ n, (start.afterLines (lines.take n)).isConfirmed = false) ∧
    (∀ n line, lines[n]? = some line →
      let d := start.afterLines (lines.take n)
      (∀ name, Loads d line name → d.session.program.isEmpty = false →
        Confirms line ∧ ∃ i args, IsOpen start lines i n (name :: args)) ∧
      ((entryOfLine line).command? = some .load → d.session.program.isEmpty = false →
        let args := (entryOfLine line).arguments
        Shows (if args = [] then d else d.warned args) (d.afterLine line)) ∧
      (Confirms line →
        (∀ i args, IsOpen start lines i n args → ∃ name more, args = name :: more ∧
          enter (entryOfLine line) d = fulfil (.load name) { d with pending := none }) ∧
        ((∀ i args, ¬ IsOpen start lines i n args) → Shows d (d.afterLine line)))) ∧
    (∀ i m n args args', IsOpen start lines i m args → IsOpen start lines i n args' →
      ConfirmsAt lines m → ConfirmsAt lines n → m = n) := by
  intro start
  have hstart : Awaits none start := ⟨rfl, rfl⟩
  refine ⟨fun n ↦ ?_, fun n line hline ↦ ?_, fun i m n args args' h h' hm hn ↦ h.eq h' hm hn⟩
  · obtain hn | hn := Nat.le_total n lines.length
    · exact (pending_afterLines_iff hstart hn).1
    · rw [List.take_of_length_le hn, ← List.take_length (l := lines)]
      exact (pending_afterLines_iff hstart (Nat.le_refl _)).1
  · intro d
    obtain ⟨hconfirmed, hpending⟩ : d.isConfirmed = false ∧
        ∀ args, d.pending = some args ↔ ∃ i, IsOpen start lines i n args :=
      pending_afterLines_iff hstart (Nat.le_of_lt (List.getElem?_eq_some_iff.1 hline).1)
    refine ⟨fun name h hprogram ↦ ?_, fun hload hprogram ↦ ?_, fun h ↦
      ⟨fun i args hi ↦ ?_, fun hi ↦ ?_⟩⟩
    · obtain ⟨hconfirms, args, hargs⟩ := h.confirms hconfirmed hprogram
      obtain ⟨i, hi⟩ := (hpending _).1 hargs
      exact ⟨hconfirms, i, args, hi⟩
    · intro args
      split
      · exact shows_of_load_nil hload ‹_›
      · exact Warns.afterLine ⟨hload, rfl, ‹_›, hprogram⟩ hconfirmed
    · obtain ⟨name, more, rfl⟩ := List.exists_cons_of_ne_nil hi.warns.ne_nil
      exact ⟨name, more, rfl, h.enter_eq hconfirmed ((hpending _).2 ⟨i, hi⟩)⟩
    · refine h.shows ?_
      cases hp : d.pending with
      | none => rfl
      | some args => exact ((hpending args).1 hp).elim fun i h ↦ absurd h (hi i args)

/-- A dialogue with a file to load, at its start. -/
def shelved : Dialogue :=
  { session := .start {} {} .unavailable 0, files := .memory ⟨[("draft", "20 STOP\n")]⟩ }

/-- A program that is stored, a load over it, and two confirmations. -/
def replacing : List String :=
  ["10 END", "LOAD draft", "YES", "YES"]

/-- The first confirmation loads what the load had asked for, and the second has nothing to do. -/
theorem loads_confirmed_once :
    (shelved.afterLines (replacing.take 2)).session.program.lines = [(10, "END")] ∧
      (shelved.afterLines (replacing.take 3)).session.program.lines = [(20, "STOP")] ∧
      (∃ i args, IsOpen shelved replacing i 2 ("draft" :: args)) ∧
      Shows (shelved.afterLines (replacing.take 3)) (shelved.afterLines (replacing.take 4)) := by
  obtain ⟨-, hlines, -⟩ := loads_confirmed shelved.session shelved.files replacing
  have hpending : (shelved.afterLines (replacing.take 2)).pending = some ["draft"] := by
    decide +kernel
  obtain ⟨-, i, args, hopen⟩ :=
    (hlines 2 "YES" rfl).1 "draft" (loads_yes hpending) (by decide +kernel)
  refine ⟨by decide +kernel, by decide +kernel, ⟨i, args, hopen⟩, ?_⟩
  refine ((hlines 3 "YES" rfl).2.2 confirms_yes).2 fun i args h ↦ ?_
  obtain hi | rfl := Nat.lt_succ_iff_lt_or_eq.1 h.lt
  · exact h.unconfirmed 2 hi (by decide) ⟨"YES", rfl, confirms_yes⟩
  · obtain ⟨line, hline, hwarns⟩ := h.warns
    cases hline
    exact hwarns.not_confirms confirms_yes

end Dialogue
end LineBasic
