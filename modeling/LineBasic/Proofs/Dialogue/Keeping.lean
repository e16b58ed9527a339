import LineBasic.Dialogue
import LineBasic.Proofs.Keeping

/-!
# What runs and dialogues keep

Whatever is typed, a session changes in few ways: statements are executed, what is under way is
dropped, the session is reset, and books are kept that have nothing to do with the values of the
session.  A property that survives these is kept by whole runs and dialogues.

* `Session.SameValues`, `Session.SameWork`, `Session.SameReading` — keeping books.
* `Survives`, `Outlasts` — a property of sessions that survives all of it.
* `Endures` — one that runs keep, though a change of the program may end it.
* `keeps_runTyped`, `keeps_runProgram` — runs.
* `Dialogue.Entry.Respects`, `Dialogue.keeps_submit` — typed lines.
-/

set_option autoImplicit false
namespace LineBasic

/-! ## Ways of changing a session -/

/-- A session with the same values, and the same calls and loops under way. -/
structure Session.SameValues (s s' : Session) : Prop where
  heap : s'.heap = s.heap
  vars : s'.vars = s.vars
  binders : s'.binders = s.binders
  loops : s'.loops = s.loops
  data : s'.data = s.data

/-- A session with the same values and the same under way, that is collecting if it was before. -/
structure Session.SameWork (s s' : Session) : Prop extends s.SameValues s' where
  isCollecting : s'.isCollecting = s.isCollecting

/-- A session with the same values and the same under way, in which the same data were read. -/
structure Session.SameReading (s s' : Session) : Prop extends s.SameWork s' where
  cursor : s'.cursor = s.cursor

/-- A session with the same values, under way with the same, and of the same program. -/
structure Session.SameText (s s' : Session) : Prop extends s.SameReading s' where
  program : s'.program = s.program
  settings : s'.settings = s.settings
  isProduction : s'.isProduction = s.isProduction

/-- A statement of a source line. -/
def Tree.IsParsed (t : Tree) : Prop :=
  ∃ line text statements, parseLine Builtin.isName line text = .ok statements ∧ some t ∈ statements

/-- Statements that are all parsed ones, or remarks. -/
def Statements.AreParsed (statements : Statements) : Prop :=
  ∀ t, some t ∈ statements → t.IsParsed

/-- Lines whose statements are all parsed ones. -/
def Listing.IsParsed (lines : Listing) : Prop :=
  ∀ l ∈ lines, Statements.AreParsed l.2

/-- A property of sessions that survives all that runs and dialogues do. -/
structure Survives (P : Session → Prop) : Prop where
  books : ∀ {s s'}, P s → s.SameValues s' → P s'
  unwind : ∀ {s}, P s → P s.unwind
  returned : ∀ {s}, P s → P { s with binders := s.binders.reset }
  reset : ∀ {s}, P s → P s.reset
  execute : ∀ site {t}, t.IsParsed → Keeps P (fun _ ↦ True) (execute site t)

/-- A property of sessions that is kept by all that runs and dialogues do, though it may fail while
labels and data are being collected. -/
structure Outlasts (P : Session → Prop) : Prop where
  books : ∀ {s s'}, P s → s.SameReading s' → P s'
  unwind : ∀ {s}, P s → P s.unwind
  returned : ∀ {s}, P s → P { s with binders := s.binders.reset }
  reset : ∀ {s}, P s → P s.reset
  execute : ∀ site {t}, t.IsParsed → Keeps P (fun _ ↦ True) (execute site t)
  collect : ∀ {lines}, Listing.IsParsed lines → Keeps P (fun _ ↦ True) (collect lines)

/-- A property of sessions that is kept by runs, but not by all changes of the program. -/
structure Endures (P : Session → Prop) : Prop where
  books : ∀ {s s'}, P s → s.SameText s' → P s'
  unwind : ∀ {s}, P s → P s.unwind
  returned : ∀ {s}, P s → P { s with binders := s.binders.reset }
  reset : ∀ {s}, P s → P s.reset
  execute : ∀ site {t}, t.IsParsed → Keeps P (fun _ ↦ True) (execute site t)
  collect : ∀ {lines}, Listing.IsParsed lines → Keeps P (fun _ ↦ True) (collect lines)

section
variable {P : Session → Prop}

theorem Outlasts.endures (hP : Outlasts P) : Endures P where
  books hs hs' := hP.books hs hs'.toSameReading
  unwind := hP.unwind
  returned := hP.returned
  reset := hP.reset
  execute := hP.execute
  collect := hP.collect

/-! ## Actions -/

section
variable {α : Type} {Q : α → Prop}

theorem keeps_ofStop {x : Except Stop α} (h : ∀ a, x = .ok a → Q a) :
    Keeps P Q (Action.ofStop x) := by
  cases x with
  | ok a => exact .pure (h a rfl)
  | error e => exact .throw e

theorem keeps_ofFault {x : Except Fault α} (h : ∀ a, x = .ok a → Q a) :
    Keeps P Q (Action.ofFault x) := by
  cases x with
  | ok a => exact .pure (h a rfl)
  | error f => exact .throw _

theorem keeps_ofNumber {x : Except Number.Mishap α} (h : ∀ a, x = .ok a → Q a) :
    Keeps P Q (Action.ofNumber x) := by
  cases x with
  | ok a => exact .pure (h a rfl)
  | error e => exact .throw _

theorem keeps_fail (f : Fault) : Keeps P Q (Action.fail f : Action α) :=
  .throw _

section
variable {R : Stop → Prop} {act : Action α} {s : Session}

theorem Ends.settled (h : Ends P Q R (act s)) (site : Site) :
    Ends P Q (fun _ ↦ True) (act.settled site s) := by
  unfold Action.settled
  generalize act s = r at h
  cases h with
  | ok ha hs => exact .ok ha hs
  | error _ hs => exact .error trivial hs

theorem Ends.unwinding (h : Ends P Q R (act s)) (hunwind : ∀ s, P s → P s.unwind) :
    Ends P Q (fun _ ↦ True) (act.unwinding s) := by
  unfold Action.unwinding
  generalize act s = r at h
  cases h with
  | ok ha hs => exact .ok ha hs
  | @error e s' _ hs =>
    cases e with
    | fault f => exact .error trivial (hunwind _ hs)
    | _ => exact .error trivial hs

end

theorem keeps_settled {act : Action α} (h : Keeps P Q act) (site : Site) :
    Keeps P Q (act.settled site) :=
  ⟨fun s hs ↦ (h.run s hs).settled site⟩

theorem keeps_unwinding {act : Action α} (hact : Keeps P Q act) (h : ∀ s, P s → P s.unwind) :
    Keeps P Q act.unwinding :=
  ⟨fun s hs ↦ (hact.run s hs).unwinding h⟩

end

theorem Listing.IsParsed.collected {lines : Listing} (h : lines.IsParsed) {site : Site} {t : Tree}
    (ht : (site, t) ∈ lines.collected) : t.IsParsed := by
  obtain ⟨l, hl, ht⟩ := List.mem_flatMap.1 ht
  obtain ⟨e, he, ht⟩ := List.mem_filterMap.1 ht
  split at ht
  · split at ht
    · cases ht
      rename_i ht _
      exact h l hl t (ht ▸ List.fst_mem_of_mem_zipIdx he)
    · cases ht
  · cases ht

/-- Executing labels and data one after the other, as it is done while they are collected. -/
def Listing.executeCollected (lines : Listing) : Action Unit :=
  lines.collected.forM fun e ↦ do let _ ← execute e.1 e.2

theorem collect_eq (lines : Listing) (s : Session) : collect lines s =
    match lines.executeCollected.unwinding { s with isCollecting := true } with
    | .ok () s => .ok () { s with isCollecting := false }
    | .error stop s => .error stop { s with isCollecting := false } := rfl

theorem Ends.collect {P' : Session → Prop} {lines : Listing} {s : Session}
    (h : Ends P (fun _ ↦ True) (fun _ ↦ True)
      (lines.executeCollected.unwinding { s with isCollecting := true }))
    (hdone : ∀ s', P s' → P' { s' with isCollecting := false }) :
    Ends P' (fun _ ↦ True) (fun _ ↦ True) (collect lines s) := by
  rw [collect_eq]
  generalize lines.executeCollected.unwinding { s with isCollecting := true } = r at h
  cases h with
  | ok _ hs => exact .ok trivial (hdone _ hs)
  | error _ hs => exact .error trivial (hdone _ hs)

theorem keeps_collect (hcollecting : ∀ {s} b, P s → P { s with isCollecting := b })
    (hunwind : ∀ {s}, P s → P s.unwind) {lines : Listing}
    (h : ∀ e ∈ lines.collected, Keeps P (fun _ ↦ True) (execute e.1 e.2)) :
    Keeps P (fun _ ↦ True) (collect lines) := by
  have hall : Keeps P (fun _ ↦ True) lines.executeCollected :=
    .forM fun e he ↦ .bind (h e he) fun _ _ ↦ .pure trivial
  refine ⟨fun s hs ↦ Ends.collect (P := P) ?_ fun _ hs' ↦ hcollecting false hs'⟩
  exact (keeps_unwinding hall fun _ ↦ hunwind).run _ (hcollecting true hs)

theorem Survives.outlasts (hP : Survives P) : Outlasts P where
  books hs hs' := hP.books hs hs'.toSameValues
  unwind := hP.unwind
  returned := hP.returned
  reset := hP.reset
  execute := hP.execute
  collect h := keeps_collect (fun _ hs ↦ hP.books hs ⟨rfl, rfl, rfl, rfl, rfl⟩) hP.unwind
    fun e he ↦ hP.execute e.1 (h.collected he)

theorem keeps_print (h : Endures P) (text : String) :
    Keeps P (fun _ ↦ True) (Action.print text) :=
  .modify fun _ hs ↦ h.books hs ⟨⟨⟨⟨rfl, rfl, rfl, rfl, rfl⟩, rfl⟩, rfl⟩, rfl, rfl, rfl⟩

theorem keeps_trace (h : Endures P) (line : Int) :
    Keeps P (fun _ ↦ True) (Action.trace line) := by
  refine .modify fun s hs ↦ ?_
  split
  · exact h.books hs ⟨⟨⟨⟨rfl, rfl, rfl, rfl, rfl⟩, rfl⟩, rfl⟩, rfl, rfl, rfl⟩
  · exact hs

theorem keeps_poll (h : Endures P) : Keeps P (fun _ ↦ True) Action.poll :=
  .get fun _ hs ↦ .bind (.set (h.books hs ⟨⟨⟨⟨rfl, rfl, rfl, rfl, rfl⟩, rfl⟩, rfl⟩, rfl, rfl, rfl⟩))
    fun _ _ ↦ .pure trivial

theorem keeps_checkInterval : Keeps P (fun _ ↦ True) Action.checkInterval := by
  refine .get fun s _ ↦ ?_
  split
  · exact .throw _
  · exact .pure trivial

theorem keeps_parse (line : Option Int) (text : String) :
    Keeps P Statements.AreParsed (Action.parse line text) := by
  have hparsed : ∀ statements, parseLine Builtin.isName line text = .ok statements →
      Statements.AreParsed statements := fun statements h t ht ↦ ⟨line, text, statements, h, ht⟩
  refine .bind (keeps_ofStop hparsed) fun statements hstatements ↦ .get fun s _ ↦ ?_
  refine .ite (fun _ ↦ .bind (.forIn fun statement _ _ ↦ ?_) fun _ _ ↦ .pure hstatements)
    fun _ ↦ .pure hstatements
  cases statement with
  | none => exact .pure trivial
  | some t =>
    exact .get fun _ _ ↦ .bind (keeps_ofStop fun _ _ ↦ trivial) fun _ _ ↦ .pure trivial

theorem keeps_listing : Keeps P Listing.IsParsed Action.listing :=
  .get fun _ _ ↦ .mapM fun l _ ↦ .bind (keeps_parse (some l.1) l.2) fun _ hstatements ↦
    .pure hstatements

/-! ## Runs -/

/-- A run whose statements are all parsed ones. -/
structure Run.IsParsed (r : Run) : Prop where
  typed : r.typed.AreParsed
  listing : ∀ lines ∈ r.listing, lines.IsParsed

theorem Listing.IsParsed.first? {lines : Listing} (h : lines.IsParsed) {site site' : Site}
    {t : Tree} (ht : lines.first? site = some (site', some t)) : t.IsParsed := by
  obtain ⟨l, hl, ht⟩ := List.exists_of_findSome?_eq_some ht
  split at ht
  · cases ht
  · obtain ⟨statement, hstatement, heq⟩ := Option.map_eq_some_iff.1 ht
    cases heq
    exact h l hl t (List.mem_of_getElem? hstatement)

theorem Run.IsParsed.next? {r : Run} (h : r.IsParsed) {site : Site} {t : Tree}
    (ht : r.next? = some (site, some t)) : t.IsParsed := by
  rw [Run.next?] at ht
  split at ht
  · obtain ⟨statement, hstatement, heq⟩ := Option.map_eq_some_iff.1 ht
    cases heq
    exact h.typed t (List.mem_of_getElem? hstatement)
  split at ht
  · cases ht
  · cases hlisting : r.listing with
    | none =>
      rw [hlisting] at ht
      cases ht
    | some lines =>
      rw [hlisting] at ht
      exact (h.listing lines hlisting).first? ht

theorem keeps_listingFor {r : Run} (h : r.IsParsed) (site : Site) :
    Keeps P (fun listing ↦ ∀ lines ∈ listing, lines.IsParsed) (r.listingFor site) := by
  rw [Run.listingFor]
  split
  · rename_i lines hlines
    exact .pure fun lines' hlines' ↦ h.listing lines' (hlines.trans hlines')
  · refine .get fun s _ ↦ .ite (fun _ ↦ ?_) fun _ ↦
      .pure fun _ h ↦ absurd h (Option.not_mem_none _)
    refine .bind keeps_listing fun lines hlines ↦ .pure fun lines' hlines' ↦ ?_
    cases hlines'
    exact hlines

theorem keeps_after (hP : Endures P) {r : Run} (h : r.IsParsed) (site : Site)
    {statement : Option Tree} (hstatement : ∀ t, statement = some t → t.IsParsed) :
    Keeps P Run.IsParsed (r.after site statement) := by
  cases statement with
  | none => exact .pure ⟨h.typed, h.listing⟩
  | some t =>
    exact .bind (hP.execute site (hstatement t rfl)) fun p _ ↦
      .bind (keeps_listingFor h p.2) fun listing hlisting ↦ .pure ⟨h.typed, hlisting⟩

/-- What a step leads to has parsed statements only. -/
def Progress.IsParsed : Progress → Prop
  | .going r => r.IsParsed
  | .ended _ => True

theorem keeps_step (hP : Endures P) {r : Run} (h : r.IsParsed) :
    Keeps P Progress.IsParsed r.step := by
  rw [Run.step]
  cases hnext : r.next? with
  | none => exact .pure trivial
  | some p =>
    obtain ⟨site, statement⟩ := p
    refine .bind (keeps_trace hP _) fun _ _ ↦ .bind (keeps_after hP h site fun t ht ↦ ?_)
      fun r' hr' ↦ .get fun s _ ↦ ?_
    · subst ht
      exact h.next? hnext
    · have hgoing : Keeps P Progress.IsParsed (pure (.going r') : Action Progress) := .pure hr'
      refine .ite (fun _ ↦ ?_) fun _ ↦ hgoing
      refine .bind (keeps_poll hP) fun stop _ ↦ ?_
      refine .ite (fun _ ↦ ?_) fun _ ↦ hgoing
      exact .bind (keeps_print hP _) fun _ _ ↦ .pure trivial

theorem keeps_finish (hP : Endures P) (fuel : Nat) {r : Run} (h : r.IsParsed) :
    Keeps P (fun _ ↦ True) (Run.finish fuel r) := by
  induction fuel generalizing r with
  | zero => exact .throw _
  | succ fuel ih =>
    refine .bind (keeps_step hP h) fun progress hprogress ↦ ?_
    cases progress with
    | going r' => exact ih hprogress
    | ended v => exact .pure trivial

theorem keeps_complete (hP : Endures P) {r : Run} (h : r.IsParsed) :
    Keeps P (fun _ ↦ True) r.complete :=
  keeps_unwinding (.get fun s _ ↦ .bind (keeps_finish hP s.fuel h) fun _ _ ↦
    .bind (.modify fun _ hs ↦ hP.returned hs) fun _ _ ↦ .pure trivial) fun _ ↦ hP.unwind

theorem keeps_startTyped (text : String) : Keeps P Run.IsParsed (startTyped text) :=
  .bind (keeps_parse none text) fun _ htyped ↦ .bind keeps_checkInterval fun _ _ ↦
    .pure ⟨htyped, fun _ h ↦ absurd h (Option.not_mem_none _)⟩

/-- The run of a typed line. -/
theorem keeps_runTyped (hP : Endures P) (text : String) :
    Keeps P (fun _ ↦ True) (runTyped text) :=
  .bind (keeps_startTyped text) fun _ h ↦ keeps_complete hP h

theorem keeps_startProgram (hP : Endures P) : Keeps P Run.IsParsed startProgram := by
  refine .bind (.modify fun _ hs ↦ hP.reset hs) fun _ _ ↦ ?_
  refine .bind keeps_listing fun lines hlines ↦ ?_
  refine .bind (hP.collect hlines) fun _ _ ↦ .bind keeps_checkInterval fun _ _ ↦ ?_
  refine .pure ⟨fun _ ht ↦ absurd ht List.not_mem_nil, ?_⟩
  intro lines' hlines'
  cases hlines'
  exact hlines

/-- The run of the stored program. -/
theorem keeps_runProgram (hP : Endures P) : Keeps P (fun _ ↦ True) runProgram :=
  .bind (keeps_startProgram hP) fun _ h ↦ .bind (keeps_complete hP h) fun _ _ ↦ .pure trivial

/-! ## Commands -/

namespace Command

theorem keeps_listLines (hP : Endures P) (args : List String) :
    Keeps P (fun _ ↦ True) (listLines args) := by
  refine .get fun _ _ ↦ .bind (.mapOption fun _ ↦ keeps_ofStop fun _ _ ↦ trivial) fun start _ ↦ ?_
  refine .bind (.mapOption fun _ ↦ .ite (fun _ ↦ .pure trivial) fun _ ↦ ?_) fun last _ ↦ ?_
  · exact keeps_ofStop fun _ _ ↦ trivial
  · exact .forM fun _ _ ↦ keeps_print hP _

theorem keeps_deleteLines
    (h : ∀ start stop {s}, P s → P { s with program := (s.program.delete start stop).2 })
    (args : List String) : Keeps P (fun _ ↦ True) (deleteLines args) := by
  cases args with
  | nil => exact keeps_fail _
  | cons start rest =>
    refine .ite (fun _ ↦ keeps_fail _) fun _ ↦ ?_
    refine .bind (keeps_ofStop fun _ _ ↦ trivial) fun first _ ↦ ?_
    exact .bind (.mapOption fun _ ↦ keeps_ofStop fun _ _ ↦ trivial) fun last _ ↦
      .modify fun _ hs ↦ h _ _ hs

theorem keeps_finishLoad (h : ∀ content, Keeps P (fun _ ↦ True) (replaceProgram content))
    (name : String) (content : Option String) :
    Keeps P (fun _ ↦ True) (finishLoad name content) := by
  cases content with
  | some content => exact h content
  | none => exact keeps_fail _

theorem keeps_finishCatalog (hP : Endures P) (path : String) (names : Option (List String)) :
    Keeps P (fun _ ↦ True) (finishCatalog path names) := by
  cases names with
  | some names => exact .forM fun _ _ ↦ keeps_print hP _
  | none => exact keeps_fail _

/-- What a command does to the program keeps a property. -/
def Respects (P : Session → Prop) : Command → Prop
  | .new => Keeps P (fun _ ↦ True) discard
  | .renumber => Keeps P (fun _ ↦ True) renumberLines
  | .delete => ∀ args, Keeps P (fun _ ↦ True) (deleteLines args)
  | .load | .yes => ∀ content, Keeps P (fun _ ↦ True) (replaceProgram content)
  | _ => True

end Command

/-- What a command asks for keeps a property. -/
def Request.Respects (P : Session → Prop) : Request → Prop
  | .load _ => ∀ content, Keeps P (fun _ ↦ True) (Command.replaceProgram content)
  | _ => True

namespace Dialogue

/-- The command that a line asks for. -/
def Entry.command? : Entry → Option Command
  | .command text => (Command.lineWords text).head?.bind Command.ofWord?
  | _ => none

/-- What a line does to the program keeps a property. -/
structure Entry.Respects (P : Session → Prop) (entry : Entry) : Prop where
  store : ∀ n text, Keeps P (fun _ ↦ True) (storeLine n text)
  command : ∀ c ∈ entry.command?, c.Respects P

end Dialogue

/-! ## Properties that do not depend on the program -/

section
variable (hreset : ∀ {s}, P s → P s.reset) (hedit : ∀ {s} p, P s → P { s with program := p })

include hreset hedit

theorem keeps_replaceProgram (content : String) :
    Keeps P (fun _ ↦ True) (Command.replaceProgram content) :=
  .bind (.modify fun _ hs ↦ hedit .empty (hreset hs)) fun _ _ ↦
    .bind (keeps_ofStop fun _ _ ↦ trivial) fun program _ ↦ .modify fun _ hs ↦ hedit program hs

theorem Command.respects (c : Command) : c.Respects P := by
  cases c with
  | new => exact .modify fun _ hs ↦ hedit .empty (hreset hs)
  | renumber =>
    exact .get fun _ hs ↦ .bind (keeps_ofNumber fun _ _ ↦ trivial) fun p _ ↦ .set (hedit p.2 hs)
  | delete => exact Command.keeps_deleteLines fun _ _ _ hs ↦ hedit _ hs
  | load | yes => exact keeps_replaceProgram hreset hedit
  | _ => trivial

omit hreset in
theorem keeps_storeLine (n : Int) (text : String) :
    Keeps P (fun _ ↦ True) (Dialogue.storeLine n text) := by
  refine .get fun s hs ↦ .bind (keeps_ofFault fun _ _ ↦ trivial) fun program _ ↦ ?_
  refine .bind (.set (hedit program hs)) fun _ _ ↦ .get fun _ _ ↦ ?_
  refine .bind (keeps_ofStop fun _ _ ↦ trivial) fun free _ ↦ ?_
  refine .bind (keeps_ofStop fun _ _ ↦ trivial) fun isBelow _ ↦ ?_
  refine .ite (fun _ ↦ ?_) fun _ ↦ .pure trivial
  -- The line is taken back where it leaves too little memory.
  exact .bind (keeps_ofFault fun _ _ ↦ trivial) fun restored _ ↦
    .bind (.set (hedit restored hs)) fun _ _ ↦ keeps_fail _

theorem Dialogue.Entry.respects (entry : Entry) : entry.Respects P :=
  ⟨keeps_storeLine hedit, fun c _ ↦ Command.respects (P := P) hreset hedit c⟩

end

theorem Outlasts.edit (hP : Outlasts P) {s : Session} (p : Program) (hs : P s) :
    P { s with program := p } :=
  hP.books hs ⟨⟨⟨rfl, rfl, rfl, rfl, rfl⟩, rfl⟩, rfl⟩

/-! ## Dialogues -/

namespace Dialogue

/-- A property of the session of a dialogue. -/
abbrev Has (P : Session → Prop) (d : Dialogue) : Prop := P d.session

theorem keeps_onSession {α : Type} {Q : α → Prop} {act : Action α} (h : Keeps P Q act) :
    Keeps (Has P) Q (onSession act) := by
  refine ⟨fun d hd ↦ ?_⟩
  have hends := h.run d.session hd
  rw [onSession]
  generalize act d.session = r at hends
  cases hends with
  | ok ha hs => exact .ok ha hs
  | error he hs => exact .error trivial hs

theorem keeps_printLine (hP : Endures P) (text : String) :
    Keeps (Has P) (fun _ ↦ True) (printLine text) :=
  keeps_onSession (keeps_print hP _)

theorem keeps_beginLoad (hP : Endures P)
    (h : ∀ content, Keeps P (fun _ ↦ True) (Command.replaceProgram content))
    (args : List String) : Keeps (Has P) (Request.Respects P) (beginLoad args) := by
  cases args with
  | nil => exact .throw _
  | cons name args =>
    refine .get fun _ _ ↦ .ite (fun _ ↦ ?_) fun _ ↦ .pure h
    refine .bind (.modify fun _ hd ↦ hd) fun _ _ ↦ ?_
    exact .bind (keeps_printLine hP _) fun _ _ ↦ .pure trivial

theorem keeps_confirmed {α : Type} {Q : α → Prop} {act : Exchange α} (h : Keeps (Has P) Q act) :
    Keeps (Has P) Q (confirmed act) := by
  refine ⟨fun d hd ↦ ?_⟩
  have hends := h.run { d with isConfirmed := true } hd
  rw [confirmed]
  generalize act { d with isConfirmed := true } = r at hends
  cases hends with
  | ok ha hd' => exact .ok ha hd'
  | error he hd' => exact .error trivial hd'

theorem keeps_confirm (hP : Endures P)
    (h : ∀ content, Keeps P (fun _ ↦ True) (Command.replaceProgram content)) :
    Keeps (Has P) (Request.Respects P) confirm := by
  refine .get fun d _ ↦ ?_
  cases d.pending with
  | none => exact .throw _
  | some args =>
    exact .bind (.modify fun _ hd ↦ hd) fun _ _ ↦ keeps_confirmed (keeps_beginLoad hP h args)

theorem keeps_alone {act : Action Unit} (h : Keeps P (fun _ ↦ True) act) :
    Keeps (Has P) (Request.Respects P) (begin.alone act) :=
  .bind (keeps_onSession h) fun _ _ ↦ .pure trivial

theorem keeps_begin (hP : Endures P) {c : Command} (h : c.Respects P) (args : List String) :
    Keeps (Has P) (Request.Respects P) (begin c args) := by
  have hbooks : ∀ f : Session → Session, (∀ s : Session, s.SameText (f s)) →
      Keeps P (fun _ ↦ True) (modify f : Action Unit) := fun f hf ↦
    .modify fun s hs ↦ hP.books hs (hf s)
  cases c with
  | run | catalog => exact .pure trivial
  | list => exact keeps_alone (Command.keeps_listLines hP args)
  | new | renumber => exact keeps_alone h
  | delete => exact keeps_alone (h args)
  | save =>
    cases args with
    | nil => exact .throw _
    | cons name args => exact .get fun _ _ ↦ .pure trivial
  | load => exact keeps_beginLoad hP h args
  | yes => exact keeps_confirm hP h
  | free =>
    exact keeps_alone (.get fun _ _ ↦ .bind (keeps_ofStop fun _ _ ↦ trivial) fun _ _ ↦
      keeps_print hP _)
  | traceOn | traceOff | clearScreen =>
    exact keeps_alone (hbooks _ fun _ ↦ ⟨⟨⟨⟨rfl, rfl, rfl, rfl, rfl⟩, rfl⟩, rfl⟩, rfl, rfl, rfl⟩)
  | leave => exact .bind (.modify fun _ hd ↦ hd) fun _ _ ↦ .pure trivial

theorem keeps_beginLine (hP : Endures P) {text : String}
    (h : ∀ c ∈ (Entry.command text).command?, c.Respects P) :
    Keeps (Has P) (Request.Respects P) (beginLine text) := by
  rw [Entry.command?] at h
  rw [beginLine]
  cases hwords : Command.lineWords text with
  | nil => exact .pure trivial
  | cons word args =>
    rw [hwords] at h
    simp only
    cases hword : Command.ofWord? word with
    | some c => exact keeps_begin hP (h c hword) args
    | none => exact .throw _

theorem keeps_ofFile {α : Type} (x : Except FileError α) :
    Keeps (Has P) (fun _ ↦ True) (ofFile x) := by
  cases x with
  | ok a => exact .pure trivial
  | error e => exact .throw _

theorem keeps_readFirst (names : List String) :
    Keeps (Has P) (fun _ ↦ True) (readFirst names) := by
  induction names with
  | nil => exact .pure trivial
  | cons name names ih =>
    refine .get fun d _ ↦ .bind (keeps_ofFile _) fun found _ ↦ ?_
    cases found with
    | some content => exact .pure trivial
    | none => exact ih

theorem keeps_fulfil (hP : Endures P) {request : Request} (h : request.Respects P) :
    Keeps (Has P) (fun _ ↦ True) (fulfil request) := by
  cases request with
  | nothing => exact .pure trivial
  | run => exact keeps_onSession (keeps_runProgram hP)
  | save name content => exact .get fun _ hd ↦ .bind (.set hd) fun _ _ ↦ keeps_ofFile _
  | load name =>
    exact .bind (keeps_readFirst _) fun content _ ↦
      keeps_onSession (Command.keeps_finishLoad h name content)
  | catalog path =>
    exact .get fun _ _ ↦ .bind (keeps_ofFile _) fun names _ ↦
      keeps_onSession (Command.keeps_finishCatalog hP path names)

theorem keeps_enter (hP : Endures P) {entry : Entry} (h : entry.Respects P) :
    Keeps (Has P) (fun _ ↦ True) (enter entry) := by
  cases entry with
  | program digits text =>
    exact keeps_onSession (.bind (keeps_ofNumber fun _ _ ↦ trivial) fun n _ ↦ h.store n text)
  | command text =>
    exact .bind (keeps_beginLine hP h.command) fun _ hrequest ↦ keeps_fulfil hP hrequest
  | statements text =>
    exact keeps_onSession (.bind (keeps_runTyped hP text) fun _ _ ↦ .pure trivial)

section
variable {P : Dialogue → Prop} (hprint : ∀ text, Keeps P (fun _ ↦ True) (printLine text))

include hprint

/-- What printing keeps, the prompt keeps. -/
theorem keeps_prompt : Keeps P (fun _ ↦ True) prompt := by
  have hprompt : Keeps P (fun _ ↦ True) printPrompt := by
    refine .get fun d _ ↦ ?_
    cases d.session.settings.prompt with
    | some text => exact hprint text
    | none => exact .throw _
  exact .get fun _ _ ↦ .ite (fun _ ↦ .pure trivial) fun _ ↦ .bind hprompt fun _ _ ↦ .pure trivial

/-- What holds where a line was done still holds when its faults are told. -/
theorem ends_conclude {d : Dialogue} (entry : Entry) {act : Exchange Unit}
    (h : Ends P (fun _ ↦ True) (fun _ ↦ True) (act d)) :
    Ends P (fun _ ↦ True) (fun _ ↦ True) (conclude entry act d) := by
  unfold conclude
  generalize act d = r at h
  cases h with
  | ok _ hd' =>
    cases entry with
    | program => exact .ok trivial hd'
    | _ => exact (keeps_prompt hprint).run _ hd'
  | @error e _ _ hd' =>
    cases e with
    | file e => exact .error trivial hd'
    | stop stop =>
      cases stop with
      | fault f =>
        exact (Keeps.bind (hprint f.summary) fun _ _ ↦ keeps_prompt hprint).run _ hd'
      | _ => exact .error trivial hd'

end

theorem keeps_conclude (hP : Endures P) (entry : Entry) {act : Exchange Unit}
    (h : Keeps (Has P) (fun _ ↦ True) act) :
    Keeps (Has P) (fun _ ↦ True) (conclude entry act) :=
  ⟨fun d hd ↦ ends_conclude (keeps_printLine hP) entry (h.run d hd)⟩

/-- A typed line. -/
theorem keeps_submit (hP : Endures P) {text : String}
    (h : (entryOf (Text.strip text)).Respects P) : Keeps (Has P) (fun _ ↦ True) (submit text) :=
  .ite (fun _ ↦ .pure trivial) fun _ ↦ keeps_conclude hP _ (keeps_enter hP h)

end Dialogue

end
end LineBasic
