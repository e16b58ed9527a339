import LineBasic.Proofs.Abreast.Relocation
import LineBasic.Proofs.Run.Ending
import LineBasic.Proofs.Tree.Attribution
import LineBasic.Proofs.Tree.Words

/-!
# Typed lines as programs

A line of statements that depend on no other line does the same whether it is typed or is the only
line of a program that is run.  The two runs are compared step by step: they are at the same place
of the line, the one with the number of a typed line and the other with that of the stored one, or
both at their end.

* `Run.Alongside` — runs at the same place.
* `beside_step`, `beside_finish` — a step, and all of them.
* `beside_start` — how both start.
* `Likewise` — how the ends of whole runs compare.
* `typed_likewise` — the result.
-/

set_option autoImplicit false
namespace LineBasic

/-! ## Consoles that do not stop runs -/

/-- A console that never stops a run: it does not do so on its own, and was not asked to. -/
structure Console.IsPatient (c : Console) : Prop where
  breakEvery : c.breakEvery = none
  stopRequested : c.stopRequested = false

theorem Console.IsPatient.poll {c : Console} (h : c.IsPatient) :
    c.poll.1 = false ∧ c.poll.2.IsPatient := by
  refine ⟨?_, h.breakEvery, rfl⟩
  rw [Console.poll, h.breakEvery, h.stopRequested]
  rfl

theorem Session.Change.isPatient {s s' : Session} (h : s.Change s') (hs : s.console.IsPatient) :
    s'.console.IsPatient := by
  cases h with
  | assigned h =>
    obtain ⟨vars, -, rfl⟩ := eq_of_assign h
    exact hs
  | printed text => exact ⟨hs.breakEvery, hs.stopRequested⟩
  | lineRead h =>
    unfold Console.readLine? at h
    split at h
    · cases h
    · cases h
      exact ⟨hs.breakEvery, hs.stopRequested⟩
  | _ => exact hs

theorem Session.Evolves.isPatient {s s' : Session} (h : s.Evolves s')
    (hs : s.console.IsPatient) : s'.console.IsPatient := by
  induction h with
  | refl => exact hs
  | tail _ hchange ih => exact hchange.isPatient ih

/-- What the runs keep: all functions use builtins only that do not depend on the line, and the
console is patient. -/
structure Session.IsCalm (s : Session) : Prop where
  permits : s.Permits Builtin.isPortable
  console : s.console.IsPatient

theorem ends_execute_isCalm (site : Site) {t : Tree} (ht : t.formsOnly Builtin.isPortable = true)
    {s : Session} (hs : s.IsCalm) :
    Ends Session.IsCalm (fun _ ↦ True) (fun _ ↦ True) (execute site t s) := by
  have hpermits := ends_execute_permitted site ht hs.permits
  obtain ⟨q, s', heq, h⟩ | ⟨stop, s', heq, h, -⟩ := closes_execute site t s
  · rw [heq] at hpermits ⊢
    exact .ok trivial ⟨hpermits.of_ok.2, h.isPatient hs.console⟩
  · rw [heq] at hpermits ⊢
    exact .error trivial ⟨hpermits.of_error.2, h.isPatient hs.console⟩

/-! ## Steps -/

/-- Statements that do the same on all lines. -/
def Statements.ArePortable (statements : Statements) : Prop :=
  ∀ t, some t ∈ statements →
    t.callsOnly Builtin.isPortable = true ∧ t.formsOnly Builtin.isPortable = true

/-- A run of a typed line, and a run of a program whose only line has the same statements, at the
same place. -/
structure Run.Alongside (statements : Statements) (n : Nat) (r r' : Run) : Prop where
  typed : r.typed = statements
  listing : r.listing = none
  listing' : r'.listing = some [(n, statements)]
  executed : r'.executed = r.executed
  site : Site.Follows typedLine n r.site r'.site ∨ r.site = ⟨typedLine, 0⟩ ∧ r'.site = ⟨1, 0⟩

section
variable {statements : Statements} {n : Nat} {r r' : Run} {s s' : Session}

theorem first?_single {site : Site} (hline : site.line ≤ n) (k : Nat)
    (hk : k = if (n : Int) = site.line then site.statement else 0) :
    Listing.first? [(n, statements)] site = statements[k]?.map fun t ↦ (⟨n, k⟩, t) := by
  subst hk
  simp only [Listing.first?, List.findSome?_cons, List.findSome?_nil,
    if_neg (Int.not_lt.2 hline)]
  cases statements[if (n : Int) = site.line then site.statement else 0]? <;> rfl

/-- Runs at the same place go on with the same statement, or are both at their end. -/
theorem Run.Alongside.next? (h : r.Alongside statements n r') (hfirst : 1 ≤ n)
    (hlast : (n : Int) < Builtin.lastLine) :
    r.next? = none ∧ r'.next? = none ∨ ∃ a a' statement, r.next? = some (a, statement) ∧
      r'.next? = some (a', statement) ∧ a.Moved typedLine n a' ∧ statement ∈ statements := by
  have hgoes (k : Nat) (hsite : r.site = ⟨typedLine, k⟩)
      (hnext : r'.next? = statements[k]?.map fun t ↦ (⟨n, k⟩, t)) :
      r.next? = none ∧ r'.next? = none ∨ ∃ a a' statement, r.next? = some (a, statement) ∧
        r'.next? = some (a', statement) ∧ a.Moved typedLine n a' ∧ statement ∈ statements := by
    have hleft : r.next? = statements[k]?.map (⟨typedLine, k⟩, ·) := by
      rw [Run.next?, hsite, if_pos rfl, h.typed]
    rw [hleft, hnext]
    cases hstatement : statements[k]? with
    | none => exact .inl ⟨rfl, rfl⟩
    | some statement =>
      exact .inr ⟨_, _, statement, rfl, rfl, ⟨rfl, rfl, rfl⟩, List.mem_of_getElem? hstatement⟩
  have hlisted {line : Int} {k : Nat} (hsite : r'.site = ⟨line, k⟩) (hline : 1 ≤ line) :
      r'.next? = Listing.first? [(n, statements)] ⟨line, k⟩ := by
    have htyped : ¬ line = typedLine := by
      rintro rfl
      cases hline
    have hpositive : ¬ line < 0 := by omega
    rw [Run.next?, hsite, if_neg htyped, if_neg hpositive, h.listing']
    rfl
  obtain hsite | ⟨hsite, hsite'⟩ := h.site
  · cases hr : r.site with | mk line k =>
    cases hr' : r'.site with | mk line' k' =>
    rw [hr, hr'] at hsite
    cases hsite with
    | moved hmoved =>
      obtain ⟨rfl, rfl, rfl⟩ := hmoved
      refine hgoes k' hr ?_
      have hline : (1 : Int) ≤ n := by exact_mod_cast hfirst
      rw [hlisted hr' hline]
      exact first?_single (Int.le_refl _) k' (by simp)
    | finish =>
      refine .inl ⟨?_, ?_⟩
      · rw [Run.next?, hr, h.listing]
        rfl
      · rw [hlisted hr' (by decide)]
        simp [Listing.first?, hlast]
  · refine hgoes 0 hsite ?_
    rw [hlisted hsite' (by decide)]
    have hline : (1 : Int) ≤ n := by exact_mod_cast hfirst
    exact first?_single hline 0 (by simp)

/-- Without a stored program there is no listing to go on in. -/
theorem Run.listingFor_empty {site : Site} (hr : r.listing = none) (hs : s.program = .empty) :
    r.listingFor site s = .ok none s := by
  rw [Run.listingFor, hr]
  change (if 0 ≤ site.line ∧ site.line < s.program.lineCount then _ else _ : Action _) s = _
  have hnever : ¬ (0 ≤ site.line ∧ site.line < s.program.lineCount) := by
    rw [hs]
    change ¬ (0 ≤ site.line ∧ site.line < 0)
    omega
  rw [if_neg hnever]
  rfl

theorem noted_relocated {a a' : Site} (ha : a.Moved typedLine n a')
    (hs : (relocating typedLine n).sessions s s') :
    (relocating typedLine n).sessions (s.noted a.line) (s'.noted a'.line) := by
  have hleft : s.noted a.line = s := by
    rw [ha.line, Session.noted, if_neg (by simp)]
  rw [hleft, Session.noted]
  split
  · refine ⟨⟨hs.part.program, hs.part.returns, hs.part.returns', hs.part.loops⟩, ?_⟩
    conv_lhs => rw [hs.rest]
    rfl
  · exact hs

/-- What a step is compared in: places do not count, and the first run is calm. -/
abbrev calmly (n : Nat) : Likeness :=
  (relocated typedLine n).keeping Session.IsCalm

theorem beside_after (h : r.Alongside statements n r') {a a' : Site}
    (ha : a.Moved typedLine n a') {statement : Option Tree} (hmem : statement ∈ statements)
    (hportable : Statements.ArePortable statements) (hs : (calmly n).sessions s s') :
    Beside (calmly n) (Run.Alongside statements n) (r.after a statement s)
      (r'.after a' statement s') := by
  cases statement with
  | none =>
    have hexecuted := congrArg (· + 1) h.executed
    exact .ok ⟨h.typed, h.listing, h.listing', hexecuted, .inl (.moved ha.next)⟩ hs
  | some t =>
    obtain ⟨hcalls, hforms⟩ := hportable t hmem
    have hexecute := (beside_execute ha hcalls hforms hs.1 hs.2.permits).keeping
      (ends_execute_isCalm a hforms hs.2)
    refine hexecute.bind fun p p' s₁ s₁' hp h₁ ↦ ?_
    obtain ⟨v, next⟩ := p
    obtain ⟨v', next'⟩ := p'
    have hleft : r.listingFor next s₁ = .ok none s₁ :=
      Run.listingFor_empty h.listing h₁.1.part.program
    have hright : r'.listingFor next' s₁' = .ok (some [(n, statements)]) s₁' := by
      rw [Run.listingFor, h.listing']
      rfl
    dsimp only
    rw [bind_run_of_ok hleft, bind_run_of_ok hright]
    exact .ok ⟨h.typed, rfl, rfl, congrArg (· + 1) h.executed, .inl hp.2⟩ h₁

/-- What steps of two runs lead to: runs at the same place again, or the end of both. -/
inductive Progress.Alongside (statements : Statements) (n : Nat) : Progress → Progress → Prop
  | going {r r' : Run} (h : r.Alongside statements n r') :
      Alongside statements n (.going r) (.going r')
  | ended (v v' : Value) : Alongside statements n (.ended v) (.ended v')

theorem beside_step (h : r.Alongside statements n r') (hfirst : 1 ≤ n)
    (hlast : (n : Int) < Builtin.lastLine) (hportable : Statements.ArePortable statements)
    (hs : (calmly n).sessions s s') :
    Beside (calmly n) (Progress.Alongside statements n) (r.step s) (r'.step s') := by
  obtain ⟨hnext, hnext'⟩ | ⟨a, a', statement, hnext, hnext', ha, hmem⟩ := h.next? hfirst hlast
  · rw [Run.step, hnext, Run.step, hnext']
    exact .ok (.ended _ _) hs
  · have hnoted : (s.noted a.line).IsCalm := by
      rw [ha.line, Session.noted, if_neg (by simp)]
      exact hs.2
    have hafter := beside_after h ha hmem hportable ⟨noted_relocated ha hs.1, hnoted⟩
    generalize hl : r.after a statement (s.noted a.line) = l,
      hl' : r'.after a' statement (s'.noted a'.line) = l' at hafter
    cases hafter with
    | @ok r₁ r₁' s₁ s₁' hr hs₁ =>
      have hsettings : s₁'.settings = s₁.settings := by
        rw [hs₁.1.rest]
        rfl
      have hconsole : s₁'.console = s₁.console := by
        rw [hs₁.1.rest]
        rfl
      rw [Machine.step_eq_of_after (m := ⟨r, s⟩) hnext hl,
        Machine.step_eq_of_after (m := ⟨r', s'⟩) hnext' hl', hsettings, hconsole, hr.executed,
        hs₁.2.console.poll.1]
      split
      · rw [if_neg (by simp), if_neg (by simp)]
        refine .ok (.going hr) ⟨⟨?_, ?_⟩, ?_⟩
        · exact ⟨hs₁.1.part.program, hs₁.1.part.returns, hs₁.1.part.returns', hs₁.1.part.loops⟩
        · conv_lhs => rw [hs₁.1.rest]
          rfl
        · exact ⟨hs₁.2.permits.books ⟨rfl, rfl, rfl, rfl, rfl⟩, hs₁.2.console.poll.2⟩
      · exact .ok (.going hr) hs₁
    | @error e e' s₁ s₁' he hs₁ =>
      rw [Machine.step_of_after_error (m := ⟨r, s⟩) hnext hl,
        Machine.step_of_after_error (m := ⟨r', s'⟩) hnext' hl']
      exact .error he hs₁
    | @left e s₁ _ he =>
      rw [Machine.step_of_after_error (m := ⟨r, s⟩) hnext hl]
      exact .left he
    | @escaped _ e s₁' he =>
      rw [Machine.step_of_after_error (m := ⟨r', s'⟩) hnext' hl']
      exact .escaped he

/-! ## Whole runs -/

/-- Runs at the same place end in the same way. -/
theorem beside_finish (h : r.Alongside statements n r') (hfirst : 1 ≤ n)
    (hlast : (n : Int) < Builtin.lastLine) (hportable : Statements.ArePortable statements)
    (hs : (calmly n).sessions s s') (fuel : Nat) :
    Beside (calmly n) (fun _ _ ↦ True) (r.finish fuel s) (r'.finish fuel s') := by
  induction fuel generalizing r r' s s' with
  | zero => exact .error rfl hs
  | succ fuel ih =>
    rw [Run.finish, Run.finish]
    refine (beside_step h hfirst hlast hportable hs).bind fun p p' s₁ s₁' hp h₁ ↦ ?_
    cases hp with
    | going hr => exact ih hr h₁
    | ended v v' => exact .ok trivial h₁

/-- After the faults of both runs nothing is under way. -/
theorem Beside.unwinding {α : Type} {Q : α → α → Prop} {act act' : Action α}
    (h : Beside (relocated typedLine n) Q (act s) (act' s')) :
    Beside (relocated typedLine n) Q (act.unwinding s) (act'.unwinding s') := by
  have hunwind {s₁ s₁' : Session} (h₁ : (relocating typedLine n).sessions s₁ s₁') :
      (relocating typedLine n).sessions s₁.unwind s₁'.unwind := by
    refine ⟨⟨h₁.part.program, rfl, rfl, .nil⟩, ?_⟩
    conv_lhs => rw [h₁.rest]
    rfl
  unfold Action.unwinding
  generalize act s = l, act' s' = l' at h
  cases h with
  | ok ha h₁ => exact .ok ha h₁
  | @error e e' _ _ he h₁ =>
    cases e with
    | fault f =>
      cases e' with
      | fault f' => exact .error he (hunwind h₁)
      | _ => cases he
    | _ =>
      cases e' with
      | fault f' => cases he
      | _ => exact .error he h₁
  | left he =>
    obtain ⟨f, rfl, hf⟩ := he
    exact .left ⟨f, rfl, hf⟩
  | escaped he =>
    obtain ⟨f, rfl, hf⟩ := he
    exact .escaped ⟨f, rfl, hf⟩

/-- What is kept in mind of a first part need not be kept in mind after it. -/
theorem Beside.bind_keeping {α β : Type} {Q : α → α → Prop} {Q' : β → β → Prop}
    {P : Session → Prop} {L : Likeness} {x x' : Action α} {f f' : α → Action β}
    (hx : Beside (L.keeping P) Q (x s) (x' s'))
    (hf : ∀ a a' s s', Q a a' → (L.keeping P).sessions s s' → Beside L Q' (f a s) (f' a' s')) :
    Beside L Q' ((x >>= f) s) ((x' >>= f') s') := by
  change Beside L Q' (EStateM.bind x f s) (EStateM.bind x' f' s')
  unfold EStateM.bind
  generalize x s = l, x' s' = l' at hx
  cases hx with
  | ok ha hs => exact hf _ _ _ _ ha hs
  | error he hs => exact .error he hs.1
  | left he => exact .left he
  | escaped he => exact .escaped he

theorem beside_complete (h : r.Alongside statements n r') (hfirst : 1 ≤ n)
    (hlast : (n : Int) < Builtin.lastLine) (hportable : Statements.ArePortable statements)
    (hs : (calmly n).sessions s s') :
    Beside (relocated typedLine n) (fun _ _ ↦ True) (r.complete s) (r'.complete s') := by
  have hfuel : s'.fuel = s.fuel := by
    rw [hs.1.rest]
    rfl
  refine .unwinding ?_
  rw [get_bind_run, get_bind_run, hfuel]
  refine (beside_finish h hfirst hlast hportable hs _).bind_keeping fun _ _ s₁ s₁' _ ⟨h₁, _⟩ ↦
    .ok trivial ⟨⟨h₁.part.program, h₁.part.returns, h₁.part.returns', h₁.part.loops⟩, ?_⟩
  conv_lhs => rw [h₁.rest]
  rfl

/-! ## The starts of runs -/

theorem Stop.unplaced_onLine (line : Option Int) (e : Stop) :
    (e.onLine line).unplaced = e.unplaced := by
  cases e <;> rfl

/-- A text is read in the same way in both runs. -/
theorem abreast_parse (n : Nat) (text : String) : Abreast (relocated typedLine n) Eq
    (Action.parse none text) (Action.parse (some n) text) := by
  unfold Action.parse
  rw [parseLine_onLine Builtin.isName none (some n)]
  cases parseLine Builtin.isName none text with
  | error e => exact .throw (e.unplaced_onLine _)
  | ok statements =>
    refine Detached.relocated ?_
    refine .bind (.ofStop _) fun statements ↦ .get (fun _ ↦ rfl) fun s ↦
      .ite (.bind (.forIn (fun statement _ ↦ ?_) _ _) fun _ ↦ .pure _) (.pure _)
    cases statement with
    | none => exact .pure _
    | some t =>
      exact .get (fun _ ↦ rfl) fun _ ↦ .bind (.ofStop _) fun _ ↦ .pure _

/-- A program with one line starts with its statements. -/
theorem startProgram_single {text : String} (h : s.program.lines = [(n, text)]) :
    startProgram s = (Action.parse (some n) text >>= fun statements ↦ do
      collect [(n, statements)]
      Action.checkInterval
      return { listing := some [(n, statements)], site := ⟨1, 0⟩ }) s.reset := by
  have hlisting : Action.listing s.reset =
      (Action.parse (some n) text >>= fun statements ↦ return [(n, statements)]) s.reset := by
    have hlines : s.reset.program.lines = [(n, text)] := h
    rw [Action.listing, get_bind_run, hlines, List.mapM_cons, List.mapM_nil]
    change EStateM.bind (EStateM.bind _ _) _ _ = EStateM.bind _ _ _
    unfold EStateM.bind
    cases Action.parse (some n) text s.reset <;> rfl
  change (Action.listing >>= _) s.reset = _
  cases hparse : Action.parse (some n) text s.reset with
  | ok statements s₁ =>
    rw [bind_run_of_ok hparse] at hlisting
    rw [bind_run_of_ok hlisting, bind_run_of_ok hparse]
  | error e s₁ =>
    rw [bind_run_eq_error.2 (.inl hparse)] at hlisting
    rw [bind_run_eq_error.2 (.inl hlisting), bind_run_eq_error.2 (.inl hparse)]

theorem isCollected_of_callsOnly {t : Tree} (h : t.callsOnly Builtin.isPortable = true) :
    isCollected t = false := by
  unfold isCollected
  split
  · rename_i name args separators
    have hbuiltin := (Tree.callsOnly_iff.1 h).1
    rw [Bool.or_eq_false_iff, beq_eq_false_iff_ne, beq_eq_false_iff_ne]
    refine ⟨?_, ?_⟩
    · rintro rfl
      exact absurd (hbuiltin .data (Builtin.ofName?_name .data)) (by decide)
    · rintro rfl
      exact absurd (hbuiltin .label (Builtin.ofName?_name .label)) (by decide)
  · rfl

theorem collect_of_nil {lines : Listing} (hnone : lines.collected = [])
    (hs : s.isCollecting = false) : collect lines s = .ok () s := by
  rw [collect, hnone]
  change EStateM.Result.ok () { s with isCollecting := false } = _
  rw [← hs]

/-- Where all statements do the same on all lines, there is nothing to collect. -/
theorem collect_portable (hportable : Statements.ArePortable statements)
    (hs : s.isCollecting = false) : collect [(n, statements)] s = .ok () s := by
  refine collect_of_nil (List.eq_nil_iff_forall_not_mem.2 fun ⟨site, t⟩ hmem ↦ ?_) hs
  obtain ⟨hplaced, hcollected⟩ := Listing.mem_collected.1 hmem
  obtain ⟨l, hl, -, hget⟩ := Listing.mem_placed.1 hplaced
  obtain rfl := List.mem_singleton.1 hl
  obtain ⟨hcalls, -⟩ := hportable t (List.mem_of_getElem? hget)
  cases (isCollected_of_callsOnly hcalls).symm.trans hcollected

theorem beside_checkInterval (hs : (calmly n).sessions s s') :
    Beside (calmly n) Eq (Action.checkInterval s) (Action.checkInterval s') := by
  have hdetached : Detached Action.checkInterval := .get (fun _ ↦ rfl) fun s ↦ by
    cases s.settings.interval with
    | other => exact .throw _
    | _ => exact .pure _
  have hends : Ends Session.IsCalm (fun _ ↦ True) (fun _ ↦ True) (Action.checkInterval s) := by
    obtain hok | hfails := checkInterval_cases s
    · exact hok ▸ .ok trivial hs.2
    · exact hfails ▸ .error trivial hs.2
  exact (hdetached.relocated.run s s' hs.1).keeping hends

/-- A typed line, and a program whose only line has the same text, start at the same place. -/
theorem beside_start {text : String} (hlines : s'.program.lines = [(n, text)])
    (hportable : ∀ statements, parseLine Builtin.isName none text = .ok statements →
      Statements.ArePortable statements)
    (hcollecting : s'.isCollecting = false) (hs : (calmly n).sessions s s'.reset) :
    Beside (calmly n) (fun r r' ↦ ∃ statements, Statements.ArePortable statements ∧
      r.Alongside statements n r') (startTyped text s) (startProgram s') := by
  have hparse := ((abreast_parse n text).run s s'.reset hs.1).keeping
    ((keeps_parse none text).run s hs.2)
  rw [startTyped, startProgram_single hlines]
  generalize hl : Action.parse none text s = l, hl' : Action.parse (some n) text s'.reset = l'
    at hparse
  cases hparse with
  | @ok statements _ s₁ s₁' heq h₁ =>
    subst heq
    obtain ⟨rfl, hread⟩ := parse_eq_ok hl
    obtain ⟨rfl, -⟩ := parse_eq_ok hl'
    have hstatements := hportable statements hread
    have hcollect : collect [(n, statements)] s'.reset = .ok () s'.reset :=
      collect_portable hstatements hcollecting
    rw [bind_run_of_ok hl, bind_run_of_ok hl', bind_run_of_ok hcollect]
    exact (beside_checkInterval h₁).bind fun _ _ _ _ _ h₂ ↦
      .ok ⟨statements, hstatements, rfl, rfl, rfl, rfl, .inr ⟨rfl, rfl⟩⟩ h₂
  | error he h₁ =>
    rw [bind_run_eq_error.2 (.inl hl), bind_run_eq_error.2 (.inl hl')]
    exact .error he h₁
  | left he =>
    rw [bind_run_eq_error.2 (.inl hl)]
    exact .left he
  | escaped he =>
    rw [bind_run_eq_error.2 (.inl hl')]
    exact .escaped he

/-! ## The result -/

/-- Sessions after a typed line, and after a program whose only line, with the number `n`, has the
same text.  They differ in the program, in what was traced and in the random numbers to come, and
the heads of open loops are at the same places of the line. -/
structure Session.AgreesAt (n : Nat) (s s' : Session) : Prop where
  rest : s' = { s with
    program := s'.program, loops := s'.loops, traced := s'.traced, random := s'.random }
  loops : List.Forall₂ (Loop.Same (Site.Moved typedLine n)) s.loops s'.loops

/-- Ends of a typed line and of such a program that are alike, up to the number of the line. -/
inductive Likewise (n : Nat) {α β : Type} :
    EStateM.Result Stop Session α → EStateM.Result Stop Session β → Prop
  | ok {a : α} {b : β} {s s' : Session} (hs : s.AgreesAt n s') : Likewise n (.ok a s) (.ok b s')
  | error {e e' : Stop} {s s' : Session} (he : e'.unplaced = e.unplaced) (hs : s.AgreesAt n s') :
      Likewise n (.error e s) (.error e' s')

/-- A run that ends for want of memory. -/
def RunsFull {α : Type} (r : EStateM.Result Stop Session α) : Prop :=
  ∃ e s, r = .error e s ∧ e.IsFull

instance Stop.decidableIsFull : (e : Stop) → Decidable e.IsFull
  | .fault f => decidable_of_iff (f.kind = .outOfMemory)
    ⟨fun h ↦ ⟨f, rfl, h⟩, fun ⟨_, heq, h⟩ ↦ by cases heq; exact h⟩
  | .mishap _ | .endlessNesting | .endOfInput | .staleArray | .staleSubscript | .misfit
  | .outOfFuel => isFalse fun ⟨_, heq, _⟩ ↦ by cases heq

instance decidableRunsFull {α : Type} : (r : EStateM.Result Stop Session α) → Decidable (RunsFull r)
  | .ok _ _ => isFalse fun ⟨_, _, heq, _⟩ ↦ by cases heq
  | .error e s => decidable_of_iff e.IsFull
    ⟨fun h ↦ ⟨e, s, rfl, h⟩, fun ⟨_, _, heq, h⟩ ↦ by cases heq; exact h⟩

theorem agreesAt_of_relocated (h : (relocating typedLine n).sessions s s') : s.AgreesAt n s' := by
  refine ⟨?_, h.part.loops⟩
  have hreturns : s'.returns = s.returns := h.part.returns'.trans h.part.returns.symm
  conv_lhs => rw [h.rest]
  change { s with
    program := s'.program, returns := s'.returns, loops := s'.loops, traced := s'.traced
    random := s'.random } = _
  rw [hreturns]

theorem runProgram_eq (s : Session) : runProgram s =
    match (startProgram >>= Run.complete) s with
    | .ok _ s => .ok () s
    | .error e s => .error e s := by
  change (startProgram >>= fun r ↦ r.complete >>= fun _ ↦ pure ()) s = _
  cases hstart : startProgram s with
  | ok r s₁ =>
    rw [bind_run_of_ok hstart, bind_run_of_ok hstart]
    change EStateM.bind r.complete _ s₁ = _
    unfold EStateM.bind
    cases r.complete s₁ <;> rfl
  | error e s₁ =>
    rw [bind_run_eq_error.2 (.inl hstart), bind_run_eq_error.2 (.inl hstart)]

/-- A line of statements that do the same on all lines, typed in a fresh session, ends like the
program whose only line it is, run in another fresh session. -/
theorem likewise_of_portable {text : String} {program : Program} (hfirst : 1 ≤ n)
    (hlast : (n : Int) < Builtin.lastLine) (hlines : program.lines = [(n, text)])
    (hportable : ∀ statements, parseLine Builtin.isName none text = .ok statements →
      Statements.ArePortable statements)
    (settings : Settings) {console : Console} (hconsole : console.IsPatient) (bus : Bus)
    (seed seed' : UInt64)
    (hmemory : ¬ RunsFull (runTyped text (.start settings console bus seed)))
    (hmemory' : ¬ RunsFull
      (runProgram { Session.start settings console bus seed' with program })) :
    Likewise n (runTyped text (.start settings console bus seed))
      (runProgram { Session.start settings console bus seed' with program }) := by
  generalize hs : Session.start settings console bus seed = s at hmemory ⊢
  generalize hs' : { Session.start settings console bus seed' with program } = s' at hmemory' ⊢
  have hcalm : s.IsCalm := by
    subst hs
    exact ⟨Session.permits_reset (.start settings console bus seed), hconsole⟩
  have hsessions : (relocating typedLine n).sessions s s'.reset := by
    subst hs hs'
    exact ⟨⟨rfl, rfl, rfl, .nil⟩, rfl⟩
  have hstored : s'.program.lines = [(n, text)] ∧ s'.isCollecting = false := by
    subst hs'
    exact ⟨hlines, rfl⟩
  have hbeside : Beside (relocated typedLine n) (fun _ _ ↦ True) (runTyped text s)
      ((startProgram >>= Run.complete) s') :=
    (beside_start hstored.1 hportable hstored.2 ⟨hsessions, hcalm⟩).bind_keeping
      fun _ _ _ _ ⟨_, hstatements, hr⟩ h ↦ beside_complete hr hfirst hlast hstatements h
  rw [runProgram_eq] at hmemory' ⊢
  generalize runTyped text s = l, (startProgram >>= Run.complete) s' = l'
    at hbeside hmemory hmemory' ⊢
  cases hbeside with
  | ok _ h => exact .ok (agreesAt_of_relocated h)
  | error he h => exact .error he (agreesAt_of_relocated h)
  | left he => exact absurd ⟨_, _, rfl, he⟩ hmemory
  | escaped he => exact absurd ⟨_, _, rfl, he⟩ hmemory'

end

/-- The words by which a line depends on other lines, on the program around it or on earlier random
numbers. -/
def dependingWords : List String :=
  ["GOTO", "GOSUB", "ON", "DATA", "LABEL", "RESOLVE", "RND"]

theorem Builtin.name_mem_dependingWords {b : Builtin} (h : b.isPortable = false) :
    b.name ∈ dependingWords := by
  cases b <;> first | (cases h; done) | decide

theorem Builtin.permitsForms_isPortable : PermitsForms isPortable where
  unary op := by cases op <;> rfl
  binary op b h := by
    cases op <;> first | (cases h; rfl) | cases h
  dim := rfl

/-- A line that mentions no word by which it would depend on its place, typed in a fresh session,
does the same as the program whose only line it is, run in another fresh session with the same
settings, console and devices.  If neither runs out of memory, they end in the same way: both end
well or both fail, with the same stop up to the place, and they have printed and read the same and
leave the same values, options and open loops, up to the number of the line. -/
theorem typed_likewise (settings : Settings) (console : Console) (hconsole : console.IsPatient)
    (bus : Bus) (seed seed' : UInt64) (n : Nat) (hfirst : 1 ≤ n)
    (hlast : (n : Int) < Builtin.lastLine) (text : String) (hstrip : Text.strip text = text)
    (hne : text ≠ "") (hwords : ∀ word ∈ dependingWords, mentions text word = false)
    (hmemory : ¬ RunsFull (runTyped text (.start settings console bus seed)))
    (hmemory' : ¬ RunsFull (runProgram { Session.start settings console bus seed' with
      program := Program.empty.storeAt n text })) :
    Likewise n (runTyped text (.start settings console bus seed))
      (runProgram { Session.start settings console bus seed' with
        program := Program.empty.storeAt n text }) := by
  have hlines : (Program.empty.storeAt n text).lines = [(n, text)] := by
    have hstored : text.isEmpty = false := by simpa using hne
    rw [Program.storeAt, hstrip, hstored]
    rfl
  refine likewise_of_portable hfirst hlast hlines (fun statements hparse t ht ↦ ?_) settings
    hconsole bus seed seed' hmemory hmemory'
  have huses := uses_parseLine Builtin.permitsForms_isPortable
    (fun b hb ↦ hwords b.name (Builtin.name_mem_dependingWords hb)) hparse ht
  exact ⟨huses.calls, huses.forms⟩

theorem typed_likewise_loop :
    Likewise 10
      (runTyped "FOREACH X IN \x7b\"A\", \"B\"\x7d: PRINT X: NEXT" (.start {} {} .unavailable 0))
      (runProgram { Session.start {} {} .unavailable 1 with
        program := Program.empty.storeAt 10 "FOREACH X IN \x7b\"A\", \"B\"\x7d: PRINT X: NEXT" }) :=
  typed_likewise {} {} ⟨rfl, rfl⟩ .unavailable 0 1 10 (by decide) (by decide) _
    (by decide +kernel) (by decide) (by decide +kernel) (by decide +kernel) (by decide +kernel)

end LineBasic
