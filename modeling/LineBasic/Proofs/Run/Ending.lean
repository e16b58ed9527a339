import LineBasic.Proofs.Run.Order

/-!
# The end of a run

A statement ends the program by a jump to a line that is meant to be behind all others.  The program
stays the same while it is executed, so nothing is found there, unless the program has a line with
that number or a higher one.

* `keeps_program_execute` — statements leave the program as it is.
* `Machine.IsOf` — a machine on the way through a program, or at a typed line beside it.
* `end_isLast` — the result.
-/

set_option autoImplicit false
namespace LineBasic

/-! ## The program while it is executed -/

section
variable {p : Program}

theorem Program.lineCount_le {n : Int} (hn : 0 ≤ n) (h : ∀ l ∈ p.lines, (l.1 : Int) < n) :
    (p.lineCount : Int) ≤ n := by
  rw [Program.lineCount, Program.lastLine?]
  cases hlast : p.lines.getLast? with
  | none => exact hn
  | some l => exact h l (List.mem_of_getLast? hlast)

theorem Program.lt_lineCount {l : Nat × String} (h : l ∈ p.lines) :
    l.1 < p.lineCount := by
  rw [Program.lineCount, Program.lastLine?]
  cases hlast : p.lines.getLast? with
  | none => exact absurd (List.getLast?_eq_none_iff.1 hlast ▸ h) List.not_mem_nil
  | some last =>
    obtain ⟨before, hlines⟩ := List.getLast?_eq_some_iff.1 hlast
    have hasc := p.ascending
    rw [hlines] at h hasc
    obtain hl | hl := List.mem_append.1 h
    · have hlt := (List.pairwise_append.1 hasc).2.2 l hl last (List.mem_singleton_self last)
      exact Nat.lt_succ_of_lt hlt
    · rw [List.mem_singleton.1 hl]
      exact Nat.lt_succ_self _

/-- A session with a given program. -/
abbrev Session.Holds (p : Program) (s : Session) : Prop := s.program = p

theorem keeps_program_execute (site : Site) (t : Tree) :
    Keeps (Session.Holds p) (fun _ ↦ True) (execute site t) := by
  refine ⟨fun s hs ↦ ?_⟩
  obtain ⟨v, s', heq, h⟩ | ⟨stop, s', heq, h, -⟩ := closes_execute site t s
  · exact heq ▸ .ok trivial (h.program.trans hs)
  · exact heq ▸ .error trivial (h.program.trans hs)

theorem keeps_program_collect (lines : Listing) :
    Keeps (Session.Holds p) (fun _ ↦ True) (collect lines) := by
  have hall : Keeps (Session.Holds p) (fun _ ↦ True) lines.executeCollected :=
    .forM fun e _ ↦ .bind (keeps_program_execute e.1 e.2) fun _ _ ↦ .pure trivial
  exact ⟨fun s hs ↦ Ends.collect ((keeps_unwinding hall fun _ ↦ id).run _ hs) fun _ ↦ id⟩

theorem Session.program_noted (s : Session) (line : Int) : (s.noted line).program = s.program := by
  unfold Session.noted
  split <;> rfl

end

namespace Machine

variable {p : Program} {m m' : Machine} {r : Run} {s s₁ : Session}

/-- A machine on the way through a program: the lines that it goes through, if it has any, are those
of the program. -/
structure IsOf (p : Program) (m : Machine) : Prop where
  program : m.session.program = p
  listing : ∀ lines, m.run.listing = some lines → p.parsed = .ok lines

theorem isOf_of_startProgram (h : startProgram s = .ok r s₁) : IsOf s.program ⟨r, s₁⟩ := by
  obtain ⟨lines, hparsed, hcollect, rfl⟩ := startProgram_eq_ok h
  have hkept := (keeps_program_collect (p := s.program) lines).run s.reset rfl
  rw [hcollect] at hkept
  exact ⟨hkept.of_ok.2, fun lines' heq ↦ Option.some.inj heq ▸ hparsed⟩

theorem isOf_of_startTyped {text : String} (h : startTyped text s = .ok r s₁) :
    IsOf s.program ⟨r, s₁⟩ := by
  obtain ⟨typed, s₂, hparse, h⟩ := bind_run_eq_ok.1 h
  obtain ⟨_, s₃, hinterval, h⟩ := bind_run_eq_ok.1 h
  obtain ⟨rfl, -⟩ := parse_eq_ok hparse
  obtain hok | hfails := checkInterval_cases s₂
  · cases hok.symm.trans hinterval
    cases h
    exact ⟨rfl, nofun⟩
  · cases hfails.symm.trans hinterval

/-- The lines that are read to go on at a site are those of the program, and only read if it has a
line from there on. -/
theorem listing_of_listingFor {site : Site} {listing : Option Listing}
    (h : r.listingFor site s = .ok listing s₁) : s₁ = s ∧
      (listing = r.listing ∨ ∃ lines, listing = some lines ∧ s.program.parsed = .ok lines) := by
  rw [Run.listingFor] at h
  cases hr : r.listing with
  | some lines =>
    rw [hr] at h
    cases h
    exact ⟨rfl, .inl rfl⟩
  | none =>
    rw [hr] at h
    change (if _ then _ else _ : Action (Option Listing)) s = _ at h
    split at h
    · obtain ⟨lines, s₂, hlisting, h⟩ := bind_run_eq_ok.1 h
      cases h
      obtain ⟨rfl, hparsed⟩ := listing_eq_ok hlisting
      exact ⟨rfl, .inr ⟨lines, rfl, hparsed⟩⟩
    · cases h
      exact ⟨rfl, .inl rfl⟩

theorem IsOf.after {site : Site} {statement : Option Tree} (hm : IsOf p ⟨r, s⟩) {r' : Run}
    (h : r.after site statement s = .ok r' s₁) : IsOf p ⟨r', s₁⟩ := by
  cases statement with
  | none =>
    cases h
    exact ⟨hm.program, hm.listing⟩
  | some t =>
    obtain ⟨⟨v, target⟩, s₂, hexecute, h⟩ := bind_run_eq_ok.1 h
    obtain ⟨listing, s₃, hlisting, h⟩ := bind_run_eq_ok.1 h
    cases h
    have hkept := (keeps_program_execute site t).run s hm.program
    rw [hexecute] at hkept
    obtain ⟨rfl, rfl | ⟨lines, rfl, hparsed⟩⟩ := listing_of_listingFor hlisting
    · exact ⟨hkept.of_ok.2, hm.listing⟩
    · exact ⟨hkept.of_ok.2, fun lines' heq ↦
        Option.some.inj heq ▸ hkept.of_ok.2 ▸ hparsed⟩

theorem Steps.isOf (h : m.Steps m') (hm : m.IsOf p) : m'.IsOf p := by
  obtain ⟨q, s, console, -, hafter, hsession⟩ := h.exists_console
  have hnoted : IsOf p ⟨m.run, m.session.noted q.1.line⟩ :=
    ⟨(Session.program_noted _ _).trans hm.program, hm.listing⟩
  have hdone := hnoted.after hafter
  exact ⟨hsession ▸ hdone.program, hdone.listing⟩

theorem Runs.isOf {visits : List Machine} (h : Runs m visits m') (hm : m.IsOf p) : m'.IsOf p := by
  induction h with
  | done => exact hm
  | step h _ ih => exact ih (h.isOf hm)

/-! ## The jump to the end -/

variable {site : Site} {t : Tree} {visits : List Machine}

/-- What is found at the place that the end jumps to is on a line of the program with a number that
is at least as high. -/
theorem IsOf.le_of_next? (hm : m.IsOf p) (hsite : m.run.site = ⟨Builtin.lastLine, 0⟩) {q : Placed}
    (h : m.run.next? = some q) :
    ∃ l ∈ p.lines, q.1.line = l.1 ∧ Builtin.lastLine ≤ q.1.line := by
  have hlast : Builtin.lastLine ≠ typedLine ∧ ¬ Builtin.lastLine < 0 := by decide
  rw [Run.next?, hsite, if_neg hlast.1, if_neg hlast.2] at h
  cases hlisting : m.run.listing with
  | none =>
    rw [hlisting] at h
    cases h
  | some lines =>
    rw [hlisting, Option.getD_some, Listing.first?_eq_find?] at h
    obtain ⟨k, hk, hline, -⟩ := Listing.mem_placed.1 (List.mem_of_find?_eq_some h)
    have hmem : k.1 ∈ p.lines.map Prod.fst :=
      Program.parsed_eq_ok (hm.listing lines hlisting) ▸ List.mem_map_of_mem hk
    obtain ⟨l, hl, hnumber⟩ := List.mem_map.1 hmem
    have hbefore : ¬ q.1.Before ⟨Builtin.lastLine, 0⟩ := by simpa using List.find?_some h
    refine ⟨l, hl, hline.trans (congrArg _ hnumber.symm), ?_⟩
    unfold Site.Before at hbefore
    simp only at hbefore
    omega

/-- After a statement that ends the program, a machine is at the place that the end jumps to. -/
theorem Steps.site_of_finish (h : m.Steps m') {s : Session}
    (hnext : m.run.next? = some (site, some t))
    (hend : evaluate site t (m.session.noted site.line) = .ok Builtin.finishOf s) :
    m'.run.site = ⟨Builtin.lastLine, 0⟩ := by
  obtain ⟨q, s', hq, hafter⟩ := h.exists_after
  cases hnext.symm.trans hq
  obtain ⟨⟨v, target⟩, s₁, hexecute, hrest⟩ := bind_run_eq_ok.1 hafter
  have hsame := EStateM.Result.ok.inj ((execute_of_jump hend).symm.trans hexecute)
  obtain ⟨-, rfl⟩ := Prod.mk.inj hsame.1
  obtain ⟨listing, s₃, -, hrun⟩ := bind_run_eq_ok.1 hrest
  rw [← (EStateM.Result.ok.inj hrun).1]

/-- A program without lines at the place that the end jumps to is not read to go on there. -/
theorem IsOf.exists_after (hm : m.IsOf p) (hlines : ∀ l ∈ p.lines, (l.1 : Int) < Builtin.lastLine)
    {s : Session} (hend : evaluate site t (m.session.noted site.line) = .ok Builtin.finishOf s) :
    ∃ r, m.run.after site (some t) (m.session.noted site.line) = .ok r s := by
  have hkept := (keeps_program_execute (p := p) site t).run (m.session.noted site.line)
    ((Session.program_noted _ _).trans hm.program)
  rw [execute_of_jump hend] at hkept
  have hcount : ¬ Builtin.lastLine < s.program.lineCount :=
    Int.not_lt.2 (Program.lineCount_le (by decide) (hkept.of_ok.2 ▸ hlines))
  have hlisting : m.run.listingFor ⟨Builtin.lastLine, 0⟩ s = .ok m.run.listing s := by
    unfold Run.listingFor
    cases m.run.listing with
    | some lines => rfl
    | none =>
      change (if _ then _ else _ : Action (Option Listing)) s = _
      rw [if_neg fun h ↦ hcount h.2]
      rfl
  exact ⟨_, bind_run_eq_ok.2 ⟨_, s, execute_of_jump hend, bind_run_eq_ok.2 ⟨_, s, hlisting, rfl⟩⟩⟩

/-- In a program without lines at the place that the end jumps to, nothing is executed after a
statement that ends it, and the run ends well. -/
theorem IsOf.ends (hm : m.IsOf p) (hlines : ∀ l ∈ p.lines, (l.1 : Int) < Builtin.lastLine)
    {s : Session} (hnext : m.run.next? = some (site, some t))
    (hend : evaluate site t (m.session.noted site.line) = .ok Builtin.finishOf s) :
    (∀ visits m', Runs m visits m' → visits.length ≤ 1) ∧
      ∀ fuel, ∃ v s', m.run.finish (fuel + 2) m.session = .ok v s' := by
  have hover {m' : Machine} (h : m.Steps m') : m'.run.next? = none := by
    refine Option.eq_none_iff_forall_ne_some.2 fun q hq ↦ ?_
    obtain ⟨l, hl, hline, hle⟩ := (h.isOf hm).le_of_next? (h.site_of_finish hnext hend) hq
    have := hlines l hl
    omega
  constructor
  · intro visits m' h
    cases h with
    | done => exact Nat.zero_le 1
    | step h hrest =>
      cases hrest with
      | done => exact Nat.le_refl 1
      | step h' _ =>
        obtain ⟨q, s', hq, -⟩ := h'.exists_after
        cases (hover h).symm.trans hq
  · intro fuel
    obtain ⟨r, hafter⟩ := hm.exists_after hlines hend
    obtain ⟨console, hstep⟩ | ⟨s', hstep⟩ := step_of_after hnext hafter
    · have hnone : r.next? = none := @hover ⟨r, { s with console }⟩ hstep
      refine ⟨r.value, { s with console }, ?_⟩
      rw [Run.finish, bind_run_of_ok hstep]
      change (r.finish (fuel + 1)) _ = _
      rw [Run.finish, Run.step, hnone]
      rfl
    · refine ⟨r.value, s', ?_⟩
      rw [Run.finish, bind_run_of_ok hstep]
      rfl

/-- Whether the next statement has the jump to the end for its result. -/
def endsNext (m : Machine) : Bool :=
  match m.run.next? with
  | some (site, some t) => match evaluate site t (m.session.noted site.line) with
    | .ok (.jump target) _ => target == ⟨Builtin.lastLine, 0⟩
    | _ => false
  | _ => false

theorem exists_of_endsNext (h : m.endsNext = true) : ∃ site t s,
    m.run.next? = some (site, some t) ∧
      evaluate site t (m.session.noted site.line) = .ok Builtin.finishOf s := by
  rw [endsNext] at h
  split at h
  · rename_i site t hnext
    split at h
    · rename_i target s heval
      rw [beq_iff_eq.1 h] at heval
      exact ⟨site, t, s, hnext, heval⟩
    · cases h
  · cases h

end Machine

/-- Once a statement has been executed whose result is the jump to the end, in a run of the stored
program or of a typed line, no other statement is executed and the run ends well, if all lines of the
program have numbers below the one that is jumped to.  Otherwise a statement that is executed next
is on a line with that number or a higher one. -/
theorem end_isLast {s s₁ s₂ : Session} {r : Run} {visits : List Machine} {m : Machine} {site : Site}
    {t : Tree} (hstart : startProgram s = .ok r s₁ ∨ ∃ text, startTyped text s = .ok r s₁)
    (hruns : Machine.Runs ⟨r, s₁⟩ visits m) (hnext : m.run.next? = some (site, some t))
    (hend : evaluate site t (m.session.noted site.line) = .ok Builtin.finishOf s₂) :
    ((∀ l ∈ s.program.lines, (l.1 : Int) < Builtin.lastLine) →
      (∀ visits' m', Machine.Runs m visits' m' → visits'.length ≤ 1) ∧
        ∀ fuel, ∃ v s', m.run.finish (fuel + 2) m.session = .ok v s') ∧
    ∀ m', m.Steps m' → ∀ q, m'.run.next? = some q →
      ∃ l ∈ s.program.lines, q.1.line = l.1 ∧ Builtin.lastLine ≤ q.1.line := by
  have hm : m.IsOf s.program := by
    obtain hstart | ⟨text, hstart⟩ := hstart
    · exact hruns.isOf (Machine.isOf_of_startProgram hstart)
    · exact hruns.isOf (Machine.isOf_of_startTyped hstart)
  exact ⟨fun hlines ↦ hm.ends hlines hnext hend,
    fun m' h q hq ↦ (h.isOf hm).le_of_next? (h.site_of_finish hnext hend) hq⟩

theorem end_isLast_program :
    let s : Session := { Session.start {} {} .unavailable 0 with
      program := (Program.empty.storeAt 10 "END").storeAt 20 "PRINT 1" }
    ∃ r s₁, startProgram s = .ok r s₁ ∧ (∃ m₁, Machine.Steps ⟨r, s₁⟩ m₁) ∧
      ∀ visits m, Machine.Runs ⟨r, s₁⟩ visits m → visits.length ≤ 1 := by
  intro s
  have hends : ∃ r s₁, startProgram s = .ok r s₁ ∧
      (Machine.endsNext ⟨r, s₁⟩ = true ∧ (Machine.step? ⟨r, s₁⟩).isSome = true) := by
    decide +kernel
  obtain ⟨r, s₁, hstart, hend, hstep⟩ := hends
  obtain ⟨site, t, s₂, hnext, hend⟩ := Machine.exists_of_endsNext hend
  obtain ⟨m₁, hstep⟩ := Option.isSome_iff_exists.1 hstep
  exact ⟨r, s₁, hstart, ⟨m₁, Machine.steps_of_step? hstep⟩,
    ((end_isLast (.inl hstart) (.done _) hnext hend).1 (by decide +kernel)).1⟩

/-- In a program with a line where the end jumps to, that line is executed after the end. -/
theorem not_forall_end_isLast :
    ¬ ∀ (s s₁ s₂ : Session) (r : Run) (visits : List Machine) (m : Machine) (site : Site) (t : Tree),
      (startProgram s = .ok r s₁ ∨ ∃ text, startTyped text s = .ok r s₁) →
      Machine.Runs ⟨r, s₁⟩ visits m → m.run.next? = some (site, some t) →
      evaluate site t (m.session.noted site.line) = .ok Builtin.finishOf s₂ →
      ∀ visits' m', Machine.Runs m visits' m' → visits'.length ≤ 1 := by
  intro h
  have hgoes : ∃ r s₁, startProgram { Session.start {} {} .unavailable 0 with
        program := (Program.empty.storeAt 10 "END").storeAt 9223372036854775807 "PRINT 1" } =
        .ok r s₁ ∧
      (Machine.endsNext ⟨r, s₁⟩ = true ∧
        ((Machine.step? ⟨r, s₁⟩).bind Machine.step?).isSome = true) := by
    decide +kernel
  obtain ⟨r, s₁, hstart, hend, hsteps⟩ := hgoes
  obtain ⟨site, t, s₂, hnext, hend⟩ := Machine.exists_of_endsNext hend
  obtain ⟨m₂, hsteps⟩ := Option.isSome_iff_exists.1 hsteps
  obtain ⟨m₁, hfirst, hsecond⟩ := Option.bind_eq_some_iff.1 hsteps
  have hruns : Machine.Runs ⟨r, s₁⟩ [⟨r, s₁⟩, m₁] m₂ :=
    .step (Machine.steps_of_step? hfirst) (Machine.steps_of_step? hsecond).runs
  exact absurd (h _ s₁ s₂ r [] ⟨r, s₁⟩ site t (.inl hstart) (.done _) hnext hend _ _ hruns)
    (by simp)

end LineBasic
