import LineBasic.Proofs.Run.Order
import LineBasic.Proofs.Tree.Attribution

/-!
# The places of faults

A fault that comes up in evaluation is attributed to no line, however deep in calls it comes up;
only the statement that is executed attributes it, to its own place.  A fault of reading a line is
attributed to the line.  So each fault of a run of the stored program has a place in the program:
that of the first line that cannot be read, or that of the statement that fails.

* `exists_of_mapM_run_eq_error`, `exists_of_forM_run_eq_error` — the first action that fails.
* `listing_eq_fault` — programs that cannot be read.
* `Machine.exists_runs_of_finish_eq_error` — runs that fail.
* `Session.Performs` — the statements that a run of the stored program executes.
* `runProgram_fault_isPlaced` — the result.
-/

set_option autoImplicit false
namespace LineBasic

/-! ## The first failure of a list of actions -/

section
variable {ε σ α γ : Type} {s s' : σ} {e : ε}

/-- A list of actions that change nothing where they succeed fails as the first of them that
fails. -/
theorem exists_of_mapM_run_eq_error {g : γ → EStateM ε σ α} {cs : List γ}
    (hstays : ∀ c a s', g c s = .ok a s' → s' = s) (h : cs.mapM g s = .error e s') :
    ∃ done c rest, cs = done ++ c :: rest ∧ (∀ d ∈ done, ∃ a, g d s = .ok a s) ∧
      g c s = .error e s' := by
  induction cs with
  | nil => cases h
  | cons c cs ih =>
    rw [List.mapM_cons] at h
    obtain hc | ⟨a, s₁, hc, hcs⟩ := bind_run_eq_error.1 h
    · exact ⟨[], c, cs, rfl, nofun, hc⟩
    obtain rfl := hstays c a s₁ hc
    obtain hcs | ⟨as, s₂, -, hcs⟩ := bind_run_eq_error.1 hcs
    · obtain ⟨done, d, rest, rfl, hdone, hd⟩ := ih hcs
      exact ⟨c :: done, d, rest, rfl, List.forall_mem_cons.2 ⟨⟨a, hc⟩, hdone⟩, hd⟩
    · cases hcs

/-- A list of actions fails at one of them, after those before it. -/
theorem exists_of_forM_run_eq_error {g : γ → EStateM ε σ PUnit} {cs : List γ}
    (h : cs.forM g s = .error e s') :
    ∃ done c rest s₁, cs = done ++ c :: rest ∧ done.forM g s = .ok ⟨⟩ s₁ ∧
      g c s₁ = .error e s' := by
  induction cs generalizing s with
  | nil => cases h
  | cons c cs ih =>
    change (g c >>= fun _ ↦ cs.forM g) s = _ at h
    obtain hc | ⟨⟨⟩, s₁, hc, hcs⟩ := bind_run_eq_error.1 h
    · exact ⟨[], c, cs, s, rfl, rfl, hc⟩
    · obtain ⟨done, d, rest, s₂, rfl, hdone, hd⟩ := ih hcs
      exact ⟨c :: done, d, rest, s₂, rfl, (bind_run_of_ok hc).trans hdone, hd⟩

end

/-! ## Lines that cannot be parsed -/

section
variable {s s' : Session} {f : Fault}

/-- A fault of reading a line is attributed to the line. -/
theorem line_of_parseLine {line : Option Int} {text : String}
    (h : parseLine Builtin.isName line text = .error (.fault f)) : f.line = line := by
  have hline := parseLine_onLine Builtin.isName line line text
  rw [h] at hline
  have hf : f = f.onLine line := Stop.fault.inj (Except.error.inj hline)
  exact congrArg Fault.line hf

/-- The program is read line by line, up to the first line that cannot be parsed. -/
theorem listing_eq_fault (h : Action.listing s = .error (.fault f) s') :
    ∃ l ∈ s.program.lines, parseLine Builtin.isName (some l.1) l.2 = .error (.fault f) ∧
      ∀ k ∈ s.program.lines, k.1 < l.1 →
        ∃ statements, parseLine Builtin.isName (some k.1) k.2 = .ok statements := by
  rw [Action.listing, get_bind_run] at h
  obtain ⟨done, l, rest, hsplit, hdone, hl⟩ := exists_of_mapM_run_eq_error (fun k a s₁ hk ↦ by
    obtain ⟨statements, s₂, hparse, hk⟩ := bind_run_eq_ok.1 hk
    cases hk
    exact (parse_eq_ok hparse).1) h
  refine ⟨l, hsplit ▸ List.mem_append_right _ (List.mem_cons_self ..), ?_, fun k hk hlt ↦ ?_⟩
  · obtain hparse | ⟨_, _, -, hl⟩ := bind_run_eq_error.1 hl
    · exact parse_eq_fault hparse
    · cases hl
  -- The lines are in ascending order, so a smaller one was read before.
  · have hasc := s.program.ascending
    rw [hsplit] at hk hasc
    obtain hk | hk := List.mem_append.1 hk
    · obtain ⟨a, ha⟩ := hdone k hk
      obtain ⟨statements, s₂, hparse, -⟩ := bind_run_eq_ok.1 ha
      exact ⟨statements, (parse_eq_ok hparse).2⟩
    · have hrest := (List.pairwise_append.1 hasc).2.1
      obtain rfl | hk := List.mem_cons.1 hk
      · exact absurd hlt (Nat.lt_irrefl _)
      · exact absurd hlt (Nat.lt_asymm ((List.pairwise_cons.1 hrest).1 k hk))

end

/-! ## Machines that fail -/

namespace Machine

variable {m : Machine} {s' : Session} {e : Stop}

/-- A run in a listing fails as one of its statements does. -/
theorem exists_execute_of_step_eq_error (hlisted : m.run.listing.isSome = true)
    (h : m.run.step m.session = .error e s') :
    ∃ site t, m.run.next? = some (site, some t) ∧
      execute site t (m.session.noted site.line) = .error e s' := by
  cases hnext : m.run.next? with
  | none =>
    rw [Run.step, hnext] at h
    cases h
  | some p =>
    cases hafter : m.run.after p.1 p.2 (m.session.noted p.1.line) with
    | ok r s =>
      rw [step_eq_of_after hnext hafter] at h
      split at h
      · split at h <;> cases h
      · cases h
    | error e' s =>
      cases (step_of_after_error hnext hafter).symm.trans h
      obtain ⟨site, _ | t⟩ := p
      · cases hafter
      refine ⟨site, t, rfl, ?_⟩
      obtain hexecute | ⟨⟨v, next⟩, s₁, -, hafter⟩ := bind_run_eq_error.1 hafter
      · exact hexecute
      obtain hlisting | ⟨_, _, -, hafter⟩ := bind_run_eq_error.1 hafter
      · cases (Run.listingFor_eq (.inl hlisted)).symm.trans hlisting
      · cases hafter

/-- A run that does not come to its end fails in one of its steps, or runs out of them. -/
theorem exists_runs_of_finish_eq_error {fuel : Nat} (h : m.run.finish fuel m.session = .error e s')
    (he : e ≠ .outOfFuel) :
    ∃ visits m', m.Runs visits m' ∧ m'.run.step m'.session = .error e s' := by
  induction fuel generalizing m with
  | zero =>
    cases h
    exact absurd rfl he
  | succ fuel ih =>
    obtain hstep | ⟨progress, s₁, hstep, hfinish⟩ := bind_run_eq_error.1 h
    · exact ⟨[], m, .done m, hstep⟩
    cases progress with
    | ended v => cases hfinish
    | going r =>
      obtain ⟨visits, m', hruns, hfails⟩ := ih (m := ⟨r, s₁⟩) hfinish
      have hsteps : m.Steps ⟨r, s₁⟩ := hstep
      exact ⟨m :: visits, m', .step hsteps hruns, hfails⟩

/-- A run goes on in the listing that it is in. -/
theorem Runs.text_eq {m' : Machine} {visits : List Machine} (h : m.Runs visits m')
    (hlisted : m.run.listing.isSome = true) :
    m'.run.typed = m.run.typed ∧ m'.run.listing = m.run.listing := by
  induction h with
  | done => exact ⟨rfl, rfl⟩
  | step hstep _ ih =>
    obtain ⟨p, s, -, hafter⟩ := hstep.exists_after
    obtain ⟨htyped, hlisting, -⟩ := Run.after_eq_ok hlisted hafter
    obtain ⟨htyped', hlisting'⟩ := ih (hlisting ▸ hlisted)
    exact ⟨htyped'.trans htyped, hlisting'.trans hlisting⟩

end Machine

/-- What comes next in a listing is one of its statements. -/
theorem Run.mem_placed_of_next? {r : Run} {lines : Listing} (htyped : r.typed = [])
    (hlisting : r.listing = some lines) {p : Placed} (h : r.next? = some p) :
    p ∈ lines.placed := by
  rw [Run.next?, htyped, hlisting] at h
  split at h
  · cases h
  · split at h
    · cases h
    · rw [Option.getD_some, Listing.first?_eq_find?] at h
      exact List.mem_of_find?_eq_some h

/-! ## The statement that fails -/

/-- The statements that a run of the stored program executes, with the sessions that they are
executed in: those that collect labels and data, and then those that the program comes to. -/
inductive Session.Performs (s : Session) : Site → Tree → Session → Prop
  | collecting {lines done e rest s₁} (hlines : s.program.parsed = .ok lines)
      (hsplit : lines.collected = done ++ e :: rest)
      (hdone : (done.forM fun e ↦ do let _ ← execute e.1 e.2 : Action Unit)
        { s.reset with isCollecting := true } = .ok () s₁) :
      Performs s e.1 e.2 s₁
  | running {r s₀ visits m site t} (hstart : startProgram s = .ok r s₀)
      (hruns : Machine.Runs ⟨r, s₀⟩ visits m) (hnext : m.run.next? = some (site, some t)) :
      Performs s site t (m.session.noted site.line)

section
variable {s s' : Session} {f : Fault} {site : Site} {t : Tree}

/-- All that a run executes is in the program. -/
theorem Session.Performs.mem_placed {s₁ : Session} (h : s.Performs site t s₁) :
    ∃ lines, s.program.parsed = .ok lines ∧ (site, some t) ∈ lines.placed := by
  cases h with
  | collecting hlines hsplit hdone =>
    refine ⟨_, hlines, (Listing.mem_collected.1 ?_).1⟩
    exact hsplit ▸ List.mem_append_right _ (List.mem_cons_self ..)
  | running hstart hruns hnext =>
    obtain ⟨lines, hparsed, -, rfl⟩ := startProgram_eq_ok hstart
    obtain ⟨htyped, hlisting⟩ := hruns.text_eq rfl
    exact ⟨lines, hparsed, Run.mem_placed_of_next? htyped hlisting hnext⟩

/-- What is in the program is on one of its lines. -/
theorem exists_line_of_mem_placed {lines : Listing} (hlines : s.program.parsed = .ok lines)
    {p : Placed} (h : p ∈ lines.placed) : ∃ l ∈ s.program.lines, p.1.line = l.1 := by
  obtain ⟨l, hl, hline, -⟩ := Listing.mem_placed.1 h
  have hnumber : l.1 ∈ s.program.lines.map Prod.fst :=
    Program.parsed_eq_ok hlines ▸ List.mem_map_of_mem hl
  obtain ⟨k, hk, heq⟩ := List.mem_map.1 hnumber
  exact ⟨k, hk, hline.trans (congrArg _ heq.symm)⟩

theorem Session.Performs.exists_line {s₁ : Session} (h : s.Performs site t s₁) :
    ∃ l ∈ s.program.lines, site.line = l.1 :=
  let ⟨_, hlines, hplaced⟩ := h.mem_placed
  exists_line_of_mem_placed hlines hplaced

/-- A run that fails to start fails to read the program, or at a statement. -/
theorem startProgram_fails (h : startProgram s = .error (.fault f) s') :
    Action.listing s.reset = .error (.fault f) s' ∨
      ∃ site t s₁ s₂, s.Performs site t s₁ ∧ execute site t s₁ = .error (.fault f) s₂ := by
  obtain h | ⟨lines, s₁, hlisting, h⟩ := startProgram_cases h
  · exact .inl h
  obtain ⟨rfl, hlines⟩ := listing_eq_ok hlisting
  obtain ⟨s₂, hforM, -⟩ := exists_of_collect_eq_fault h
  obtain ⟨done, e, rest, s₁, hsplit, hdone, hfails⟩ := exists_of_forM_run_eq_error hforM
  obtain hfails | ⟨_, _, -, hfails⟩ := bind_run_eq_error.1 hfails
  · exact .inr ⟨e.1, e.2, s₁, s₂, .collecting hlines hsplit hdone, hfails⟩
  · cases hfails

/-- A run that was started fails at a statement. -/
theorem complete_fails {r : Run} {s₀ : Session} (hstart : startProgram s = .ok r s₀)
    (h : r.complete s₀ = .error (.fault f) s') :
    ∃ site t s₁ s₂, s.Performs site t s₁ ∧ execute site t s₁ = .error (.fault f) s₂ := by
  obtain ⟨s₁, h, -⟩ := Run.exists_of_complete_eq_fault h
  obtain ⟨visits, m, hruns, hstep⟩ :=
    Machine.exists_runs_of_finish_eq_error (m := ⟨r, s₀⟩) h nofun
  have hlisted : m.run.listing.isSome = true := by
    obtain ⟨lines, -, -, rfl⟩ := startProgram_eq_ok hstart
    rw [(hruns.text_eq rfl).2]
    rfl
  obtain ⟨site, t, hnext, hfails⟩ := Machine.exists_execute_of_step_eq_error hlisted hstep
  exact ⟨site, t, _, s₁, .running hstart hruns hnext, hfails⟩

/-! ## The result -/

/-- A fault of a run of the stored program is attributed to a stored line.  Either the line cannot
be parsed, while all lines before it can; or the fault is attributed to a statement of the line that
the run executes, and that fails with it. -/
theorem runProgram_fault_isPlaced (h : runProgram s = .error (.fault f) s') :
    ∃ l ∈ s.program.lines, f.line = some l.1 ∧
      (parseLine Builtin.isName (some l.1) l.2 = .error (.fault f) ∧
          (∀ k ∈ s.program.lines, k.1 < l.1 →
            ∃ statements, parseLine Builtin.isName (some k.1) k.2 = .ok statements) ∨
        ∃ lines t s₁ s₂, ∃ position : Nat, s.program.parsed = .ok lines ∧
          (⟨l.1, position⟩, some t) ∈ lines.placed ∧ s.Performs ⟨l.1, position⟩ t s₁ ∧
          execute ⟨l.1, position⟩ t s₁ = .error (.fault f) s₂ ∧ f.statement = some position) := by
  have hcases : Action.listing s.reset = .error (.fault f) s' ∨
      ∃ site t s₁ s₂, s.Performs site t s₁ ∧ execute site t s₁ = .error (.fault f) s₂ := by
    obtain h | ⟨r, s₀, hstart, h⟩ := runProgram_cases h
    · exact startProgram_fails h
    · exact .inr (complete_fails hstart h)
  obtain hlisting | ⟨⟨line, position⟩, t, s₁, s₂, hperforms, hfails⟩ := hcases
  · obtain ⟨l, hl, hparse, hbefore⟩ := listing_eq_fault hlisting
    exact ⟨l, hl, line_of_parseLine hparse, .inl ⟨hparse, hbefore⟩⟩
  · obtain ⟨l, hl, rfl⟩ := hperforms.exists_line
    obtain ⟨lines, hlines, hplaced⟩ := hperforms.mem_placed
    obtain ⟨hline, hstatement⟩ := place_of_execute hfails (Int.natCast_nonneg _)
    exact ⟨l, hl, hline,
      .inr ⟨lines, t, s₁, s₂, position, hlines, hplaced, hperforms, hfails, hstatement⟩⟩

end

/-- The place that a fault is attributed to. -/
def Stop.place? : Stop → Option (Option Int × Option Int)
  | .fault f => some (f.line, f.statement)
  | _ => none

theorem Stop.eq_fault_of_place? {stop : Stop} {line statement : Option Int}
    (h : stop.place? = some (line, statement)) :
    ∃ f, stop = .fault f ∧ f.line = line ∧ f.statement = statement := by
  cases stop with
  | fault f =>
    cases h
    exact ⟨f, rfl, rfl, rfl⟩
  | _ => cases h

/-- A function that fails, called by another one in a loop in a subroutine. -/
theorem runProgram_fault_isPlaced_nested :
    let s : Session := { Session.start {} {} .unavailable 0 with program :=
      ⟨[(10, "F = [X] ~> NOWHERE"), (20, "G = [X] ~> F(X): GOSUB 40"), (30, "END"),
        (40, "FOR I = 1 TO 2: Y = G(I)")], by decide⟩ }
    ∃ f s' t s₁, runProgram s = .error (.fault f) s' ∧ f.line = some 40 ∧
      s.Performs ⟨40, 1⟩ t s₁ := by
  intro s
  have hends : Ends (fun _ ↦ True) (fun _ ↦ False) (·.place? = some (some 40, some 1))
      (runProgram s) := by decide +kernel
  have hparses : ∀ l ∈ s.program.lines, (parseLine Builtin.isName (some l.1) l.2).isOk = true := by
    decide +kernel
  obtain ⟨stop, s', h, hplace, -⟩ := hends.exists_error
  obtain ⟨f, rfl, hline, hstatement⟩ := Stop.eq_fault_of_place? hplace
  obtain ⟨⟨n, text⟩, hl, hn, ⟨hparse, -⟩ | ⟨lines, t, s₁, s₂, position, -, -, hperforms, -, hk⟩⟩ :=
    runProgram_fault_isPlaced h
  · have hok := hparses _ hl
    rw [hparse] at hok
    cases hok
  · obtain rfl : n = 40 := by exact_mod_cast Option.some.inj (hn.symm.trans hline)
    obtain rfl : position = 1 := by exact_mod_cast Option.some.inj (hk.symm.trans hstatement)
    exact ⟨f, s', t, s₁, h, hline, hperforms⟩

end LineBasic
