import LineBasic.Proofs.Program.Editing
import LineBasic.Proofs.Run.Order

/-!
# Runs straight through a program

A run in which no statement jumps or fails, and which the console does not break off, executes the
statements of the program once each, in the order of the text, and ends.  Runs depend on the texts
of the lines only, not on how they were entered.

* `Machine.GoesStraight` — neither a jump nor a failure nor a break.
* `Machine.exists_runs_of_straight` — what such a run executes.
* `runProgram_inOrder` — the result.
-/

set_option autoImplicit false
namespace LineBasic

namespace Machine

/-- The next statement is executed and leads to the one after it, and if the console is polled then,
it does not ask to stop. -/
structure GoesStraight (m : Machine) : Prop where
  falls : ∀ site t, m.run.next? = some (site, some t) →
    ∃ v s, execute site t (m.session.noted site.line) = .ok (v, site.next) s
  stays : ∀ p r s, m.run.next? = some p →
    m.run.after p.1 p.2 (m.session.noted p.1.line) = .ok r s →
    s.settings.interval.divides r.executed = true → s.console.poll.1 = false

/-- The run is in a listing, and has the given statements before it. -/
structure Ahead (lines : Listing) (rest : List Placed) (m : Machine) : Prop where
  listing : m.run.listing = some lines
  stored : 0 ≤ m.run.site.line
  rest_eq : rest = lines.onward m.run.site

variable {lines : Listing} {rest : List Placed} {p : Placed} {m m' : Machine}

theorem Ahead.next? (h : Ahead lines rest m) : m.run.next? = rest.head? := by
  have hline : m.run.site.line ≠ typedLine := fun heq ↦ absurd (heq ▸ h.stored) (by decide)
  rw [Run.next?, if_neg hline, if_neg (Int.not_lt.2 h.stored), h.listing, Option.getD_some,
    Listing.first?_eq_find?, h.rest_eq, Listing.onward, List.head?_filter]

/-- One statement further. -/
theorem Ahead.step (hlines : lines.IsAscending) (h : Ahead lines (p :: rest) m)
    (hm : m.GoesStraight) : ∃ m', m.Steps m' ∧ Ahead lines rest m' := by
  have hnext : m.run.next? = some p := h.next?
  -- The statement leads to the site after it, whether there is something to execute or not.
  have hafter : ∃ r s, m.run.after p.1 p.2 (m.session.noted p.1.line) = .ok r s ∧
      r.listing = some lines ∧ r.site = p.1.next := by
    obtain ⟨site, _ | t⟩ := p
    · exact ⟨_, _, rfl, h.listing, rfl⟩
    · obtain ⟨v, s, hexecute⟩ := hm.falls site t hnext
      refine ⟨_, s, bind_run_eq_ok.2 ⟨_, s, hexecute, bind_run_eq_ok.2
        ⟨m.run.listing, s, Run.listingFor_eq (.inl (h.listing ▸ rfl)), rfl⟩⟩, h.listing, rfl⟩
  obtain ⟨r, s, hafter, hlisting, hsite⟩ := hafter
  obtain ⟨console, hgoing⟩ :=
    exists_going_of_after hnext hafter (hm.stays p r s hnext hafter)
  refine ⟨⟨r, _⟩, hgoing, hlisting, ?_, ?_⟩
  · obtain ⟨l, -, hl, -⟩ := Listing.mem_placed.1
      (List.mem_of_mem_filter (h.rest_eq ▸ List.mem_cons_self .. : p ∈ lines.onward m.run.site))
    rw [hsite, Site.next, hl]
    exact Int.natCast_nonneg _
  · rw [hsite]
    exact (hlines.onward_next h.rest_eq.symm).symm

/-- A run that goes straight executes all that is before it, and is at its end then. -/
theorem exists_runs_of_straight (hlines : lines.IsAscending) (h : Ahead lines rest m)
    (hstraight : ∀ visits m', Runs m visits m' → m'.GoesStraight) :
    ∃ visits m', Runs m visits m' ∧ visits.map (·.run.next?) = rest.map some ∧
      m'.run.next? = none := by
  induction rest generalizing m with
  | nil => exact ⟨[], m, .done m, rfl, h.next?⟩
  | cons p rest ih =>
    obtain ⟨m₁, hstep, h₁⟩ := h.step hlines (hstraight [] m (.done m))
    obtain ⟨visits, m', hruns, hvisits, hend⟩ :=
      ih h₁ fun visits m' hruns ↦ hstraight (m :: visits) m' (.step hstep hruns)
    refine ⟨m :: visits, m', .step hstep hruns, ?_, hend⟩
    rw [List.map_cons, List.map_cons, hvisits, h.next?, List.head?_cons]

/-- A machine that has nothing to go on with ends, if it may take a step. -/
theorem Runs.finish_eq_of_end {visits : List Machine} (h : Runs m visits m')
    (hend : m'.run.next? = none) {fuel : Nat} (hfuel : visits.length < fuel) :
    m.run.finish fuel m.session = .ok m'.run.value m'.session := by
  obtain ⟨k, rfl⟩ := Nat.exists_eq_add_of_lt hfuel
  rw [Nat.add_assoc, h.finish_eq, Run.finish]
  have hstep : m'.run.step m'.session = .ok (.ended m'.run.value) m'.session := by
    rw [Run.step, hend]
    rfl
  exact bind_run_eq_ok.2 ⟨_, _, hstep, rfl⟩

/-! ## Runs on given input -/

theorem goesStraight_iff (hnext : m.run.next? = some p) : m.GoesStraight ↔
    (∀ t ∈ p.2, ∃ a s, execute p.1 t (m.session.noted p.1.line) = .ok a s ∧ a.2 = p.1.next) ∧
    ∀ r s, m.run.after p.1 p.2 (m.session.noted p.1.line) = .ok r s →
      s.settings.interval.divides r.executed = true → s.console.poll.1 = false := by
  constructor
  · refine fun h ↦ ⟨fun t ht ↦ ?_, fun r s ↦ h.stays p r s hnext⟩
    obtain ⟨v, s, hexecute⟩ := h.falls p.1 t (hnext.trans (congrArg _ (Prod.ext rfl ht)))
    exact ⟨(v, p.1.next), s, hexecute, rfl⟩
  · refine fun ⟨hfalls, hstays⟩ ↦ ⟨fun site t hsome ↦ ?_, fun q r s hsome ↦ ?_⟩
    · obtain rfl := Option.some.inj (hnext.symm.trans hsome)
      obtain ⟨⟨v, target⟩, s, hexecute, rfl⟩ := hfalls t rfl
      exact ⟨v, s, hexecute⟩
    · obtain rfl := Option.some.inj (hnext.symm.trans hsome)
      exact hstays r s

theorem goesStraight_of_end (hend : m.run.next? = none) : m.GoesStraight :=
  ⟨fun _ _ hnext ↦ (nomatch hend.symm.trans hnext), fun _ _ _ hnext ↦ nomatch hend.symm.trans hnext⟩

instance (m : Machine) : Decidable m.GoesStraight :=
  match hnext : m.run.next? with
  | none => isTrue (goesStraight_of_end hnext)
  | some _ => decidable_of_iff _ (goesStraight_iff hnext).symm

/-- So many steps go straight on, and then the run is at its end. -/
def IsStraight : Nat → Machine → Prop
  | 0, m => m.run.next? = none
  | n + 1, m => m.GoesStraight ∧ ∀ progress s, m.run.step m.session = .ok progress s →
      match progress with
      | .going r => IsStraight n ⟨r, s⟩
      | .ended _ => True

instance decidableIsStraight : ∀ n m, Decidable (IsStraight n m)
  | 0, m => inferInstanceAs (Decidable (m.run.next? = none))
  | n + 1, m =>
    have (progress : Progress) (s : Session) : Decidable (match progress with
        | .going r => IsStraight n ⟨r, s⟩
        | .ended _ => True) :=
      match progress with
      | .going r => decidableIsStraight n ⟨r, s⟩
      | .ended _ => isTrue trivial
    inferInstanceAs (Decidable (m.GoesStraight ∧ ∀ _ _, _ → _))

theorem IsStraight.goesStraight {n : Nat} (h : IsStraight n m) {visits : List Machine}
    (hruns : Runs m visits m') : m'.GoesStraight := by
  induction hruns generalizing n with
  | done m =>
    cases n with
    | zero => exact goesStraight_of_end h
    | succ n => exact h.1
  | step hstep _ ih =>
    cases n with
    | zero =>
      obtain ⟨p, _, hnext, -⟩ := hstep.exists_after
      cases (h : _ = none).symm.trans hnext
    | succ n => exact ih (h.2 _ _ hstep)

end Machine

/-! ## The result -/

section
variable {s s₁ : Session} {r : Run} {lines : Listing}

theorem Listing.mem_onward_start {site : Site} {t : Option Tree} :
    (site, t) ∈ lines.onward ⟨1, 0⟩ ↔
      ∃ l ∈ lines, 1 ≤ l.1 ∧ site.line = l.1 ∧ l.2[site.statement]? = some t := by
  have hstart : ¬ site.Before ⟨1, 0⟩ ↔ 1 ≤ site.line := by
    simp only [Site.Before]
    omega
  rw [Listing.onward, List.mem_filter, Listing.mem_placed]
  simp only [Bool.not_eq_true', decide_eq_false_iff_not, hstart]
  constructor
  · rintro ⟨⟨l, hl, hline, ht⟩, hle⟩
    exact ⟨l, hl, by omega, hline, ht⟩
  · rintro ⟨l, hl, hle, hline, ht⟩
    exact ⟨⟨l, hl, hline, ht⟩, by omega⟩

theorem Action.unwinding_eq_ok {α : Type} {act : Action α} {a : α} (h : act s = .ok a s₁) :
    act.unwinding s = .ok a s₁ := by
  rw [unwinding, h]

/-- A run of the stored program that ends when its machine has nothing to go on with. -/
theorem runProgram_eq_ok_of_finish (hstart : startProgram s = .ok r s₁) {v : Value} {s₂ : Session}
    (hfinish : r.finish s₁.fuel s₁ = .ok v s₂) :
    runProgram s = .ok () { s₂ with binders := s₂.binders.reset } := by
  have hcomplete : r.complete s₁ = .ok v { s₂ with binders := s₂.binders.reset } :=
    Action.unwinding_eq_ok (bind_run_eq_ok.2 ⟨s₁, s₁, rfl, bind_run_eq_ok.2 ⟨v, s₂, hfinish, rfl⟩⟩)
  exact bind_run_eq_ok.2 ⟨r, s₁, hstart, bind_run_eq_ok.2 ⟨v, _, hcomplete, rfl⟩⟩

end

/-- If the stored program is run, no statement of the run jumps or fails, and the console does not
ask to stop, then the run executes the statements of all lines from 1 on, once each and in the order
of the text, and ends.

If edits leave the same texts on the same lines, then the programs are listed and written out in the
same way, take the same memory, and run in the same way from every session: with the same result and
the same session at the end. -/
theorem runProgram_inOrder :
    (∀ s r s₁, startProgram s = .ok r s₁ →
      (∀ visits m, Machine.Runs ⟨r, s₁⟩ visits m → m.GoesStraight) →
      ∃ lines visits m, s.program.parsed = .ok lines ∧
        (∀ site t, (site, t) ∈ lines.onward ⟨1, 0⟩ ↔
          ∃ l ∈ lines, 1 ≤ l.1 ∧ site.line = l.1 ∧ l.2[site.statement]? = some t) ∧
        (lines.onward ⟨1, 0⟩).Pairwise (fun p q ↦ p.1.Before q.1) ∧
        Machine.Runs ⟨r, s₁⟩ visits m ∧
        visits.map (·.run.next?) = (lines.onward ⟨1, 0⟩).map some ∧ m.run.next? = none ∧
        (∀ fuel, visits.length < fuel → r.finish fuel s₁ = .ok m.run.value m.session) ∧
        (visits.length < s₁.fuel →
          runProgram s = .ok () { m.session with binders := m.session.binders.reset })) ∧
    ∀ edits edits' : List Edit, Edit.textAfter edits = Edit.textAfter edits' →
      let p := Program.edited edits
      let p' := Program.edited edits'
      p.get? = Edit.textAfter edits ∧
      (∀ start stop, p.listing start stop = p'.listing start stop) ∧
      p.serialize = p'.serialize ∧ p.footprint = p'.footprint ∧
      ∀ s : Session, runProgram { s with program := p } = runProgram { s with program := p' } := by
  constructor
  · intro s r s₁ hstart hstraight
    obtain ⟨lines, hparsed, -, rfl⟩ := startProgram_eq_ok hstart
    have hlines := Program.isAscending_parsed hparsed
    obtain ⟨visits, m, hruns, hvisits, hend⟩ :=
      Machine.exists_runs_of_straight hlines ⟨rfl, Int.one_nonneg, rfl⟩ hstraight
    have hfinish (fuel : Nat) (hfuel : visits.length < fuel) := hruns.finish_eq_of_end hend hfuel
    exact ⟨lines, visits, m, hparsed, fun site t ↦ Listing.mem_onward_start,
      hlines.pairwise_placed.filter _, hruns, hvisits, hend, hfinish,
      fun hfuel ↦ runProgram_eq_ok_of_finish hstart (hfinish _ hfuel)⟩
  · intro edits edits' htexts p p'
    have hp : p = p' := Program.eq_of_get? fun n ↦ by
      rw [Program.get?_edited, Program.get?_edited, htexts]
    exact ⟨funext fun n ↦ Program.get?_edited edits, fun start stop ↦ by rw [hp], by rw [hp],
      by rw [hp], fun s ↦ by rw [hp]⟩

/-- A program entered out of order, with a line replaced and a line deleted. -/
theorem runProgram_inOrder_entered :
    let entered := [.store 30 "PRINT X", .store 10 "X = 2", .store 20 "END", .store 10 " X = 1 ",
      .delete 11 (some 29)]
    let sorted := [Edit.store 10 "X = 1", .store 30 "PRINT X"]
    let s : Session := .start {} {} .unavailable 0
    (∃ r s₁ visits m, startProgram { s with program := .edited sorted } = .ok r s₁ ∧
      Machine.Runs ⟨r, s₁⟩ visits m ∧
      visits.map (·.run.next?.map Prod.fst) = [some ⟨10, 0⟩, some ⟨30, 0⟩]) ∧
    runProgram { s with program := .edited entered } =
      runProgram { s with program := .edited sorted } := by
  intro entered sorted s
  have hstraight : ∃ r s₁, startProgram { s with program := .edited sorted } = .ok r s₁ ∧
      Machine.IsStraight 2 ⟨r, s₁⟩ := by
    decide +kernel
  have hsites : ((Program.edited sorted).parsed.toOption.map fun lines ↦
      (lines.onward ⟨1, 0⟩).map fun p ↦ some p.1) = some [some ⟨10, 0⟩, some ⟨30, 0⟩] := by
    decide +kernel
  obtain ⟨r, s₁, hstart, hstraight⟩ := hstraight
  constructor
  · obtain ⟨lines, visits, m, hparsed, -, -, hruns, hvisits, -⟩ :=
      runProgram_inOrder.1 _ r s₁ hstart fun _ _ ↦ hstraight.goesStraight
    refine ⟨r, s₁, visits, m, hstart, hruns, ?_⟩
    rw [hparsed] at hsites
    calc visits.map (·.run.next?.map Prod.fst)
        = (visits.map (·.run.next?)).map (Option.map Prod.fst) := by rw [List.map_map]; rfl
      _ = (lines.onward ⟨1, 0⟩).map fun p ↦ some p.1 := by rw [hvisits, List.map_map]; rfl
      _ = [some ⟨10, 0⟩, some ⟨30, 0⟩] := Option.some.inj hsites
  · have h10 : Text.strip "X = 1" = "X = 1" := by decide +kernel
    have h10' : Text.strip " X = 1 " = "X = 1" := by decide +kernel
    refine (runProgram_inOrder.2 entered sorted (funext fun n ↦ ?_)).2.2.2.2 s
    simp only [Edit.textAfter, entered, sorted, List.foldl_cons, List.foldl_nil, Edit.textOf, h10,
      h10', Option.getD_some]
    grind

end LineBasic
