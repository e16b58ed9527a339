import LineBasic.Proofs.Evaluation.Permission
import LineBasic.Proofs.Program.Editing
import LineBasic.Proofs.Run.Order
import LineBasic.Proofs.Run.Returns

/-!
# Subroutines are bracketed

Where a program jumps to subroutines and back only by whole statements and whole branches of
conditional statements, no function that can come up at run time does so.  Then each step of a run
leaves the sites noted as they are, or notes the one after the statement, or goes back to the site
noted last.  So the site that a subroutine returns to stays below all that is noted in it, and is
gone back to by the first return that leaves none of these.

* `Tree.isBracketed`, `Listing.IsBracketed` — such programs.
* `Machine.Executes` — the jump that the next statement comes to.
* `Machine.Passes`, `Machine.Brackets.step` — one step.
* `Machine.Brackets.returns_of_runs` — a run, until a subroutine is left.
* `runProgram_bracketed` — the result.
-/

set_option autoImplicit false
namespace LineBasic

/-! ## Bracketed programs -/

/-- Whether a statement jumps to subroutines and back only where it comes to the jump itself, and
forms no functions that do so. -/
def Tree.isBracketed (t : Tree) : Bool :=
  t.isOrderly && t.formsOnly Builtin.isQuiet

/-- All statements of a listing are bracketed. -/
def Listing.IsBracketed (lines : Listing) : Prop :=
  ∀ l ∈ lines, ∀ statement ∈ l.2, ∀ t ∈ statement, t.isBracketed = true

instance : DecidablePred Listing.IsBracketed :=
  fun lines ↦ inferInstanceAs (Decidable (∀ l ∈ lines, ∀ statement ∈ l.2, ∀ t ∈ statement, _))

theorem callQuietly_eq_callPermitted (alarm : Stop) (site : Site) (room : Nat) :
    callQuietly alarm site room = callPermitted Builtin.isQuiet alarm site room := by
  induction room with
  | zero => rfl
  | succ room ih =>
    funext c args
    rw [callQuietly, callPermitted, ih]
    rfl

section
variable {site : Site} {t : Tree} {s s' : Session} {r : List Site} {b : Builtin}
  {xs : List Operand} {x : Operand} {enter : Closure → List Value → Action Value}
  {separators : List Separator}

/-- What is kept until a statement comes to a jump. -/
structure Session.Noting (r : List Site) (s : Session) : Prop where
  permits : s.Permits Builtin.isQuiet
  returns : s.returns = r

theorem keeps_noting_eval (room : Nat) {t : Tree} (hquiet : t.isQuiet = true)
    (hforms : t.formsOnly Builtin.isQuiet = true) :
    Keeps (Session.Noting r) (fun _ ↦ True) (eval (callWithin site room) site t) := by
  refine ⟨fun s hs ↦ ?_⟩
  obtain ⟨heq, hback⟩ := eval_callPermitted site hforms hs.permits .endOfInput room
  have hreturns := (abreast_eval (entered_callQuietly .endOfInput site r room) hquiet).keeps.run s
    hs.returns
  rw [callQuietly_eq_callPermitted, heq] at hreturns
  exact (hback.and hreturns).mono (fun _ h ↦ ⟨hs.permits.of_isBack h.1, h.2⟩) (fun _ _ ↦ trivial)
    fun _ _ ↦ trivial

/-- A bracketed statement comes to a jump to a subroutine or back, or notes nothing. -/
theorem invokes_or_ends_evaluate (site : Site) (h : t.isBracketed = true) (hs : s.Noting r) :
    t.InvokesLoud (callWithin site s.room) site s ∨
      Ends (Session.Noting r) (fun _ ↦ True) (fun _ ↦ True) (evaluate site t s) := by
  obtain ⟨horderly, hforms⟩ := Bool.and_eq_true_iff.1 h
  exact Tree.invokes_or_ends (keeps_noting_eval s.room) Tree.forall_parts_formsOnly horderly hforms
    hs

theorem Tree.Invokes.noting (hinvokes : t.Invokes (callWithin site s.room) site s b xs s')
    (h : t.isBracketed = true) (hs : s.Noting r) : s'.Noting r := by
  obtain ⟨horderly, hforms⟩ := Bool.and_eq_true_iff.1 h
  exact hinvokes.keeps (keeps_noting_eval s.room) Tree.forall_parts_formsOnly horderly hforms hs

theorem Builtin.eq_of_not_isQuiet (h : b.isQuiet = false) : b = .gosub ∨ b = .comeBack := by
  cases b with
  | gosub => exact .inl rfl
  | comeBack => exact .inr rfl
  | _ => cases h

theorem Builtin.invoke_gosub_eq_ok
    (h : Builtin.invoke enter .gosub site separators xs s = .ok x s') :
    ∃ line, x = .jump ⟨line, 0⟩ ∧ s'.returns = site.next :: s.returns := by
  rcases xs with - | ⟨y, - | ⟨z, zs⟩⟩
  · cases h
  · obtain ⟨line, s₁, hline, h⟩ := bind_run_eq_ok.1 h
    have hkept : Keeps (fun s' ↦ s'.returns = s.returns) (fun _ ↦ True)
        (Builtin.gosub.targetLine y) :=
      ((Builtin.gosub.detached_targetLine y).abreast (W := quietly site s.returns)).keeps
    cases h
    exact ⟨line, rfl, congrArg (site.next :: ·) (hline ▸ hkept.run s rfl).of_ok.2⟩
  · cases h

theorem Builtin.invoke_comeBack_eq_ok
    (h : Builtin.invoke enter .comeBack site separators xs s = .ok x s') :
    ∃ back, x = .jump back ∧ s.returns = back :: s'.returns := by
  cases xs with
  | nil =>
    change comeBackOf s = _ at h
    cases hreturns : s.returns with
    | nil => cases (comeBackOf_of_nil hreturns).symm.trans h
    | cons back outer =>
      cases (comeBackOf_of_cons hreturns).symm.trans h
      exact ⟨back, rfl, rfl⟩
  | cons y ys => cases h

/-- What `RETURN` fails with where no site is noted. -/
def Fault.nowhereBack : Fault :=
  { kind := .noGosubToReturn, message := "RETURN without GOSUB" }

theorem Builtin.invoke_comeBack_of_nil (hs : s.returns = []) :
    ∃ f, Builtin.invoke enter .comeBack site separators xs s = .error (.fault f) s ∧
      (xs = [] → f = .nowhereBack) := by
  cases xs with
  | nil => exact ⟨_, comeBackOf_of_nil hs, fun _ ↦ rfl⟩
  | cons y ys => exact ⟨_, rfl, nofun⟩

/-- A statement jumps if that is all that its tree can come to. -/
theorem evaluate_of_jumps {q : Value × Site} (hexecute : execute site t s = .ok q s')
    (h : ∀ x s', evaluate site t s = .ok x s' → ∃ target, x = .jump target) :
    evaluate site t s = .ok (.jump q.2) s' := by
  cases heval : evaluate site t s with
  | error e s' => cases (execute_of_error heval).symm.trans hexecute
  | ok x s' =>
    obtain ⟨target, rfl⟩ := h x s' heval
    cases (execute_of_jump heval).symm.trans hexecute
    rfl

end

/-! ## Steps -/

namespace Machine

variable {m m' : Machine} {site : Site} {b : Builtin} {xs : List Operand} {lines : Listing}

/-- The next statement stands at a site and comes to a call of a builtin with some operands. -/
def Executes (m : Machine) (site : Site) (b : Builtin) (xs : List Operand) : Prop :=
  ∃ t s, m.run.next? = some (site, some t) ∧
    t.Invokes (callWithin site (m.session.noted site.line).room) site (m.session.noted site.line)
      b xs s

/-- What a step does to the sites noted. -/
inductive Passes (m m' : Machine) : Prop
  | kept (h : m'.session.returns = m.session.returns)
  | away {site : Site} {xs : List Operand} (hexecutes : m.Executes site .gosub xs)
      (h : m'.session.returns = site.next :: m.session.returns)
  | back {site : Site} {xs : List Operand} (hexecutes : m.Executes site .comeBack xs)
      (h : m.session.returns = m'.run.site :: m'.session.returns)

/-- A run in a listing, in whose values no function jumps to a subroutine or back. -/
structure Brackets (lines : Listing) (m : Machine) : Prop where
  typed : m.run.typed = []
  listing : m.run.listing = some lines
  permits : m.session.Permits Builtin.isQuiet

theorem Brackets.mem_placed (h : Brackets lines m) {p : Placed} (hnext : m.run.next? = some p) :
    p ∈ lines.placed := by
  unfold Run.next? at hnext
  rw [h.typed, h.listing] at hnext
  split at hnext
  · cases hnext
  · split at hnext
    · cases hnext
    · exact List.mem_of_find?_eq_some ((lines.first?_eq_find? _).symm.trans hnext)

theorem Brackets.isBracketed (h : Brackets lines m) (hlines : lines.IsBracketed) {t : Tree}
    (hnext : m.run.next? = some (site, some t)) : t.isBracketed = true := by
  obtain ⟨l, hl, -, ht⟩ := Listing.mem_placed.1 (h.mem_placed hnext)
  exact hlines l hl _ (List.mem_of_getElem? ht) t rfl

theorem Brackets.noting (h : Brackets lines m) (line : Int) :
    (m.session.noted line).Noting m.session.returns := by
  unfold Session.noted
  split
  · exact ⟨h.permits.books ⟨rfl, rfl, rfl, rfl, rfl⟩, rfl⟩
  · exact ⟨h.permits, rfl⟩

section
variable {t : Tree} {s s₁ : Session} {q : Value × Site}

theorem Brackets.returns_of_gosub (h : Brackets lines m) (hlines : lines.IsBracketed)
    (hnext : m.run.next? = some (site, some t))
    (hinvokes : t.Invokes (callWithin site (m.session.noted site.line).room) site
      (m.session.noted site.line) .gosub xs s)
    (hexecute : execute site t (m.session.noted site.line) = .ok q s₁) :
    s₁.returns = site.next :: m.session.returns := by
  obtain ⟨separators, heval⟩ := hinvokes.eval_eq
  have hjump := evaluate_of_jumps hexecute fun x s' hx ↦
    let ⟨line, hline, _⟩ := Builtin.invoke_gosub_eq_ok (heval.symm.trans hx)
    ⟨⟨line, 0⟩, hline⟩
  obtain ⟨_, -, hreturns⟩ := Builtin.invoke_gosub_eq_ok (heval.symm.trans hjump)
  rw [hreturns, (hinvokes.noting (h.isBracketed hlines hnext) (h.noting _)).returns]

theorem Brackets.returns_of_comeBack (h : Brackets lines m) (hlines : lines.IsBracketed)
    (hnext : m.run.next? = some (site, some t))
    (hinvokes : t.Invokes (callWithin site (m.session.noted site.line).room) site
      (m.session.noted site.line) .comeBack xs s)
    (hexecute : execute site t (m.session.noted site.line) = .ok q s₁) :
    m.session.returns = q.2 :: s₁.returns := by
  obtain ⟨separators, heval⟩ := hinvokes.eval_eq
  have hjump := evaluate_of_jumps hexecute fun x s' hx ↦
    (Builtin.invoke_comeBack_eq_ok (heval.symm.trans hx)).imp fun _ ↦ And.left
  obtain ⟨back, hback, hreturns⟩ := Builtin.invoke_comeBack_eq_ok (heval.symm.trans hjump)
  rw [← (hinvokes.noting (h.isBracketed hlines hnext) (h.noting _)).returns, hreturns,
    Operand.jump.inj hback]

/-- A step in a bracketed program. -/
theorem Brackets.step (h : Brackets lines m) (hlines : lines.IsBracketed) (hstep : m.Steps m') :
    Brackets lines m' ∧ m.Passes m' := by
  obtain ⟨⟨site, statement⟩, s, console, hnext, hafter, hsession⟩ := hstep.exists_console
  have hlisted : m.run.listing.isSome = true := h.listing ▸ rfl
  obtain ⟨htyped, hlisting, hcase⟩ := Run.after_eq_ok hlisted hafter
  have hnoting := h.noting site.line
  have hreturns : m'.session.returns = s.returns := by rw [hsession]
  suffices hs : s.Permits Builtin.isQuiet ∧ m.Passes m' from
    ⟨⟨htyped.trans h.typed, hlisting.trans h.listing,
      hs.1.books (hsession ▸ ⟨rfl, rfl, rfl, rfl, rfl⟩)⟩, hs.2⟩
  obtain ⟨-, -, rfl⟩ | ⟨t, v, rfl, hexecute⟩ := hcase
  · exact ⟨hnoting.permits, .kept (hreturns.trans hnoting.returns)⟩
  · have ht := h.isBracketed hlines hnext
    refine ⟨(hexecute ▸ ends_execute_permitted site (Bool.and_eq_true_iff.1 ht).2
      hnoting.permits).of_ok.2, ?_⟩
    obtain ⟨b, xs, s', hinvokes, hloud⟩ | hends := invokes_or_ends_evaluate site ht hnoting
    · have hexecutes : m.Executes site b xs := ⟨t, s', hnext, hinvokes⟩
      obtain rfl | rfl := Builtin.eq_of_not_isQuiet hloud
      · exact .away hexecutes
          (hreturns.trans (h.returns_of_gosub hlines hnext hinvokes hexecute))
      · exact .back hexecutes
          (hreturns ▸ h.returns_of_comeBack hlines hnext hinvokes hexecute)
    · exact .kept (hreturns.trans (hexecute ▸ hends.execute).of_ok.2.returns)

theorem Brackets.runs {visits : List Machine} (h : Brackets lines m) (hlines : lines.IsBracketed)
    (hruns : Runs m visits m') : Brackets lines m' := by
  induction hruns with
  | done => exact h
  | step hstep _ ih => exact ih (h.step hlines hstep).1

/-- As long as more is noted than before a subroutine, the site that it returns to stays below, and
the return after which no more is noted goes back there. -/
theorem Brackets.returns_of_runs {visits : List Machine} {back : Site} {r : List Site}
    (h : Brackets lines m) (hlines : lines.IsBracketed) (hruns : Runs m visits m')
    (hstack : ∃ inner, m.session.returns = inner ++ back :: r)
    (hlonger : ∀ v ∈ visits, r.length < v.session.returns.length) :
    (∃ inner, m'.session.returns = inner ++ back :: r) ∨
      m'.session.returns = r ∧ m'.run.site = back ∧
        ∃ last site xs, visits.getLast? = some last ∧ last.Executes site .comeBack xs := by
  induction hruns with
  | done => exact .inl hstack
  | @step m m₁ m' visits hstep hrest ih =>
    obtain ⟨h₁, hpasses⟩ := h.step hlines hstep
    obtain ⟨-, hlonger⟩ := List.forall_mem_cons.1 hlonger
    have hgoes (hstack : ∃ inner, m₁.session.returns = inner ++ back :: r) :
        (∃ inner, m'.session.returns = inner ++ back :: r) ∨
          m'.session.returns = r ∧ m'.run.site = back ∧
            ∃ last site xs, (m :: visits).getLast? = some last ∧ last.Executes site .comeBack xs :=
      (ih h₁ hstack hlonger).imp_right fun ⟨hr, hsite, last, site, xs, hlast, hexecutes⟩ ↦
        ⟨hr, hsite, last, site, xs, by rw [List.getLast?_cons, hlast]; rfl, hexecutes⟩
    obtain ⟨inner, hinner⟩ := hstack
    cases hpasses with
    | kept hkept => exact hgoes ⟨inner, hkept.trans hinner⟩
    | @away site _ _ haway => exact hgoes ⟨site.next :: inner, by rw [haway, hinner]; rfl⟩
    | @back site xs hexecutes hback =>
      rw [hinner] at hback
      cases inner with
      | cons _ inner => exact hgoes ⟨inner, (List.cons.inj hback).2.symm⟩
      | nil =>
        obtain ⟨hsite, hr⟩ := List.cons.inj hback
        cases hrest with
        | done => exact .inr ⟨hr.symm, hsite.symm, m, site, xs, rfl, hexecutes⟩
        | step => exact absurd (hlonger _ (List.mem_cons_self ..)) (by rw [← hr]; exact Nat.lt_irrefl _)

end
end Machine

/-! ## The result -/

section
variable {s s₁ : Session} {r : Run} {lines : Listing} {visits : List Machine} {m : Machine}

theorem Machine.Brackets.start (hparsed : s.program.parsed = .ok lines)
    (hlines : lines.IsBracketed) (hstart : startProgram s = .ok r s₁) :
    Machine.Brackets lines ⟨r, s₁⟩ := by
  obtain ⟨lines', hparsed', hcollect, rfl⟩ := startProgram_eq_ok hstart
  obtain rfl := Except.ok.inj (hparsed.symm.trans hparsed')
  refine ⟨rfl, rfl, (hcollect ▸ (keeps_collect_permitted fun e he ↦ ?_).run s.reset
    s.permits_reset).of_ok.2⟩
  obtain ⟨l, hl, -, ht⟩ := Listing.mem_placed.1 (Listing.mem_collected.1 he).1
  exact (Bool.and_eq_true_iff.1 (hlines l hl _ (List.mem_of_getElem? ht) _ rfl)).2

/-- Where a run comes back to a site, the statement there comes next, or if there is none, the first
one on a later line. -/
theorem Machine.Brackets.next?_of_site (h : m.Brackets lines) (hascending : lines.IsAscending)
    {site : Site} (hsite : m.run.site = site) (hstored : 0 ≤ site.line) :
    (∀ t, (site, t) ∈ lines.placed → m.run.next? = some (site, t)) ∧
      ((∀ t, (site, t) ∉ lines.placed) → m.run.next? = lines.first? ⟨site.line + 1, 0⟩) := by
  have hnext : m.run.next? = lines.first? site := by
    have hline : site.line ≠ typedLine := fun heq ↦ absurd (heq ▸ hstored) (by decide)
    rw [Run.next?, hsite, if_neg hline, if_neg (Int.not_lt.2 hstored), h.listing, Option.getD_some]
  exact ⟨fun t ht ↦ hnext.trans (hascending.first?_of_mem ht),
    fun hnone ↦ hnext.trans (Listing.first?_of_not_mem hnone)⟩

/-- Subroutines are bracketed in every run of a program that jumps to subroutines and back only by
whole statements and whole branches of conditional statements.  A jump to a subroutine notes the
statement after it.  As long as more is noted than before, this note stays where it is, on what was
noted before.  The first return after which no more is noted than before goes to the statement
after the jump to the subroutine, or if its line has no more statements, to the next one on a later
line.  A return where nothing is noted fails. -/
theorem runProgram_bracketed (hparsed : s.program.parsed = .ok lines) (hlines : lines.IsBracketed)
    (hstart : startProgram s = .ok r s₁) (hruns : Machine.Runs ⟨r, s₁⟩ visits m) :
    (∀ site xs m₁, m.Executes site .gosub xs → m.Steps m₁ →
      m₁.session.returns = site.next :: m.session.returns ∧
      ∀ visits' m', Machine.Runs m₁ visits' m' →
        (∀ v ∈ visits', m.session.returns.length < v.session.returns.length) →
        (∃ inner, m'.session.returns = inner ++ site.next :: m.session.returns) ∨
          m'.session.returns = m.session.returns ∧
          (∃ last site' xs', visits'.getLast? = some last ∧ last.Executes site' .comeBack xs') ∧
          m'.run.site = site.next ∧
          (∀ t, (site.next, t) ∈ lines.placed → m'.run.next? = some (site.next, t)) ∧
          ((∀ t, (site.next, t) ∉ lines.placed) →
            m'.run.next? = lines.first? ⟨site.line + 1, 0⟩)) ∧
    ∀ site xs, m.Executes site .comeBack xs → m.session.returns = [] →
      ∃ (f : Fault) (s' : Session), m.run.step m.session =
          .error (.fault (f.locate site.line (some site.statement))) s' ∧
        (xs = [] → f = .nowhereBack) := by
  have h := (Machine.Brackets.start hparsed hlines hstart).runs hlines hruns
  constructor
  · intro site xs m₁ ⟨t, s', hnext, hinvokes⟩ hstep
    obtain ⟨v, s₂, console, hexecute, hsession⟩ :=
      hstep.exists_execute (h.listing ▸ rfl) hnext
    have hpushed := h.returns_of_gosub hlines hnext hinvokes hexecute
    have hnoted : m₁.session.returns = site.next :: m.session.returns :=
      (congrArg Session.returns hsession).trans hpushed
    refine ⟨hnoted, fun visits' m' hruns' hlonger ↦ ?_⟩
    have h₁ := (h.step hlines hstep).1
    refine (h₁.returns_of_runs hlines hruns' ⟨[], hnoted⟩ hlonger).imp_right
      fun ⟨hreturns, hsite, hlast⟩ ↦ ⟨hreturns, hlast, hsite, ?_⟩
    obtain ⟨l, -, hline, -⟩ := Listing.mem_placed.1 (h.mem_placed hnext)
    exact (h₁.runs hlines hruns').next?_of_site (Program.isAscending_parsed hparsed) hsite
      (hline ▸ Int.natCast_nonneg _)
  · intro site xs ⟨t, s', hnext, hinvokes⟩ hnone
    have hnoting := hinvokes.noting (h.isBracketed hlines hnext) (h.noting _)
    obtain ⟨separators, heval⟩ := hinvokes.eval_eq
    obtain ⟨f, hinvoke, hf⟩ := Builtin.invoke_comeBack_of_nil (hnoting.returns.trans hnone)
    exact ⟨f, s', Machine.step_of_execute_error hnext
      (execute_of_error (heval.trans hinvoke)), hf⟩

end

/-- In the program `10 GOSUB 100`, `20 END`, `100 RETURN`, the subroutine is left by its only
statement, and the first statement after line 10 comes next. -/
theorem runProgram_bracketed_gosub :
    let s : Session := { Session.start {} {} .unavailable 0 with
      program := .edited [.store 10 "GOSUB 100", .store 20 "END", .store 100 "RETURN"] }
    ∃ lines r s₁ m₁ m₂ xs, s.program.parsed = .ok lines ∧ startProgram s = .ok r s₁ ∧
      Machine.Executes ⟨r, s₁⟩ ⟨10, 0⟩ .gosub xs ∧ Machine.Steps ⟨r, s₁⟩ m₁ ∧ m₁.Steps m₂ ∧
      m₁.session.returns = [⟨10, 1⟩] ∧ m₂.session.returns = [] ∧
      (∃ site xs, m₁.Executes site .comeBack xs) ∧ m₂.run.site = ⟨10, 1⟩ ∧
      m₂.run.next? = lines.first? ⟨11, 0⟩ := by
  intro s
  have hlines : ∃ lines ∈ s.program.parsed.toOption, lines.IsBracketed ∧
      lines.placed.map Prod.fst = [⟨10, 0⟩, ⟨20, 0⟩, ⟨100, 0⟩] := by
    decide +kernel
  have hstart : ∃ r s₁, startProgram s = .ok r s₁ ∧ s₁.returns = [] ∧
      ∃ m₁ ∈ (Machine.mk r s₁).step?, m₁.session.returns = [⟨10, 1⟩] ∧
        ∃ m₂ ∈ m₁.step?, m₂.session.returns = [] := by
    decide +kernel
  obtain ⟨lines, hparsed, hbracketed, hsites⟩ := hlines
  obtain ⟨r, s₁, hstart, hnone, m₁, h₁, hreturns₁, m₂, h₂, hreturns₂⟩ := hstart
  have hparsed : s.program.parsed = .ok lines := by
    cases h : s.program.parsed with
    | ok lines' => rw [h] at hparsed; cases hparsed; rfl
    | error e => rw [h] at hparsed; cases hparsed
  have hstep₁ := Machine.steps_of_step? h₁
  have hstep₂ := Machine.steps_of_step? h₂
  have hpasses := ((Machine.Brackets.start hparsed hbracketed hstart).step hbracketed hstep₁).2
  obtain ⟨xs, hexecutes⟩ : ∃ xs, Machine.Executes ⟨r, s₁⟩ ⟨10, 0⟩ .gosub xs := by
    cases hpasses with
    | kept h => cases hreturns₁.symm.trans (h.trans hnone)
    | back _ h => cases hnone.symm.trans h
    | @away site xs hexecutes h =>
      have hnext : site.next :: s₁.returns = [⟨10, 1⟩] := h.symm.trans hreturns₁
      rw [hnone] at hnext
      obtain ⟨line, k⟩ := site
      cases hnext
      exact ⟨xs, hexecutes⟩
  have hresult := (runProgram_bracketed hparsed hbracketed hstart (.done _)).1 ⟨10, 0⟩ xs m₁
    hexecutes hstep₁
  obtain ⟨inner, hinner⟩ | ⟨-, ⟨last, site, xs', hlast, hback⟩, hsite, -, hnext⟩ :=
    hresult.2 [m₁] m₂ hstep₂.runs (by simp [hnone, hreturns₁])
  · rw [hreturns₂] at hinner
    cases inner <;> cases hinner
  · cases hlast
    refine ⟨lines, r, s₁, m₁, m₂, xs, hparsed, hstart, hexecutes, hstep₁, hstep₂, hreturns₁,
      hreturns₂, ⟨site, xs', hback⟩, hsite, hnext fun t ht ↦ ?_⟩
    have hmem : (⟨10, 1⟩ : Site) ∈ lines.placed.map Prod.fst := List.mem_map_of_mem ht
    rw [hsites] at hmem
    exact absurd hmem (by decide)

end LineBasic
