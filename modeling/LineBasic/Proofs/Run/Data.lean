import LineBasic.Proofs.Data
import LineBasic.Proofs.Evaluation.Permission
import LineBasic.Proofs.Run.Failures
import LineBasic.Proofs.Run.LoopStatements
import LineBasic.Proofs.Run.Order

/-!
# The data of a run

Before a program runs, its data and labels are collected; while it runs, the data are read and not
changed any more.

* `traced_execute`, `traced_complete`, … — what statements and runs do with the data.
* `Dialogue.Trusted.cursor_le` — the cursor in dialogues.
* `Tree.literals?`, `Listing.literals` — data that are literals.
* `data_of_collect` — what is collected.
* `runProgram_data` — the result.
-/

set_option autoImplicit false
namespace LineBasic

/-! ## Statements -/

section
variable {isQuiet : Prop} {E : DataEvent → Prop} {p : Builtin → Bool}

theorem traced_callPermitted (hE : Records isQuiet E p) (alarm : Stop) (site : Site) (room : Nat)
    (c : Closure) (args : List Value) :
    Traced isQuiet E (callPermitted p alarm site room c args) := by
  induction room generalizing c args with
  | zero => exact .look (fun _ _ _ ↦ rfl) fun f ↦ .silent (Detached.fail f).dataless
  | succ room ih =>
    rw [callPermitted]
    split
    · exact Trait.holds_callBody (P := recording site hE) ih ‹_› args
    · exact traced_inCall c args (.silent (Detached.throw alarm).dataless)

theorem traced_evaluatePermitted (hE : Records isQuiet E p) (alarm : Stop) (site : Site) {t : Tree}
    (ht : t.callsOnly p = true) : Traced isQuiet E (evaluatePermitted p alarm site t) :=
  .look (fun _ _ _ ↦ rfl) fun room ↦
    Trait.holds_eval (P := recording site hE) (traced_callPermitted hE alarm site room) ht

theorem traced_evaluate (hE : Records isQuiet E fun _ ↦ true) (site : Site) (t : Tree) :
    Traced isQuiet E (evaluate site t) :=
  Trait.holds_evaluate (P := recording site hE) (fun _ ↦ rfl) t

theorem Traced.settled {α : Type} {act : Action α} (h : Traced isQuiet E act) (site : Site) :
    Traced isQuiet E (act.settled site) := by
  refine ⟨fun s hs ↦ ?_⟩
  obtain ⟨es, hes, hE⟩ := h.run s hs
  exact ⟨es, .settled site hes, hE⟩

theorem traced_execute (hE : Records isQuiet E fun _ ↦ true) (site : Site) (t : Tree) :
    Traced isQuiet E (execute site t) :=
  ((traced_evaluate hE site t).bind fun x _ ↦
    .silent (x.detached_outcome site).dataless).settled site

/-! ## Runs -/

section
variable {α : Type}

/-- Reading the session: what is done with it may not depend on the data. -/
theorem Traced.get {f : Session → Action α}
    (hsame : ∀ s t b, f (Session.mapAside s (Tape.put t b)) = f s)
    (h : ∀ s, Traced isQuiet E (f s)) : Traced isQuiet E (MonadState.get >>= f) := by
  -- Whatever is put in place of the data, the same is done.
  have hread : Traced isQuiet E (do return (← MonadState.get).mapAside (Tape.put ⟨[], 0⟩ false)) :=
    .silent (dataless_look fun _ _ _ ↦ rfl)
  have hthen := hread.bind fun s _ ↦ h s
  change Traced isQuiet E (MonadState.get >>= fun s ↦ f (s.mapAside (Tape.put ⟨[], 0⟩ false)))
    at hthen
  simpa only [hsame] using hthen

theorem Traced.unwinding {act : Action α} (h : Traced isQuiet E act) :
    Traced isQuiet E act.unwinding := by
  refine ⟨fun s hs ↦ ?_⟩
  obtain ⟨es, hes, hE⟩ := h.run s hs
  exact ⟨es, .unwinding hes, hE⟩

theorem dataless_listing : Dataless Action.listing :=
  .of_commutes fun t b s ↦ (Detached.mapM (fun l : Nat × String ↦
    .bind (detached_parse (some l.1) l.2) fun _ ↦ .pure _) s.program.lines).commutes (t.put b) s

theorem traced_trace (line : Int) : Traced isQuiet E (Action.trace line) :=
  traced_modify fun s t b ↦ by
    rw [apply_ite (Session.mapAside · (t.put b))]
    rfl

theorem dataless_poll : Dataless Action.poll :=
  .of_commutes fun _ _ _ ↦ rfl

theorem traced_listingFor (r : Run) (site : Site) : Traced isQuiet E (r.listingFor site) := by
  rw [Run.listingFor]
  cases r.listing with
  | some lines => exact .silent (Detached.pure _).dataless
  | none =>
    refine .get (fun _ _ _ ↦ rfl) fun s ↦ ?_
    split
    · exact .bind (.silent dataless_listing) fun _ _ ↦ .silent (Detached.pure _).dataless
    · exact .silent (Detached.pure _).dataless

theorem traced_after (hE : Records isQuiet E fun _ ↦ true) (r : Run) (site : Site)
    (statement : Option Tree) : Traced isQuiet E (r.after site statement) := by
  cases statement with
  | none => exact .silent (Detached.pure _).dataless
  | some t =>
    exact .bind (traced_execute hE site t) fun p _ ↦ .bind (traced_listingFor r p.2) fun _ _ ↦
      .silent (Detached.pure _).dataless

theorem traced_step (hE : Records isQuiet E fun _ ↦ true) (r : Run) : Traced isQuiet E r.step := by
  rw [Run.step]
  cases r.next? with
  | none => exact .silent (Detached.pure _).dataless
  | some p =>
    obtain ⟨site, statement⟩ := p
    refine .bind (traced_trace _) fun _ _ ↦ .bind (traced_after hE r site statement) fun r' _ ↦ ?_
    have hgoing : Traced isQuiet E (pure (.going r') : Action Progress) :=
      .silent (Detached.pure _).dataless
    refine .get (fun _ _ _ ↦ rfl) fun s ↦ ?_
    split
    · refine .bind (.silent dataless_poll) fun stop _ ↦ ?_
      split
      · exact .silent ((Action.detached_print _).bind fun _ ↦ .pure _).dataless
      · exact hgoing
    · exact hgoing

theorem traced_finish (hE : Records isQuiet E fun _ ↦ true) (fuel : Nat) (r : Run) :
    Traced isQuiet E (r.finish fuel) := by
  induction fuel generalizing r with
  | zero => exact .silent (Detached.throw _).dataless
  | succ fuel ih =>
    refine .bind (traced_step hE r) fun progress _ ↦ ?_
    cases progress with
    | going r' => exact ih r'
    | ended v => exact .silent (Detached.pure _).dataless

theorem traced_complete (hE : Records isQuiet E fun _ ↦ true) (r : Run) :
    Traced isQuiet E r.complete :=
  .unwinding <| .get (fun _ _ _ ↦ rfl) fun s ↦ .bind (traced_finish hE s.fuel r) fun _ _ ↦
    .bind (traced_modify fun _ _ _ ↦ rfl) fun _ _ ↦ .silent (Detached.pure _).dataless

theorem traced_startTyped (text : String) : Traced isQuiet E (startTyped text) :=
  .silent ((detached_parse none text).bind fun _ ↦
    detached_checkInterval.bind fun _ ↦ .pure _).dataless

theorem traced_runTyped (hE : Records isQuiet E fun _ ↦ true) (text : String) :
    Traced isQuiet E (runTyped text) :=
  .bind (traced_startTyped text) fun r _ ↦ traced_complete hE r

theorem traced_collect (hE : Records False E fun _ ↦ true) (lines : Listing) :
    Traced isQuiet E (collect lines) := by
  have hall : Traced False E lines.executeCollected := by
    unfold Listing.executeCollected
    induction lines.collected with
    | nil => exact .silent (Detached.pure _).dataless
    | cons e rest ih =>
      exact .bind (.bind (traced_execute hE e.1 e.2) fun _ _ ↦
        .silent (Detached.pure _).dataless) fun _ _ ↦ ih
  refine ⟨fun s _ ↦ ?_⟩
  obtain ⟨es, hes, hE⟩ := hall.run { s with isCollecting := true } nofun
  exact ⟨es, .collecting hes, hE⟩

end
end

/-! ## The cursor -/

theorem records_all (p : Builtin → Bool) : Records False (· ≠ .forgotten) p :=
  ⟨fun _ ↦ nofun, nofun, fun _ ↦ .inr fun _ ↦ nofun⟩

/-- The cursor never gets past the end. -/
theorem Traced.keeps_cursor {E : DataEvent → Prop} {α : Type} {act : Action α}
    (h : Traced False E act) :
    Keeps (fun s ↦ s.cursor ≤ s.data.length) (fun _ ↦ True) act := by
  refine ⟨fun s hs ↦ ?_⟩
  obtain ⟨es, hes, -⟩ := h.run s nofun
  obtain ⟨hallows, hends⟩ := hes.ends
  have hle := hallows.cursor_le hs
  refine hends.mono (fun s' hs' ↦ ?_) (fun _ ↦ id) fun _ ↦ id
  rw [← hs'.1] at hle
  exact hle

theorem outlasts_cursor : Outlasts fun s ↦ s.cursor ≤ s.data.length where
  books hs hs' := by
    rw [hs'.cursor, hs'.data]
    exact hs
  unwind := id
  returned := id
  reset _ := Nat.le_refl 0
  execute site t _ := (traced_execute (records_all _) site t).keeps_cursor
  collect _ := (traced_collect (records_all _) _).keeps_cursor

/-- The dialogues that a host can come to that does not itself change the data and the cursor. -/
inductive Dialogue.Trusted : Dialogue → Prop
  | start (settings : Settings) (console : Console) (bus : Bus) (seed : UInt64)
      (files : FileStore) : Trusted { session := .start settings console bus seed, files }
  | done {d d' turn} (h : Trusted d) (hd' : Turn.exchange turn d = .ok () d') : Trusted d'
  | failed {d d' turn failure} (h : Trusted d) (hd' : Turn.exchange turn d = .error failure d') :
      Trusted d'
  | outside {d d'} (h : Trusted d) (hd' : d.session.SameReading d'.session) : Trusted d'

theorem Dialogue.Trusted.cursor_le {d : Dialogue} (h : Trusted d) :
    d.session.cursor ≤ d.session.data.length := by
  induction h with
  | start settings console bus seed files => exact Nat.le_refl 0
  | done _ hd' ih => exact (hd' ▸ (Turn.keeps_exchange outlasts_cursor _).run _ ih).of_ok.2
  | failed _ hd' ih => exact (hd' ▸ (Turn.keeps_exchange outlasts_cursor _).run _ ih).of_error.2
  | outside _ hd' ih => exact outlasts_cursor.books ih hd'

/-! ## Reading -/

theorem records_reading (p : Builtin → Bool) : Records True DataEvent.IsReading p :=
  ⟨fun _ ↦ trivial, trivial, fun _ ↦ .inl trivial⟩

/-- The data are the given values, and no others are being collected. -/
structure Session.Offers (values : List Value) (s : Session) : Prop where
  data : s.data = values
  cursor_le : s.cursor ≤ s.data.length
  isCollecting : s.isCollecting = false

theorem Traced.keeps_offers {α : Type} {act : Action α} (h : Traced True DataEvent.IsReading act)
    (values : List Value) : Keeps (Session.Offers values) (fun _ ↦ True) act := by
  refine ⟨fun s hs ↦ ?_⟩
  obtain ⟨es, hes, hreading⟩ := h.run s fun _ ↦ hs.isCollecting
  obtain ⟨hallows, hends⟩ := hes.ends
  have hle := hallows.cursor_le hs.cursor_le
  have hvalues : (es.foldl Tape.after s.tape).values = values := by
    rw [Tape.values_foldl_after, DataEvent.foldl_gathered_of_reading hreading]
    exact hs.data
  refine hends.mono (fun s' hs' ↦ ?_) (fun _ ↦ id) fun _ ↦ id
  obtain ⟨htape, hcollecting⟩ := hs'
  rw [← htape] at hle hvalues
  exact ⟨hvalues, hle, hcollecting hs.isCollecting⟩

theorem Session.Offers.runs {values : List Value} {m m' : Machine} {visits : List Machine}
    (h : m.session.Offers values) (hruns : m.Runs visits m') : m'.session.Offers values := by
  induction hruns with
  | done m => exact h
  | @step m m₁ m' visits hstep _ ih =>
    have hends := ((traced_step (records_reading _) m.run).keeps_offers values).run m.session h
    rw [hstep] at hends
    exact ih hends.of_ok.2

/-! ## Literals -/

/-- The value of a literal. -/
def Tree.literal? : Tree → Option Value
  | .number x => some (.number x)
  | .string s => some (.string s)
  | .boolean b => some (.boolean b)
  | _ => none

/-- The values of a data statement that gives literals. -/
def Tree.literals? : Tree → Option (List Value)
  | .call name args _ => if name = "DATA" then args.mapM literal? else none
  | _ => none

/-- All builtins but the one that gives data. -/
def Builtin.isNotData : Builtin → Bool
  | .data => false
  | _ => true

/-- Whether a statement gives data as literals, or calls no builtin that gives data and forms no
function that does. -/
def Tree.hasPlainData (t : Tree) : Bool :=
  t.literals?.isSome || (t.callsOnly Builtin.isNotData && t.formsOnly Builtin.isNotData)

namespace Listing

/-- Whether data are given by statements with literals only. -/
def hasPlainData (lines : Listing) : Bool :=
  lines.placed.all fun p ↦ p.2.all Tree.hasPlainData

/-- The literals that data statements give, in the order of the text. -/
def literals (lines : Listing) : List Value :=
  lines.placed.flatMap fun p ↦ (p.2.bind Tree.literals?).getD []

end Listing

section
variable {site : Site} {t : Tree} {s s' : Session} {values : List Value}

theorem Tree.literals?_eq_some (h : t.literals? = some values) :
    ∃ args separators, t = .call "DATA" args separators ∧ args.mapM literal? = some values := by
  unfold literals? at h
  split at h
  · split at h
    · exact ⟨_, _, congrArg (call · _ _) ‹_›, h⟩
    · cases h
  · cases h

theorem Tree.eval_literal {enter : Closure → List Value → Action Value} {v : Value}
    (h : t.literal? = some v) : eval enter site t s = .ok (.value v) s := by
  unfold literal? at h
  split at h
  · cases h
    rfl
  · cases h
    rfl
  · cases h
    rfl
  · cases h

theorem evalAll_literals {enter : Closure → List Value → Action Value} {args : List Tree}
    (h : args.mapM Tree.literal? = some values) :
    evalAll enter site args s = .ok (values.map .value) s := by
  induction args generalizing values with
  | nil =>
    cases h
    rfl
  | cons arg args ih =>
    rw [List.mapM_cons] at h
    obtain ⟨v, hv, h⟩ := Option.bind_eq_some_iff.1 h
    obtain ⟨vs, hvs, h⟩ := Option.bind_eq_some_iff.1 h
    cases h
    rw [evalAll, bind_run_of_ok (Tree.eval_literal hv), bind_run_of_ok (ih hvs)]
    rfl

theorem dataOf_of_isCollecting (h : s.isCollecting = true) :
    Builtin.dataOf values s = .ok .null { s with data := s.data ++ values } := by
  rw [Builtin.dataOf, get_bind_run, if_pos h]
  rfl

/-- Executing literals as data adds their values while data are collected. -/
theorem execute_of_literals (h : t.literals? = some values) (hcollecting : s.isCollecting = true) :
    execute site t s = .ok (.null, site.next) { s with data := s.data ++ values } := by
  obtain ⟨args, separators, rfl, hargs⟩ := Tree.literals?_eq_some h
  have hinvoke (enter : Closure → List Value → Action Value) (xs : List Operand) :
      Builtin.data.invoke enter site separators xs = do
        let vs ← Operand.resolveAll xs
        return .value (← Builtin.dataOf vs) := rfl
  have heval : evaluate site (.call "DATA" args separators) s =
      .ok (.value .null) { s with data := s.data ++ values } := by
    have hdata : Builtin.ofName? "DATA" = some .data := by decide
    rw [evaluate_eq, eval, hdata]
    simp only
    rw [callBuiltin_eq (checkEnabled_eq_ok rfl rfl), bind_run_of_ok (evalAll_literals hargs),
      hinvoke, Operand.resolveAll_values, pure_bind,
      bind_run_of_ok (dataOf_of_isCollecting hcollecting)]
    rfl
  rw [execute, Action.settled, bind_run_of_ok heval]
  rfl

/-- Executing a statement that does not give data leaves them as they are. -/
theorem data_of_execute (hcalls : t.callsOnly Builtin.isNotData = true)
    (hforms : t.formsOnly Builtin.isNotData = true) (hs : s.Permits Builtin.isNotData) :
    Ends (fun s' ↦ s'.data = s.data) (fun _ ↦ True) (fun _ ↦ True) (execute site t s) := by
  have hE : Records False DataEvent.IsReading Builtin.isNotData := ⟨fun _ ↦ trivial, trivial, nofun⟩
  obtain ⟨es, hes, hreading⟩ :=
    ((traced_evaluatePermitted hE .endOfInput site hcalls).bind fun x _ ↦
      .silent (x.detached_outcome site).dataless).settled site |>.run s nofun
  have heq : ((evaluatePermitted Builtin.isNotData .endOfInput site t >>= fun x ↦
      x.outcome site).settled site) s = execute site t s := by
    rw [execute, Action.settled, Action.settled]
    rw [bind_run_congr (evaluatePermitted_eq hforms hs _) fun _ _ _ ↦ rfl]
  rw [← heq]
  refine hes.ends.2.mono (fun s' hs' ↦ ?_) (fun _ ↦ id) fun _ ↦ id
  have hvalues := congrArg Tape.values hs'.1
  rwa [Tape.values_foldl_after, DataEvent.foldl_gathered_of_reading hreading] at hvalues

theorem formsOnly_of_literals {p : Builtin → Bool} (h : t.literals? = some values) :
    t.formsOnly p = true := by
  obtain ⟨args, separators, rfl, hargs⟩ := Tree.literals?_eq_some h
  rw [Tree.formsOnly]
  clear h
  induction args generalizing values with
  | nil => rfl
  | cons arg args ih =>
    rw [List.mapM_cons] at hargs
    obtain ⟨v, hv, hargs⟩ := Option.bind_eq_some_iff.1 hargs
    obtain ⟨vs, hvs, -⟩ := Option.bind_eq_some_iff.1 hargs
    have harg : arg.formsOnly p = true := by
      cases arg with
      | number | string | boolean => rfl
      | _ => cases hv
    rw [Tree.allFormOnly, harg, ih hvs]
    rfl

/-! ## Collecting -/

/-- A session in which data are being collected, with functions in its values that do not give any.
-/
structure Session.Collects (s : Session) : Prop where
  permits : s.Permits Builtin.isNotData
  isCollecting : s.isCollecting = true

theorem Session.Collects.execute {p : Value × Site} (h : s.Collects) (ht : t.hasPlainData = true)
    (hexecute : execute site t s = .ok p s') :
    s'.Collects ∧ s'.data = s.data ++ t.literals?.getD [] := by
  have hcollecting : s'.isCollecting = true := by
    obtain ⟨q, s₁, heq, hevolves⟩ | ⟨e, s₁, heq, -⟩ := closes_execute site t s
    · cases hexecute.symm.trans heq
      exact hevolves.isCollecting.trans h.isCollecting
    · cases hexecute.symm.trans heq
  have hpermits (hforms : t.formsOnly Builtin.isNotData = true) : s'.Permits Builtin.isNotData :=
    (hexecute ▸ ends_execute_permitted site hforms h.permits).of_ok.2
  cases hliterals : t.literals? with
  | some values =>
    refine ⟨⟨hpermits (formsOnly_of_literals hliterals), hcollecting⟩, ?_⟩
    cases (execute_of_literals hliterals h.isCollecting).symm.trans hexecute
    rfl
  | none =>
    rw [Tree.hasPlainData, hliterals, Option.isSome_none, Bool.false_or, Bool.and_eq_true] at ht
    obtain ⟨hcalls, hforms⟩ := ht
    refine ⟨⟨hpermits hforms, hcollecting⟩, ?_⟩
    rw [Option.getD_none, List.append_nil]
    exact (hexecute ▸ data_of_execute hcalls hforms h.permits).of_ok.2

theorem Session.Collects.forM {todo : List (Site × Tree)} (h : s.Collects)
    (htodo : ∀ e ∈ todo, e.2.hasPlainData = true)
    (hforM : (todo.forM fun e ↦ do let _ ← LineBasic.execute e.1 e.2) s = .ok () s') :
    s'.data = s.data ++ todo.flatMap fun e ↦ e.2.literals?.getD [] := by
  induction todo generalizing s with
  | nil =>
    cases hforM
    exact (List.append_nil _).symm
  | cons e todo ih =>
    obtain ⟨_, s₁, hfirst, hrest⟩ := bind_run_eq_ok.1 hforM
    obtain ⟨p, s₂, hexecute, hfirst⟩ := bind_run_eq_ok.1 hfirst
    cases hfirst
    obtain ⟨he, htodo⟩ := List.forall_mem_cons.1 htodo
    obtain ⟨hs₁, hdata⟩ := h.execute he hexecute
    rw [ih hs₁ htodo hrest, hdata, List.append_assoc, List.flatMap_cons]

theorem isCollected_of_literals (h : t.literals? = some values) : isCollected t = true := by
  obtain ⟨args, separators, rfl, -⟩ := Tree.literals?_eq_some h
  rfl

/-- What is collected are the literals of the text. -/
theorem Listing.flatMap_collected (lines : Listing) :
    (lines.collected.flatMap fun e ↦ e.2.literals?.getD []) = lines.literals := by
  rw [collected_eq, literals]
  induction lines.placed with
  | nil => rfl
  | cons p rest ih =>
    obtain ⟨site, statement⟩ := p
    rw [List.flatMap_cons, ← ih]
    cases statement with
    | none => rfl
    | some t =>
      cases ht : isCollected t with
      | true => simp [Option.filter, ht]
      | false =>
        have hnone : t.literals? = none := Option.eq_none_iff_forall_ne_some.2 fun values h ↦
          Bool.false_ne_true (ht.symm.trans (isCollected_of_literals h))
        simp [Option.filter, ht, hnone]

/-- After collecting, the data are the literals of the text. -/
theorem data_of_collect {lines : Listing} (hplain : lines.hasPlainData = true)
    (h : collect lines s.reset = .ok () s') : s'.data = lines.literals := by
  rw [collect_eq] at h
  cases hcollected : lines.executeCollected { s.reset with isCollecting := true } with
  | error e s₁ =>
    rw [Action.unwinding, hcollected] at h
    cases e <;> cases h
  | ok _ s₁ =>
    rw [Action.unwinding, hcollected] at h
    cases h
    have hcollects : Session.Collects { s.reset with isCollecting := true } :=
      ⟨s.permits_reset.books ⟨rfl, rfl, rfl, rfl, rfl⟩, rfl⟩
    have htodo : ∀ e ∈ lines.collected, e.2.hasPlainData = true := by
      intro e he
      have hplaced := List.all_eq_true.1 hplain _ (Listing.mem_collected.1 he).1
      exact hplaced
    have hdata := hcollects.forM htodo hcollected
    rw [Listing.flatMap_collected] at hdata
    exact hdata

theorem forM_of_literals {todo : List (Site × Tree)} (h : ∀ e ∈ todo, e.2.literals?.isSome = true)
    (hcollecting : s.isCollecting = true) :
    (todo.forM fun e ↦ do let _ ← execute e.1 e.2) s =
      .ok () { s with data := s.data ++ todo.flatMap fun e ↦ e.2.literals?.getD [] } := by
  induction todo generalizing s with
  | nil =>
    rw [List.flatMap_nil, List.append_nil]
    rfl
  | cons e todo ih =>
    obtain ⟨he, htodo⟩ := List.forall_mem_cons.1 h
    obtain ⟨values, hvalues⟩ := Option.isSome_iff_exists.1 he
    have hfirst : (do let _ ← execute e.1 e.2 : Action Unit) s =
        .ok () { s with data := s.data ++ values } :=
      bind_run_of_ok (execute_of_literals hvalues hcollecting)
    refine (bind_run_of_ok hfirst).trans ((ih (s := { s with data := s.data ++ values }) htodo
      hcollecting).trans ?_)
    rw [List.flatMap_cons, hvalues, Option.getD_some, List.append_assoc]

/-- Nothing but literals is collected without a fault. -/
theorem collect_of_literals {lines : Listing}
    (h : ∀ e ∈ lines.collected, e.2.literals?.isSome = true) :
    ∃ s', collect lines s = .ok () s' := by
  have hall := forM_of_literals h (s := { s with isCollecting := true }) rfl
  rw [collect_eq, Action.unwinding]
  unfold Listing.executeCollected
  rw [hall]
  exact ⟨_, rfl⟩

end

/-! ## Programs -/

section
variable {s : Session}

theorem exists_performs_startProgram (s : Session) :
    ∃ es, Performs startProgram s (.forgotten :: es) ∧ .forgotten ∉ es := by
  have hrest : Traced False (· ≠ .forgotten) (do
      let lines ← Action.listing
      collect lines
      Action.checkInterval
      return { listing := some lines, site := ⟨1, 0⟩ } : Action Run) :=
    .bind (.silent dataless_listing) fun lines _ ↦ .bind (traced_collect (records_all _) lines)
      fun _ _ ↦ .silent (detached_checkInterval.bind fun _ ↦ .pure _).dataless
  obtain ⟨es, hes, hkept⟩ := hrest.run s.reset nofun
  exact ⟨es, .bind .forgotten rfl hes, fun h ↦ hkept _ h rfl⟩

/-- The events of a run are those at its start, and then the data are only read. -/
theorem exists_performs_runProgram (s : Session) :
    ∃ es es', Performs startProgram s (.forgotten :: es) ∧ .forgotten ∉ es ∧
      Performs runProgram s (.forgotten :: (es ++ es')) ∧ ∀ e ∈ es', e.IsReading := by
  obtain ⟨es, hes, hkept⟩ := exists_performs_startProgram s
  cases hstart : startProgram s with
  | ok r s₁ =>
    obtain ⟨lines, -, hcollect, -⟩ := startProgram_eq_ok hstart
    have hquiet : s₁.isCollecting = false :=
      (hcollect ▸ isCollecting_of_collect lines s.reset).of_ok.2
    have hrest : Traced True DataEvent.IsReading (do let _ ← r.complete : Action Unit) :=
      (traced_complete (records_reading _) r).bind fun _ _ ↦ .silent (Detached.pure _).dataless
    obtain ⟨es', hes', hreading⟩ := hrest.run s₁ fun _ ↦ hquiet
    exact ⟨es, es', hes, hkept, .bind hes hstart hes', hreading⟩
  | error e s₁ =>
    refine ⟨es, [], hes, hkept, ?_, List.forall_mem_nil _⟩
    rw [List.append_nil]
    exact .stopped hes hstart

/-- The data at the end of what is done without a fault are those that were gathered. -/
theorem Performs.data_eq {α : Type} {act : Action α} {es : List DataEvent} {a : α} {s' : Session}
    (h : Performs act s es) (hok : act s = .ok a s') :
    s'.data = es.foldl DataEvent.gathered s.data := by
  have htape := (hok ▸ h.ends.2).of_ok.2.1
  exact (congrArg Tape.values htape).trans (Tape.values_foldl_after _ _)

end

/-! ## The result -/

/-- Data are read in the order of the text.

In a program whose data are literals in data statements, the statements are in the order of their
sites.  Nothing but literals is collected without a fault.  A run that starts has the literals as
its data, in the order of the text, and they stay the same in all that it comes to, with the cursor
never past their end; in fact the cursor is never past the end of the data in any dialogue.

What a run does with the data can be told as events: they are forgotten; then values are added, and
maybe read by labels, and from there on the data are only read.  Each value that is asked for is the
one at the position of how many were asked for since the run started or the data were restored.  If
there is none, then the run ends for want of data right there, and the cursor stays where it is.
Typed lines go on reading where the cursor stands. -/
theorem runProgram_data {s : Session} {lines : Listing} (hparsed : s.program.parsed = .ok lines)
    (hplain : lines.hasPlainData = true) :
    lines.placed.Pairwise (fun p q ↦ p.1.Before q.1) ∧
    ((∀ e ∈ lines.collected, e.2.literals?.isSome = true) →
      ∃ s₁, collect lines s.reset = .ok () s₁) ∧
    (∀ r s₁, startProgram s = .ok r s₁ →
      (∀ visits m, Machine.Runs ⟨r, s₁⟩ visits m → m.session.Offers lines.literals) ∧
      Ends (Session.Offers lines.literals) (fun _ ↦ True) (fun _ ↦ True) (runProgram s)) ∧
    (∀ d, Dialogue.Trusted d → d.session.cursor ≤ d.session.data.length) ∧
    (∃ es es', Performs startProgram s (.forgotten :: es) ∧ .forgotten ∉ es ∧
      Performs runProgram s (.forgotten :: (es ++ es')) ∧
      (∀ r s₁, startProgram s = .ok r s₁ → es.foldl DataEvent.gathered [] = lines.literals) ∧
      (∀ e ∈ es', e.IsReading) ∧
      ∀ before found later, es ++ es' = before ++ .read found :: later →
        found = (before.foldl DataEvent.gathered [])[before.foldl DataEvent.asked 0]? ∧
        (found = none → later = [] ∧ ∃ f s', runProgram s = .error (.fault f) s' ∧
          f.kind = .outOfData ∧ s'.cursor = before.foldl DataEvent.asked 0)) ∧
    ∀ text s, s.isCollecting = false → ∃ es, Performs (runTyped text) s es ∧
      (∀ e ∈ es, e.IsReading) ∧
      ∀ before found later, es = before ++ .read found :: later →
        found = s.data[before.foldl DataEvent.asked s.cursor]? ∧
        (found = none → later = [] ∧ ∃ f s', runTyped text s = .error (.fault f) s' ∧
          f.kind = .outOfData ∧ s'.cursor = before.foldl DataEvent.asked s.cursor) := by
  have hstarts (r : Run) (s₁ : Session) (hstart : startProgram s = .ok r s₁) :
      s₁.Offers lines.literals := by
    obtain ⟨lines', hparsed', hcollect, -⟩ := startProgram_eq_ok hstart
    cases hparsed.symm.trans hparsed'
    have hcursor := (hcollect ▸ (traced_collect (records_all _) lines).keeps_cursor.run s.reset
      (Nat.le_refl 0)).of_ok.2
    exact ⟨data_of_collect hplain hcollect, hcursor,
      (hcollect ▸ isCollecting_of_collect lines s.reset).of_ok.2⟩
  refine ⟨(Program.isAscending_parsed hparsed).pairwise_placed, collect_of_literals, ?_,
    fun d ↦ Dialogue.Trusted.cursor_le, ?_, ?_⟩
  · intro r s₁ hstart
    refine ⟨fun visits m hruns ↦ (hstarts r s₁ hstart).runs hruns, ?_⟩
    have hcomplete : Traced True DataEvent.IsReading (do let _ ← r.complete : Action Unit) :=
      (traced_complete (records_reading _) r).bind fun _ _ ↦ .silent (Detached.pure _).dataless
    have hends := (hcomplete.keeps_offers lines.literals).run s₁ (hstarts r s₁ hstart)
    rwa [runProgram, bind_run_of_ok hstart]
  · obtain ⟨es, es', hstart, hkept, hrun, hreading⟩ := exists_performs_runProgram s
    refine ⟨es, es', hstart, hkept, hrun, fun r s₁ hok ↦ ?_, hreading,
      fun before found later hes ↦ ?_⟩
    · exact (hstart.data_eq hok).symm.trans (hstarts r s₁ hok).data
    · rw [hes, ← List.cons_append] at hrun
      exact hrun.read_eq
  · intro text s hquiet
    obtain ⟨es, hes, hreading⟩ := (traced_runTyped (records_reading _) text).run s fun _ ↦ hquiet
    refine ⟨es, hes, hreading, ?_⟩
    rintro before found later rfl
    have hbefore : ∀ e ∈ before, e.IsReading := fun e he ↦
      hreading e (List.mem_append_left _ he)
    have hread := hes.read_eq
    rwa [DataEvent.foldl_gathered_of_reading hbefore] at hread

/-- Lines entered out of order, one of which reads before it gives data. -/
theorem runProgram_data_entered :
    let program := ((Program.empty.storeAt 30 "DATA \"C\"").storeAt 20 "READ Y : RESTORE").storeAt 10
      "READ X : DATA \"A\", TRUE"
    let s : Session := { Session.start {} {} .unavailable 0 with program }
    ∃ lines r s₁, s.program.parsed = .ok lines ∧ lines.hasPlainData = true ∧
      lines.literals.map Value.typeName = ["string", "bool", "string"] ∧
      startProgram s = .ok r s₁ ∧ s₁.data = lines.literals := by
  intro program s
  have hlines : (s.program.parsed.toOption.any fun lines ↦ lines.hasPlainData &&
      lines.literals.map Value.typeName == ["string", "bool", "string"]) = true := by
    decide +kernel
  have hstarts : Ends (fun _ ↦ True) (fun _ ↦ True) (fun _ ↦ False) (startProgram s) := by
    decide +kernel
  obtain ⟨r, s₁, hstart, -⟩ := hstarts.exists_ok
  cases hparsed : s.program.parsed with
  | error e =>
    rw [hparsed] at hlines
    cases hlines
  | ok lines =>
    rw [hparsed] at hlines
    obtain ⟨hplain, hliterals⟩ := Bool.and_eq_true_iff.1 hlines
    obtain ⟨-, -, hdata, -⟩ := runProgram_data hparsed hplain
    exact ⟨lines, r, s₁, rfl, hplain, eq_of_beq hliterals, hstart,
      ((hdata r s₁ hstart).1 [] ⟨r, s₁⟩ (.done _)).data⟩

end LineBasic
