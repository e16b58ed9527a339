import LineBasic.Proofs.Run.Failures

/-!
# The stack of frames and calls

Evaluation puts frames and calls on the stack only while a function runs, and takes them off however
the function ends.  So the stack after any evaluation is that from before, and every statement of
every run starts with an empty one.

A function is entered only if fewer calls than the limit are under way.  To say that there are never
more of them, evaluation is compared with one that raises an alarm if there are.

* `balances_evaluate` — the stack from before comes back.
* `evaluateWatched`, `callWatched_eq` — evaluation with the alarm, which is never raised.
* `callWithin_of_isFull`, `callWithin_room` — calls at the limit and below.
* `Session.Executes` — the statements of a run with the sessions that they are executed in.
* `evaluation_isBalanced` — the result.
-/

set_option autoImplicit false
namespace LineBasic

/-! ## The stack after evaluation -/

theorem true_iff_forall_mem {α : Type} {as : List α} : True ↔ ∀ a ∈ as, True :=
  iff_of_true trivial fun _ _ ↦ trivial

/-- The world in which nothing is asked of values and trees. -/
def anything : World where
  good _ := True
  fits _ _ := True
  stops e e' := e = e'
  escapes _ := False
  stops_refl _ _ := rfl
  number _ := trivial
  string _ := trivial
  boolean _ := trivial
  null := trivial
  array _ := trivial
  generator _ _ _ := trivial
  listMonad := true_iff_forall_mem
  memoMonad := .rfl
  composed := true_iff_forall_mem
  curry _ _ _ := trivial
  rename _ _ := trivial
  uses _ := True
  builtin _ _ := trivial
  ident _ _ := trivial
  constant _ := trivial
  part _ _ _ := trivial
  value _ := trivial
  lambda _ := trivial
  argument _ _ := trivial
  missing _ _ := rfl

/-- How an action ends that leaves the stack as it is in a session. -/
abbrev Balances {α : Type} (s : Session) (r : EStateM.Result Stop Session α) : Prop :=
  Ends (fun s' ↦ s'.binders = s.binders) (fun _ ↦ True) (fun _ ↦ True) r

/-- What does not look at the arguments of the calls under way leaves the stack as it is. -/
theorem Lockstep.balances {α : Type} {Q : α → Prop} {s : Session} {F : List Frame}
    {act act' : Action α} (h : Lockstep anything s.binders.frames F Q act act') :
    Balances s (act s) :=
  ((h.run s rfl (s.all_of_forall fun _ ↦ trivial)).ends fun _ _ _ ↦ id).mono
    (fun _ h ↦ h.binders) (fun _ _ ↦ trivial) fun _ _ ↦ trivial

section
variable (site : Site) (t : Tree) (s : Session)

theorem agree_evaluate : Agree anything s.binders.frames (Operand.IsGood anything) s
    (evaluate site t s) (evaluate site t s) :=
  (lockstep_eval (lockstep_callWithin (fun _ _ _ _ ↦ trivial) site s.room) trivial).run s rfl
    (s.all_of_forall fun _ ↦ trivial)

theorem balances_evaluate : Balances s (evaluate site t s) :=
  (lockstep_eval (lockstep_callWithin (fun _ _ _ _ ↦ trivial) site s.room) trivial).balances

theorem balances_execute : Balances s (execute site t s) :=
  (ends_execute (fun _ ↦ id) ((agree_evaluate site t s).ends fun _ _ _ ↦ id)).mono
    (fun _ h ↦ h.binders) (fun _ _ ↦ trivial) fun _ _ ↦ trivial

end

/-! ## The number of calls -/

/-- Whether more calls are under way than the limit allows. -/
def Binders.Stack.isOverfull (b : Binders.Stack) : Bool :=
  match b.limit.whole? with
  | some n => decide (n < b.depth)
  | none => false

/-- Calls a function, and raises an alarm if more calls are then under way than allowed. -/
def callWatched (alarm : Stop) (site : Site) : Nat → Closure → List Value → Action Value
  | 0, _, _ => do Action.fail (← get).binders.tooDeep
  | room + 1, c, args => Action.inCall c args do
    if (← get).binders.isOverfull then throw alarm
    (← eval (callWatched alarm site room) site c.body).resolve

/-- Evaluates a tree, with an alarm when more calls are under way than allowed. -/
def evaluateWatched (alarm : Stop) (site : Site) (t : Tree) : Action Operand := do
  eval (callWatched alarm site (← get).room) site t

namespace Binders.Stack

variable {b b' : Stack} {c : Closure} {args : Frame}

theorem isFull_of_le {n : Int} (hn : b.limit.whole? = some n) (h : n ≤ b.depth) :
    b.isFull = true := by
  rw [isFull, hn]
  exact decide_eq_true h

theorem not_isFull_of_lt {n : Int} (hn : b.limit.whole? = some n) (h : b.depth < n) :
    b.isFull = false := by
  rw [isFull, hn]
  exact decide_eq_false (by omega)

theorem enter?_of_isFull (h : b.isFull = true) : b.enter? c args = .error b.tooDeep :=
  if_pos h

theorem not_isOverfull_of_enter? (h : b.enter? c args = .ok b') : b'.isOverfull = false := by
  rw [enter?] at h
  split at h
  · cases h
  · rename_i hfull
    cases h
    change (match b.limit.whole? with
      | some n => decide (n < (b.enter c args).depth)
      | none => false) = false
    split
    · rename_i n hn
      refine decide_eq_false fun hlt ↦ hfull (isFull_of_le hn ?_)
      change n < ((b.depth + 1 : Nat) : Int) at hlt
      omega
    · rfl

end Binders.Stack

/-- Calls are the same if what is done inside them is the same where they are entered. -/
theorem Action.inCall_congr {α : Type} {c : Closure} {args : Frame} {act act' : Action α}
    (h : ∀ (s : Session) inner, s.binders.enter? c args = .ok inner →
      act { s with binders := inner } = act' { s with binders := inner }) :
    Action.inCall c args act = Action.inCall c args act' := by
  funext s
  unfold Action.inCall
  cases henter : s.binders.enter? c args with
  | error f => rfl
  | ok inner =>
    simp only
    rw [h s inner henter]

/-- The alarm is never raised. -/
theorem callWatched_eq (alarm : Stop) (site : Site) (room : Nat) :
    callWatched alarm site room = callWithin site room := by
  induction room with
  | zero => rfl
  | succ room ih =>
    funext c args
    refine Action.inCall_congr fun s inner henter ↦ ?_
    rw [ih]
    change (if inner.isOverfull = true then _ else _ : Action Value) _ = _
    rw [Binders.Stack.not_isOverfull_of_enter? henter]
    rfl

theorem evaluateWatched_eq (alarm : Stop) (site : Site) (t : Tree) :
    evaluateWatched alarm site t = evaluate site t := by
  funext s
  change eval (callWatched alarm site s.room) site t s = eval (callWithin site s.room) site t s
  rw [callWatched_eq]

/-- A call at the limit fails before it is entered. -/
theorem callWithin_of_isFull {s : Session} (h : s.binders.isFull = true) (site : Site) (room : Nat)
    (c : Closure) (args : List Value) :
    callWithin site room c args s = .error (.fault s.binders.tooDeep) s := by
  cases room with
  | zero => rfl
  | succ room =>
    rw [callWithin, Action.inCall, Binders.Stack.enter?_of_isFull h]

/-- A call below the limit evaluates the body of the function inside. -/
theorem callWithin_room {s : Session} {n : Int} (hn : s.binders.limit.whole? = some n)
    (h : s.binders.depth < n) (site : Site) (c : Closure) (args : List Value) :
    callWithin site s.room c args s =
      Action.inCall c args (do (← evaluate site c.body).resolve) s := by
  have hroom : s.room = ({ s with binders := s.binders.enter c args } : Session).room + 1 := by
    change (match s.binders.limit.whole? with
      | some limit => (limit - s.binders.depth).toNat
      | none => boundlessDepth) = (match s.binders.limit.whole? with
      | some limit => (limit - ((s.binders.depth + 1 : Nat) : Int)).toNat
      | none => boundlessDepth) + 1
    rw [hn]
    simp only
    omega
  rw [hroom, callWithin]
  have henter : s.binders.enter? c args = .ok (s.binders.enter c args) := by
    rw [Binders.Stack.enter?, Binders.Stack.not_isFull_of_lt hn h]
    rfl
  unfold Action.inCall
  rw [henter]
  rfl

/-! ## Statements of runs -/

/-- The statements of the runs that are started in a session, each with the session that it is
executed in: those of typed lines and of the stored program, and before a program runs, those that
collect labels and data. -/
inductive Session.Executes (s : Session) : Site → Tree → Session → Prop
  | typed {text r s₀ visits m site t} (hstart : startTyped text s = .ok r s₀)
      (hruns : Machine.Runs ⟨r, s₀⟩ visits m) (hnext : m.run.next? = some (site, some t)) :
      Executes s site t (m.session.noted site.line)
  | stored {r s₀ visits m site t} (hstart : startProgram s = .ok r s₀)
      (hruns : Machine.Runs ⟨r, s₀⟩ visits m) (hnext : m.run.next? = some (site, some t)) :
      Executes s site t (m.session.noted site.line)
  | collecting {lines s₀ done e rest s₁} (hlines : Action.listing s.reset = .ok lines s₀)
      (hsplit : lines.collected = done ++ e :: rest)
      (hdone : (done.forM fun e ↦ do let _ ← execute e.1 e.2 : Action Unit)
        { s₀ with isCollecting := true } = .ok () s₁) :
      Executes s e.1 e.2 s₁

/-- No frames are in force and no calls are under way. -/
def Session.IsOutside (s : Session) : Prop :=
  s.binders.frames = [] ∧ s.binders.calls = []

theorem survives_isOutside : Survives Session.IsOutside where
  books hs hs' := by rwa [Session.IsOutside, hs'.binders]
  unwind _ := ⟨rfl, rfl⟩
  returned _ := ⟨rfl, rfl⟩
  reset _ := ⟨rfl, rfl⟩
  execute site t _ := ⟨fun s hs ↦ (balances_execute site t s).mono
    (fun s' hs' ↦ by rwa [Session.IsOutside, hs']) (fun _ ↦ id) fun _ ↦ id⟩

theorem Session.Reachable.isOutside {past : List Execution} {s : Session} (h : Reachable past s) :
    s.IsOutside := by
  induction h with
  | start settings console bus seed => exact ⟨rfl, rfl⟩
  | @executed past s site t p s' _ ht hs' ih =>
    have hends := balances_execute site t s
    rw [hs'] at hends
    rwa [IsOutside, hends.of_ok.2]
  | @failed past s site t e s' _ ht hs' ih =>
    have hends := balances_execute site t s
    rw [hs'] at hends
    rwa [IsOutside, hends.of_error.2]
  | books _ hs' ih => exact survives_isOutside.books ih hs'
  | unwound _ _ => exact ⟨rfl, rfl⟩
  | returned _ _ => exact ⟨rfl, rfl⟩
  | reset _ _ => exact ⟨rfl, rfl⟩

/-- What a run keeps, it keeps from machine to machine. -/
theorem Machine.Runs.keeps {P : Session → Prop} (hP : Outlasts P) {m m' : Machine}
    {visits : List Machine} (h : m.Runs visits m') (hrun : m.run.IsParsed) (hs : P m.session) :
    P m'.session := by
  induction h with
  | done m => exact hs
  | @step m m₁ m' visits hstep _ ih =>
    have hends := (keeps_step hP.endures hrun).run m.session hs
    rw [hstep] at hends
    obtain ⟨hrun₁, hs₁⟩ := hends.of_ok
    exact ih hrun₁ hs₁

theorem Session.Executes.isOutside {s s' : Session} {site : Site} {t : Tree}
    (h : s.Executes site t s') (hs : s.IsOutside) : s'.IsOutside := by
  have hP := survives_isOutside.outlasts
  have hnoted : ∀ (s₁ : Session) line, s₁.IsOutside → (s₁.noted line).IsOutside := by
    intro s₁ line hs₁
    rw [noted]
    split
    · exact hs₁
    · exact hs₁
  cases h with
  | @typed text r s₀ visits m site t hstart hruns hnext =>
    have hends := (keeps_startTyped text).run s hs
    rw [hstart] at hends
    exact hnoted _ _ (hruns.keeps hP hends.of_ok.1 hends.of_ok.2)
  | @stored r s₀ visits m site t hstart hruns hnext =>
    have hends := (keeps_startProgram hP.endures).run s hs
    rw [hstart] at hends
    exact hnoted _ _ (hruns.keeps hP hends.of_ok.1 hends.of_ok.2)
  | @collecting lines s₀ done e rest _ hlines hsplit hdone =>
    have hlisting := (keeps_listing (P := IsOutside)).run s.reset ⟨rfl, rfl⟩
    rw [hlines] at hlisting
    obtain ⟨hparsed, hs₀⟩ := hlisting.of_ok
    have hall : Keeps IsOutside (fun _ ↦ True) (done.forM fun e ↦ do
        let _ ← execute e.1 e.2 : Action Unit) :=
      .forM fun e he ↦ .bind (hP.execute e.1
        (hparsed.collected (hsplit ▸ List.mem_append_left _ he))) fun _ _ ↦ .pure trivial
    have hends := hall.run { s₀ with isCollecting := true } hs₀
    rw [hdone] at hends
    exact hends.of_ok.2

/-! ## The result -/

/-- Evaluation leaves the frames and calls as they were, however it ends.  Inside a function that it
calls there are never more calls under way than the limit; a call at the limit fails without being
entered, and one below it evaluates the body of the function inside.  So a run that is started in
a reachable session executes each of its statements without frames in force and calls under way. -/
theorem evaluation_isBalanced :
    (∀ site t s, Balances s (evaluate site t s)) ∧
    (∀ alarm site t s, evaluateWatched alarm site t s = evaluate site t s) ∧
    (∀ site c args (s : Session) (limit : Int), s.binders.limit.whole? = some limit →
      (limit ≤ s.binders.depth → s.binders.tooDeep.kind = .recursionLimit ∧
        ∀ room, callWithin site room c args s = .error (.fault s.binders.tooDeep) s) ∧
      (s.binders.depth < limit → callWithin site s.room c args s =
        Action.inCall c args (do (← evaluate site c.body).resolve) s)) ∧
    (∀ d, Dialogue.Reachable d → ∃ past, Session.Reachable past d.session) ∧
    ∀ past s, Session.Reachable past s → s.IsOutside ∧
      ∀ site t s', s.Executes site t s' → s'.binders.frames = [] ∧ s'.binders.calls = [] := by
  refine ⟨balances_evaluate, fun alarm site t s ↦ by rw [evaluateWatched_eq], ?_,
    fun d hd ↦ hd.session, fun past s hs ↦ ⟨hs.isOutside, ?_⟩⟩
  · intro site c args s limit hlimit
    refine ⟨fun h ↦ ⟨rfl, fun room ↦ ?_⟩, fun h ↦ callWithin_room hlimit h site c args⟩
    exact callWithin_of_isFull (Binders.Stack.isFull_of_le hlimit h) site room c args
  · exact fun site t s' h ↦ h.isOutside hs.isOutside

/-- The site of the statement that a run goes on with. -/
def Progress.site? : Progress → Option Site
  | .going r => match r.next? with
    | some (site, some _) => some site
    | _ => none
  | .ended _ => none

theorem Progress.of_site? {progress : Progress} {site : Site} (h : progress.site? = some site) :
    ∃ r t, progress = .going r ∧ r.next? = some (site, some t) := by
  cases progress with
  | ended v => cases h
  | going r =>
    rw [site?] at h
    split at h
    · cases h
      exact ⟨r, _, rfl, ‹_›⟩
    · cases h

/-- Where two calls are allowed, the third call of a function that calls itself fails, and the next
statement of the line starts without frames and calls. -/
theorem evaluation_isBalanced_recursive :
    let s : Session := .start { maxDepth := 2 } {} .unavailable 0
    let c : Closure := .mk 1 (.call "F" [.parameter 0 0] []) [] "F"
    let within : Session := { s with binders := (s.binders.enter c [.null]).enter c [.null] }
    (within.binders.calls = ["F", "F"] ∧ callWithin ⟨typedLine, 0⟩ 5 c [.null] within =
      .error (.fault within.binders.tooDeep) within) ∧
    ∃ t s', s.Executes ⟨typedLine, 1⟩ t s' ∧ s'.binders.frames = [] ∧ s'.binders.calls = [] := by
  intro s c within
  refine ⟨⟨rfl, ?_⟩, ?_⟩
  · exact ((evaluation_isBalanced.2.2.1 ⟨typedLine, 0⟩ c [.null] within 2 rfl).1 (by decide)).2 5
  · have hends : Ends (fun _ ↦ True) (·.site? = some ⟨typedLine, 1⟩) (fun _ ↦ False)
        ((startTyped "F = [X] ~> F(X): F(NOWHERE)" >>= Run.step) s) := by decide +kernel
    obtain ⟨progress, s₁, hsteps, hsite, -⟩ := hends.exists_ok
    obtain ⟨r, s₀, hstart, hstep⟩ := bind_run_eq_ok.1 hsteps
    obtain ⟨r₁, t, rfl, hnext⟩ := Progress.of_site? hsite
    have hruns : Machine.Runs ⟨r, s₀⟩ [⟨r, s₀⟩] ⟨r₁, s₁⟩ := Machine.Steps.runs hstep
    have hexecutes := Session.Executes.typed hstart hruns hnext
    have hreachable := Session.Reachable.start { maxDepth := 2 } {} .unavailable 0
    exact ⟨t, _, hexecutes, (evaluation_isBalanced.2.2.2.2 _ _ hreachable).2 _ _ _ hexecutes⟩

end LineBasic
