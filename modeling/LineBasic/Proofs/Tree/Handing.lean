import LineBasic.Proofs.Tree.Printing
import LineBasic.Proofs.Tree.Spelling

/-!
# Parsing does not cut through brackets

The parser that works by positions does what the parser of items does, and none of its slips ever
happens.  Every run that one of its functions hands to another is balanced, is a part of what that
function was handed, and is shorter than it, or it is the same and the other function stands later.
So the parser comes to its end, in two steps for each token.

* `Positional.Handing.IsProper` — a run that is handed on as it should be.
* `Positional.Follows` — parsing by positions that agrees with parsing of items.
* `follows_expression`, `follows_statement` and those before them — one lemma for each parsing
  function.
* `parseTokens_isProper` — the result.
-/

set_option autoImplicit false
namespace LineBasic
namespace Positional

open Tracked

/-! ## Handings -/

/-- A run that is handed on as it should be. -/
structure Handing.IsProper (h : Handing) : Prop where
  balanced : IsBalanced h.callee.run
  part : h.callee.run <:+: h.caller.run
  descends : h.callee.run.length < h.caller.run.length ∨
    h.callee.run = h.caller.run ∧ h.caller.production.rank < h.callee.production.rank

section
variable {task : Task} {callee : Production} {items : List Item} {run : List Token}

theorem Handing.IsProper.of_lt (h : Item.Spells items run) (hpart : run <:+: task.run)
    (hlt : run.length < task.run.length) : (Handing.mk task ⟨callee, run⟩).IsProper :=
  ⟨h.isBalanced, hpart, .inl hlt⟩

theorem Handing.IsProper.of_rank {caller : Production} {whole : List Token}
    (h : Item.Spells items run) (hpart : run <:+: whole) (hrank : caller.rank < callee.rank) :
    (Handing.mk ⟨caller, whole⟩ ⟨callee, run⟩).IsProper := by
  refine ⟨h.isBalanced, hpart, ?_⟩
  rcases Nat.lt_or_eq_of_le hpart.length_le with hlt | heq
  · exact .inl hlt
  · exact .inr ⟨hpart.eq_of_length heq, hrank⟩

theorem Handing.IsProper.inner {b : Bracket} {inside : List Item}
    (h : Item.Spells [.group b inside] task.run) :
    (Handing.mk task ⟨callee, inner task.run⟩).IsProper :=
  .of_lt h.inner (Item.Spells.inner_infix task.run) h.length_inner_lt

end

/-! ## Agreement -/

/-- The end of parsing that agrees with a result, with the handings that there were. -/
def ending {α : Type} (handings : List Handing) :
    Parse α → EStateM.Result (Slip ⊕ Refusal) (List Handing) α
  | .ok a => .ok a handings
  | .error refusal => .error (.inr refusal) handings

/-- Parsing by positions that ends as parsing of items does, and hands runs on as it should, as a
part of the task. -/
def Follows {α : Type} (task : Task) (m : Tracked α) (x : Parse α) : Prop :=
  ∀ handings, ∃ more, m task handings = ending (more ++ handings) x ∧ ∀ h ∈ more, h.IsProper

namespace Follows

variable {α β : Type} {task : Task} {m : Tracked α} {x : Parse α}

theorem settle (x : Parse α) : Follows task (settle x) x := by
  intro handings
  refine ⟨[], ?_, List.forall_mem_nil _⟩
  cases x <;> rfl

theorem pure (a : α) : Follows task (Pure.pure a) (.ok a) :=
  settle (.ok a)

theorem bind {f : α → Tracked β} {g : α → Parse β} (h : Follows task m x)
    (hf : ∀ a, Follows task (f a) (g a)) : Follows task (m >>= f) (x >>= g) := by
  intro handings
  obtain ⟨more, hm, hmore⟩ := h handings
  cases x with
  | error refusal => exact ⟨more, bind_run_of_error hm, hmore⟩
  | ok a =>
    obtain ⟨rest, hrest, hproper⟩ := hf a (more ++ handings)
    refine ⟨rest ++ more, ?_, List.forall_mem_append.2 ⟨hproper, hmore⟩⟩
    change (m task >>= fun a ↦ f a task) handings = _
    rw [bind_run_of_ok hm, hrest, List.append_assoc]
    rfl

/-- What is read without a slip may be put in its place. -/
theorem read {e : Except Slip β} {b : β} {f : β → Tracked α} (he : e = .ok b)
    (h : Follows task (f b) x) : Follows task (read e >>= f) x := by
  rw [he]
  exact h

theorem hand {callee : Production} {run : List Token} {parse : List Token → Tracked α}
    (hproper : (Handing.mk task ⟨callee, run⟩).IsProper) (h : Follows ⟨callee, run⟩ (parse run) x) :
    Follows task (hand callee parse run) x := by
  intro handings
  obtain ⟨more, hm, hmore⟩ := h (⟨task, ⟨callee, run⟩⟩ :: handings)
  refine ⟨more ++ [⟨task, ⟨callee, run⟩⟩], ?_, ?_⟩
  · rw [List.append_assoc]
    exact hm
  · exact List.forall_mem_append.2 ⟨hmore, List.forall_mem_singleton.2 hproper⟩

theorem orTry {m' : Tracked α} {x' : Unit → Parse α} (h : Follows task m x)
    (h' : Follows task m' (x' ())) : Follows task (orTry m m') (x.orTry x') := by
  intro handings
  obtain ⟨more, hm, hmore⟩ := h handings
  rw [Tracked.orTry, hm]
  cases x with
  | ok a => exact ⟨more, rfl, hmore⟩
  | error refusal =>
    cases refusal with
    | stop stop => exact ⟨more, rfl, hmore⟩
    | mismatch why =>
      obtain ⟨rest, hrest, hproper⟩ := h' (more ++ handings)
      refine ⟨rest ++ more, ?_, List.forall_mem_append.2 ⟨hproper, hmore⟩⟩
      rw [List.append_assoc]
      exact hrest

theorem ite {c : Prop} [Decidable c] {m' : Tracked α} {x' : Parse α} (h : c → Follows task m x)
    (h' : ¬ c → Follows task m' x') : Follows task (if c then m else m') (if c then x else x') := by
  split
  · exact h ‹_›
  · exact h' ‹_›

theorem mapM {γ : Type} {f : β → Tracked α} {g : γ → Parse α} {r : γ → β → Prop} {cs : List γ}
    {bs : List β} (h : List.Forall₂ r cs bs)
    (hf : ∀ c b, b ∈ bs → r c b → Follows task (f b) (g c)) :
    Follows task (bs.mapM f) (cs.mapM g) := by
  induction h with
  | nil => exact pure []
  | cons hcb _ ih =>
    rw [List.mapM_cons, List.mapM_cons]
    refine bind (hf _ _ (List.mem_cons_self ..) hcb) fun a ↦ ?_
    refine bind (ih fun c b hb ↦ hf c b (List.mem_cons_of_mem _ hb)) fun as ↦ pure (a :: as)

end Follows

/-- Parsers that agree with parsing of items on runs of less than a number of tokens. -/
structure Parsers.Serves (isBuiltin : String → Bool) (source : Source) (next : Parsers) (n : Nat) :
    Prop where
  statement : ∀ {items run}, Item.Spells items run → run.length < n →
    Follows ⟨.statement, run⟩ (next.statement run) (parseStatement isBuiltin source items)
  expression : ∀ {items run} (inCondition : Bool), Item.Spells items run → run.length < n →
    Follows ⟨.expression, run⟩ (next.expression inCondition run)
      (parseExpression isBuiltin source inCondition items)

/-! ## Names -/

section
variable {isBuiltin : String → Bool} {source : Source} {next : Parsers} {items : List Item}
  {tokens : List Token}

theorem namesFrom_eq {pieces : List (List Item)} {runs : List (List Token)}
    (h : List.Forall₂ Item.Spells pieces runs) (seen : List String) :
    namesFrom source seen runs = LineBasic.namesFrom source seen pieces := by
  induction h generalizing seen with
  | nil => rfl
  | @cons piece run pieces runs hpiece _ ih =>
    cases hpiece with
    | nil => rfl
    | @token t is ts ht h =>
      cases h with
      | nil =>
        rw [namesFrom, LineBasic.namesFrom, Item.literal?]
        by_cases hcls : (t.cls == .literal) = true
        · simp only [if_pos hcls, ih]
        · simp only [if_neg hcls]
      | token => rfl
      | group => rfl
    | @group b inside is o c inner us ho hc hinside h =>
      cases is with
      | nil => cases inner <;> rfl
      | cons => cases inner <;> rfl

theorem follows_names {task : Task} (h : Item.Spells items tokens) :
    Follows task (names source tokens) (parameterNames source items) := by
  rw [names, parameterNames, h.isEmpty_eq]
  refine .ite (fun _ ↦ .pure []) fun _ ↦ ?_
  obtain ⟨runs, hruns, hpieces, -⟩ := h.separated
  refine .read hruns ?_
  rw [← namesFrom_eq hpieces]
  exact .settle _

theorem follows_tuple {inside : List Item} (h : Item.Spells [.group .square inside] tokens) :
    Follows ⟨.tuple, tokens⟩ (tuple source tokens)
      (do return .params (← parameterNames source inside)) := by
  exact .bind (.hand (.inner h) (follows_names h.inner)) fun names ↦ .pure _

theorem follows_malformed {task : Task} (h : Item.Spells items tokens) :
    Follows task (lambdaNames.malformed source tokens) (Parse.fault source
      { kind := .syntaxError, message := "Malformed lambda parameter list"
        received := some (Item.joined items), expected := some "[X, Y] ~> expression" }) := by
  rw [lambdaNames.malformed, h.joined]
  exact .settle _

/-- Only a single item may be the parameters of a function. -/
theorem lambdaNames_of_not_single (htoken : ¬ ∃ t, items = [.token t])
    (hgroup : ¬ ∃ b inside, items = [.group b inside]) :
    LineBasic.lambdaNames source items = Parse.fault source
      { kind := .syntaxError, message := "Malformed lambda parameter list"
        received := some (Item.joined items), expected := some "[X, Y] ~> expression" } := by
  have hnames : ∀ name, items.mapM Item.literal? ≠ some [name] := by
    intro name hname
    rcases items with - | ⟨i, - | ⟨j, rest⟩⟩
    · cases hname
    · cases i with
      | token t => exact htoken ⟨t, rfl⟩
      | group b inside => exact hgroup ⟨b, inside, rfl⟩
    · -- two items cannot have just one name
      rw [List.mapM_cons, List.mapM_cons] at hname
      obtain ⟨a, -, hname⟩ := Option.bind_eq_some_iff.1 hname
      obtain ⟨as, has, hname⟩ := Option.bind_eq_some_iff.1 hname
      obtain ⟨b, -, has⟩ := Option.bind_eq_some_iff.1 has
      obtain ⟨bs, -, has⟩ := Option.bind_eq_some_iff.1 has
      cases has
      cases hname
  rw [LineBasic.lambdaNames]
  · split
    · exact absurd ‹_› (hnames _)
    · rfl
  · exact fun inside hitems ↦ hgroup ⟨_, inside, hitems⟩
  · exact fun inside hitems ↦ hgroup ⟨_, inside, hitems⟩

theorem follows_lambdaNames_token (t : Token) :
    Follows ⟨.lambdaNames, [t]⟩ (lambdaNames source [t])
      (LineBasic.lambdaNames source [.token t]) := by
  rw [lambdaNames]
  by_cases hcls : (t.cls == .literal) = true
  · have hnames : LineBasic.lambdaNames source [.token t] = .ok [Text.upper t.text] := by
      simp [LineBasic.lambdaNames, Item.literal?, hcls]
    rw [if_pos hcls, hnames]
    exact .pure _
  · have hnames : LineBasic.lambdaNames source [.token t] = Parse.fault source
        { kind := .syntaxError, message := "Malformed lambda parameter list"
          received := some (joinTexts [t]), expected := some "[X, Y] ~> expression" } := by
      simp [LineBasic.lambdaNames, Item.literal?, hcls, Item.joined, joinTexts, Item.textsOfRun,
        Item.texts]
    rw [if_neg hcls, hnames]
    exact .settle _

theorem follows_lambdaNames (h : Item.Spells items tokens) :
    Follows ⟨.lambdaNames, tokens⟩ (lambdaNames source tokens)
      (LineBasic.lambdaNames source items) := by
  by_cases htoken : ∃ t, items = [.token t]
  · obtain ⟨t, rfl⟩ := htoken
    obtain ⟨us, rfl, -, hus⟩ := h.of_token
    obtain rfl := hus.of_nil
    exact follows_lambdaNames_token t
  have hwrapped : lambdaNames source tokens =
      if Item.isGroup .square items || Item.isGroup .round items then
        hand .names (names source) (inner tokens)
      else lambdaNames.malformed source tokens := by
    rw [lambdaNames]
    · rw [h.isWrapped, h.isWrapped]
      rfl
    · rintro t rfl
      exact htoken ⟨t, h.of_singleton⟩
  rw [hwrapped]
  by_cases hgroup : ∃ b inside, items = [.group b inside]
  · obtain ⟨b, inside, rfl⟩ := hgroup
    cases b with
    | round => exact .hand (.inner h) (follows_names h.inner)
    | square => exact .hand (.inner h) (follows_names h.inner)
    | curly => exact follows_malformed h
  · have hnot (b : Bracket) : ¬ Item.isGroup b items = true := fun hb ↦
      hgroup ⟨b, Item.isGroup_iff.1 hb⟩
    rw [if_neg (by simp [hnot]), lambdaNames_of_not_single htoken hgroup]
    exact follows_malformed h

/-! ## Arguments -/

variable {n : Nat}

/-- The pieces of a run that a function was handed, or of a part of it. -/
theorem follows_pieces (hnext : next.Serves isBuiltin source n) {task : Task}
    {runs : List (List Token)}
    (hruns : List.Forall₂ Item.Spells (LineBasic.separated items).1 runs)
    (hpart : ∀ run ∈ runs, run <:+: tokens) (hwhole : tokens <:+: task.run)
    (hdescends : tokens.length < task.run.length ∨
      task.production.rank < Production.expression.rank)
    (hlt : tokens.length < n) :
    Follows task (runs.mapM (hand .expression (next.expression false)))
      (parsePieces isBuiltin source items) := by
  rw [parsePieces_eq]
  refine .mapM hruns fun piece run hrun hpiece ↦ ?_
  have hle := (hpart run hrun).length_le
  refine .hand ?_ (hnext.expression false hpiece (Nat.lt_of_le_of_lt hle hlt))
  rcases hdescends with hshort | hrank
  · exact .of_lt hpiece ((hpart run hrun).trans hwhole) (Nat.lt_of_le_of_lt hle hshort)
  · exact .of_rank hpiece ((hpart run hrun).trans hwhole) hrank

theorem map_isEmpty_eq {pieces : List (List Item)} {runs : List (List Token)}
    (h : List.Forall₂ Item.Spells pieces runs) :
    runs.map List.isEmpty = pieces.map List.isEmpty := by
  induction h with
  | nil => rfl
  | cons hpiece _ ih => rw [List.map_cons, List.map_cons, hpiece.isEmpty_eq, ih]

theorem follows_arguments (hnext : next.Serves isBuiltin source n) (h : Item.Spells items tokens)
    (hlt : tokens.length < n) :
    Follows ⟨.arguments, tokens⟩ (arguments next tokens)
      (parseArguments isBuiltin source items) := by
  rw [arguments, parseArguments, h.isEmpty_eq]
  refine .ite (fun _ ↦ .pure _) fun _ ↦ ?_
  obtain ⟨runs, hruns, hpieces, hpart⟩ := h.separated
  refine .read hruns (.bind ?_ fun args ↦ .pure _)
  have hrank : Production.arguments.rank < Production.expression.rank := by decide
  exact follows_pieces hnext hpieces hpart (List.infix_refl _) (.inr hrank) hlt

/-! ## Forms of statements -/

/-- What starts with an equals sign is a token, since no bracket does. -/
theorem exists_token_of_headText {i : Item} (h : i.headText = "=") : ∃ t, i = .token t := by
  cases i with
  | token t => exact ⟨t, rfl⟩
  | group b inside => cases b <;> simp [Item.headText, Bracket.opening] at h

/-- A name with round brackets behind it. -/
theorem exists_named_group {rest : List Item} {a b : Token} {us : List Token}
    (h : Item.Spells rest (a :: b :: us)) (hab : (a.cls == .literal && b.opens .round) = true) :
    ∃ inside more, rest = .token a :: .group .round inside :: more := by
  rw [Bool.and_eq_true, beq_iff_eq] at hab
  obtain ⟨js, rfl, hjs⟩ := h.of_cons_token (by rw [hab.1]; decide)
  obtain ⟨inside, more, rfl⟩ := hjs.of_cons_opens hab.2
  exact ⟨inside, more, rfl⟩

/-- A run does not start as a definition does, if its items do not. -/
theorem startsDefinition_eq_false {rest : List Item} {us : List Token} (h : Item.Spells rest us)
    (hform : ¬ ∃ name inside more, rest = .token name :: .group .round inside :: more) (d : Token) :
    startsDefinition (d :: us) = .ok false := by
  rw [startsDefinition]
  rcases us with - | ⟨a, - | ⟨b, us⟩⟩
  · rfl
  · rfl
  · split
    · rfl
    · change Except.ok (a.cls == .literal && b.opens .round) = _
      refine congrArg _ (eq_false_of_ne_true fun hab ↦ hform ?_)
      obtain ⟨inside, more, heq⟩ := exists_named_group h hab
      exact ⟨a, inside, more, heq⟩

/-- A run that starts as a definition does is one if it has a name and is long enough. -/
theorem startsDefinition_eq {d name o c : Token} {inside more : List Item}
    {within vs : List Token} (ho : o.opens .round = true) (hinside : Item.Spells inside within)
    (h : Item.Spells more vs) : startsDefinition (d :: name :: o :: (within ++ c :: vs)) =
      .ok !(name.cls != .literal || (inside.isEmpty && more.isEmpty)) := by
  rw [startsDefinition, ← hinside.isEmpty_eq, ← h.isEmpty_eq]
  -- four tokens are there anyway, so the run is too short just if there is nothing else
  split
  · rename_i hshort
    obtain rfl : within = [] := List.eq_nil_of_length_eq_zero (by simp at hshort; omega)
    obtain rfl : vs = [] := List.eq_nil_of_length_eq_zero (by simp at hshort; omega)
    simp
    rfl
  · rename_i hlong
    have hnot : (within.isEmpty && vs.isEmpty) = false := by
      rcases within with - | ⟨w, within⟩
      · rcases vs with - | ⟨v, vs⟩
        · simp at hlong
        · rfl
      · rfl
    change Except.ok (name.cls == .literal && o.opens .round) = _
    rw [hnot, ho, Bool.and_true, Bool.or_false]
    simp [bne]

theorem follows_define (hnext : next.Serves isBuiltin source n) {head : Item} {rest : List Item}
    (h : Item.Spells (head :: rest) tokens) (hlt : tokens.length ≤ n) :
    Follows ⟨.define, tokens⟩ (define source next tokens)
      (parseDefine isBuiltin source (head :: rest)) := by
  obtain ⟨t, us, rfl, -, hword, -⟩ := h.of_cons
  rw [parseDefine.eq_def]
  refine .read (tokenAt_of_eq [] rfl rfl) ?_
  simp only [hword]
  refine .ite (fun _ ↦ .settle _) fun hdefun ↦ ?_
  cases head with
  | group b inside => cases hdefun rfl
  | token d =>
  obtain ⟨us', heq, hd, hrest⟩ := h.of_token
  cases heq
  -- both parsers look for a name and round brackets, and the tokens are then known up to the end
  by_cases hform : ∃ name inside more, rest = .token name :: .group .round inside :: more
  · obtain ⟨name, inside, more, rfl⟩ := hform
    obtain ⟨us, rfl, hname, hus⟩ := hrest.of_token
    obtain ⟨o, c, within, vs, rfl, ho, hc, hinside, hvs⟩ := hus.of_group
    refine .read (startsDefinition_eq ho hinside hvs) ?_
    rw [Bool.not_not]
    refine .ite (fun _ ↦ .settle _) fun _ ↦ ?_
    refine .read (hinside.matchingClose ho hc [t, name] rfl rfl) ?_
    cases more with
    | nil =>
      obtain rfl := hvs.of_nil
      rw [if_pos (by simp; omega)]
      exact .settle _
    | cons equals body =>
      obtain ⟨e, ws, rfl, htext, -⟩ := hvs.of_cons
      have hwhole : t :: name :: o :: (within ++ c :: e :: ws) =
          (t :: name :: o :: (within ++ [c])) ++ e :: ws := by simp
      have hlength : (t :: name :: o :: (within ++ [c])).length = 2 + 1 + within.length + 1 := by
        simp
        omega
      rw [if_neg (by simp; omega)]
      refine .read (tokenAt_of_eq _ hwhole hlength.symm) ?_
      simp only [htext]
      refine .ite (fun _ ↦ .settle _) fun hequals ↦ ?_
      obtain ⟨e', rfl⟩ := exists_token_of_headText (by simpa using hequals)
      obtain ⟨ws', heq, -, hws⟩ := hvs.of_token
      cases heq
      have hdrop : (t :: name :: o :: (within ++ c :: e :: ws)).drop (2 + 1 + within.length + 2) =
          ws := drop_of_eq ((t :: name :: o :: (within ++ [c])) ++ [e]) (by simp) (by simp; omega)
      have hslice : slice (t :: name :: o :: (within ++ c :: e :: ws)) 3 (2 + 1 + within.length) =
          within := slice_of_eq [t, name, o] rfl rfl rfl
      rw [hdrop, hslice, hws.isEmpty_eq]
      refine .ite (fun _ ↦ .settle _) fun _ ↦ ?_
      refine .read (tokenAt_of_eq [t] rfl rfl) ?_
      have hbody : ws.length < (t :: name :: o :: (within ++ c :: e :: ws)).length := by
        simp
        omega
      refine .bind (.hand (.of_lt hinside ?_ ?_) (follows_names hinside)) fun names ↦ ?_
      · exact ⟨[t, name, o], c :: e :: ws, by simp⟩
      · simp
        omega
      refine .bind (.hand (.of_lt hws ?_ hbody) ?_) fun body ↦ .pure _
      · exact ⟨(t :: name :: o :: (within ++ [c])) ++ [e], [], by simp⟩
      · exact hnext.expression false hws (Nat.lt_of_lt_of_le hbody hlt)
  · refine .read (startsDefinition_eq_false hrest hform t) ?_
    rw [if_pos Bool.not_false]
    split
    · exact absurd ⟨_, _, _, rfl⟩ hform
    · exact .settle _

/-- A run is no declaration, if its items do not start like one. -/
theorem isDeclaration_eq_false {rest : List Item} {us : List Token} (h : Item.Spells rest us)
    (hform : ¬ ∃ name inside more, rest = .token name :: .group .round inside :: more) (d : Token) :
    isDeclaration (d :: us) = .ok false := by
  rw [isDeclaration]
  change (if !d.isWord "DIM" then _ else _) = _
  split
  · rfl
  rcases us with - | ⟨a, - | ⟨b, us⟩⟩
  · rfl
  · rfl
  · split
    · rfl
    · change (if !(a.cls == .literal && b.opens .round) then _ else _) = _
      split
      · rfl
      · rename_i hab
        obtain ⟨inside, more, heq⟩ := exists_named_group h (by simpa using hab)
        exact absurd ⟨a, inside, more, heq⟩ hform

/-- A run that starts like a declaration is one if nothing is left behind it. -/
theorem isDeclaration_eq {d name o c : Token} {inside more : List Item} {within vs : List Token}
    (ho : o.opens .round = true) (hc : c.closes .round = true)
    (hinside : Item.Spells inside within) (h : Item.Spells more vs) :
    isDeclaration (d :: name :: o :: (within ++ c :: vs)) =
      .ok (d.isWord "DIM" && name.cls == .literal && more.isEmpty) := by
  rw [isDeclaration]
  change (if !d.isWord "DIM" then _ else _) = _
  cases d.isWord "DIM" with
  | false => rfl
  | true =>
    have hlong : ¬ (d :: name :: o :: (within ++ c :: vs)).length < 4 := by simp; omega
    rw [if_neg (by decide), if_neg hlong]
    change (if !(name.cls == .literal && o.opens .round) then _ else _) = _
    rw [ho, Bool.and_true, Bool.true_and]
    cases name.cls == .literal with
    | false => rfl
    | true =>
      have hclose : matchingClose (d :: name :: o :: (within ++ c :: vs)) 2 = _ :=
        hinside.matchingClose ho hc [d, name] rfl rfl
      rw [hclose, ← h.isEmpty_eq]
      change Except.ok (2 + 1 + within.length == _) = _
      cases vs with
      | nil => simp; omega
      | cons v vs => simp; omega

theorem follows_dim (hnext : next.Serves isBuiltin source n) {head : Item} {rest : List Item}
    (h : Item.Spells (head :: rest) tokens) (hlt : tokens.length ≤ n) :
    Follows ⟨.dim, tokens⟩ (dim source next tokens) (parseDim isBuiltin source (head :: rest)) := by
  obtain ⟨t, us, rfl, -, hword, -⟩ := h.of_cons
  have hmismatch : isDeclaration (t :: us) = .ok false →
      Follows ⟨.dim, t :: us⟩ (dim source next (t :: us))
        (Parse.mismatch "not a DIM declaration") := by
    intro hnot
    refine .read hnot ?_
    rw [if_pos Bool.not_false]
    exact .settle _
  rw [parseDim.eq_def]
  by_cases hdim : head.isWord "DIM" = true
  · cases head with
    | group b inside => cases hdim
    | token d =>
    obtain ⟨us', heq, -, hrest⟩ := h.of_token
    cases heq
    split
    · rename_i name inside hitems
      cases hitems
      obtain ⟨vs, rfl, -, hvs⟩ := hrest.of_token
      obtain ⟨o, c, within, ws, rfl, ho, hc, hinside, hws⟩ := hvs.of_group
      obtain rfl := hws.of_nil
      refine .read (isDeclaration_eq ho hc hinside .nil) ?_
      rw [hword, List.isEmpty_nil, Bool.and_true]
      by_cases hname : (Item.isWord "DIM" (.token t) && name.cls == .literal) = true
      · have hslice : slice (t :: name :: o :: (within ++ [c])) 3
            ((t :: name :: o :: (within ++ [c])).length - 1) = within :=
          slice_of_eq [t, name, o] rfl rfl (by simp; omega)
        have hshort : within.length < (t :: name :: o :: (within ++ [c])).length := by
          simp
          omega
        rw [if_neg (by simpa using hname), if_pos hname, hslice]
        refine .bind (.hand (.of_lt hinside ⟨[t, name, o], [c], rfl⟩ hshort)
          (follows_arguments hnext hinside (Nat.lt_of_lt_of_le hshort hlt))) fun args ↦ ?_
        refine .ite (fun _ ↦ .settle _) fun _ ↦ ?_
        exact .read (tokenAt_of_eq [t] rfl rfl) (.pure _)
      · rw [if_pos (by rw [eq_false_of_ne_true hname]; rfl), if_neg hname]
        exact .settle _
    · rename_i hitems
      refine hmismatch ?_
      by_cases hform : ∃ name inside more, rest = .token name :: .group .round inside :: more
      · obtain ⟨name, inside, more, rfl⟩ := hform
        obtain ⟨vs, rfl, -, hvs⟩ := hrest.of_token
        obtain ⟨o, c, within, ws, rfl, ho, hc, hinside, hws⟩ := hvs.of_group
        have hmore : more.isEmpty = false := by
          cases more with
          | nil => exact (hitems _ _ _ rfl).elim
          | cons => rfl
        rw [isDeclaration_eq ho hc hinside hws, hmore, Bool.and_false]
      · exact isDeclaration_eq_false hrest hform t
  · have hnot : isDeclaration (t :: us) = .ok false := by
      rw [isDeclaration]
      change (if !t.isWord "DIM" then _ else _) = _
      rw [hword, if_pos (by simpa using hdim)]
      rfl
    split
    · rename_i hitems
      cases hitems
      rw [if_neg (by simp [hdim])]
      exact hmismatch hnot
    · exact hmismatch hnot

/-! ## Jumps and conditionals -/

/-- The tokens outside of brackets behind the first one. -/
theorem outside_rest {t : Token} {rest : List Item} (h : Item.Spells (.token t :: rest) tokens) :
    ∃ sites, outside tokens = .ok sites ∧ sites.filter (·.1 != 0) = tops 1 rest :=
  ⟨_, h.outside, by rw [tops, List.filter_cons_of_neg (by simp), filter_tops Nat.one_pos]⟩

theorem follows_select (hnext : next.Serves isBuiltin source n) {head : Item} {rest : List Item}
    (h : Item.Spells (head :: rest) tokens) (hlt : tokens.length ≤ n) :
    Follows ⟨.select, tokens⟩ (select source next tokens)
      (parseSelect isBuiltin source (head :: rest)) := by
  obtain ⟨t, us, rfl, -, hword, -⟩ := h.of_cons
  rw [parseSelect.eq_def]
  refine .read (tokenAt_of_eq [] rfl rfl) ?_
  simp only [hword]
  refine .ite (fun _ ↦ .settle _) fun hon ↦ ?_
  cases head with
  | group b inside => cases hon rfl
  | token d =>
  obtain ⟨us', heq, -, hrest⟩ := h.of_token
  cases heq
  obtain ⟨sites, hsites, hfilter⟩ := outside_rest h
  refine .read hsites ?_
  rw [hfilter]
  obtain ⟨hcut, hfirst⟩ | ⟨before, u, after, vs, ws, hcut, hat, hfirst⟩ :=
    hrest.first?_cases (fun i ↦ i.isWord "GOTO" || i.isWord "GOSUB")
      (fun t ↦ t.isWord "GOTO" || t.isWord "GOSUB") (fun _ ↦ rfl) (fun _ _ ↦ rfl) 1
  · rw [hcut, hfirst]
    exact .settle _
  rw [hcut, hfirst]
  obtain ⟨rfl, hbefore, hafter⟩ := hat
  have hslice : slice (t :: (vs ++ u :: ws)) 1 (1 + vs.length) = vs := slice_of_eq [t] rfl rfl rfl
  have hdrop : (t :: (vs ++ u :: ws)).drop (1 + vs.length + 1) = ws :=
    drop_of_eq (t :: (vs ++ [u])) (by simp) (by simp; omega)
  simp only [hslice, hdrop]
  have hbeforeShort : vs.length < (t :: (vs ++ u :: ws)).length := by simp
  have hafterShort : ws.length < (t :: (vs ++ u :: ws)).length := by simp; omega
  refine .bind (.hand (.of_lt hbefore ⟨[t], u :: ws, rfl⟩ hbeforeShort)
    (hnext.expression false hbefore (Nat.lt_of_lt_of_le hbeforeShort hlt))) fun test ↦ ?_
  obtain ⟨runs, hruns, hpieces, hpart⟩ := hafter.separated
  refine .read hruns ?_
  have hempty : runs.all List.isEmpty = (LineBasic.separated after).1.all List.isEmpty := by
    have := congrArg (List.all · id) (map_isEmpty_eq hpieces)
    simpa using this
  rw [hempty]
  refine .ite (fun _ ↦ .settle _) fun _ ↦ ?_
  refine .bind (follows_pieces hnext hpieces hpart ?_ (.inl hafterShort)
    (Nat.lt_of_lt_of_le hafterShort hlt)) fun targets ↦ .pure _
  exact ⟨t :: (vs ++ [u]), [], by simp⟩

theorem follows_arm (hnext : next.Serves isBuiltin source n) (asStatement : Bool) {task : Task}
    (h : Item.Spells items tokens) (hpart : tokens <:+: task.run)
    (hshort : tokens.length < task.run.length) (hlt : task.run.length ≤ n) :
    Follows task (arm next asStatement tokens) (parseArm isBuiltin source asStatement items) := by
  have hlt := Nat.lt_of_lt_of_le hshort hlt
  rw [arm, parseArm]
  refine .ite (fun _ ↦ ?_) fun _ ↦ .hand (.of_lt h hpart hshort) (hnext.expression false h hlt)
  exact .bind (.hand (.of_lt h hpart hshort) (hnext.statement h hlt)) fun tree ↦ .pure _

theorem follows_branch (hnext : next.Serves isBuiltin source n) (asStatement : Bool) {head : Item}
    {rest : List Item} (h : Item.Spells (head :: rest) tokens) (hlt : tokens.length ≤ n) :
    Follows ⟨.branch, tokens⟩ (branch source next asStatement tokens)
      (parseBranch isBuiltin source asStatement (head :: rest)) := by
  obtain ⟨t, us, rfl, -, hword, -⟩ := h.of_cons
  rw [parseBranch.eq_def]
  refine .read (tokenAt_of_eq [] rfl rfl) ?_
  simp only [hword]
  refine .ite (fun _ ↦ .settle _) fun hif ↦ ?_
  cases head with
  | group b inside => cases hif rfl
  | token d =>
  obtain ⟨us', heq, -, hrest⟩ := h.of_token
  cases heq
  obtain ⟨sites, hsites, hfilter⟩ := outside_rest h
  refine .read hsites ?_
  rw [hfilter]
  obtain ⟨hcut, hfirst⟩ | ⟨before, u, after, vs, ws, hcut, hat, hfirst⟩ :=
    hrest.first?_cases (fun i ↦ i.isWord "THEN") (fun t ↦ t.isWord "THEN") (fun _ ↦ rfl)
      (fun _ _ ↦ rfl) 1
  · rw [hcut, hfirst]
    exact .settle _
  rw [hcut, hfirst]
  obtain ⟨rfl, hbefore, hafter⟩ := hat
  have hslice : slice (t :: (vs ++ u :: ws)) 1 (1 + vs.length) = vs := slice_of_eq [t] rfl rfl rfl
  simp only [hslice]
  have hbeforeShort : vs.length < (t :: (vs ++ u :: ws)).length := by simp
  refine .bind (.hand (.of_lt hbefore ⟨[t], u :: ws, rfl⟩ hbeforeShort)
    (hnext.expression true hbefore (Nat.lt_of_lt_of_le hbeforeShort hlt))) fun condition ↦ ?_
  refine .ite (fun _ ↦ .settle _) fun _ ↦ ?_
  obtain ⟨hcut, helse⟩ | ⟨yes, e, no, ys, ns, hcut, hat, helse⟩ :=
    hafter.else?_cases 0 (1 + vs.length + 1)
  · rw [hcut, helse]
    have hdrop : (t :: (vs ++ u :: ws)).drop (1 + vs.length + 1) = ws :=
      drop_of_eq (t :: (vs ++ [u])) (by simp) (by simp; omega)
    simp only [hdrop]
    refine .bind (follows_arm hnext asStatement hafter ?_ ?_ hlt) fun yes ↦ .pure _
    · exact ⟨t :: (vs ++ [u]), [], by simp⟩
    · simp
      omega
  · rw [hcut, helse]
    obtain ⟨rfl, hyes, hno⟩ := hat
    have hwhole : t :: (vs ++ u :: (ys ++ e :: ns)) = t :: (vs ++ [u]) ++ (ys ++ e :: ns) := by
      simp
    have hslice : slice (t :: (vs ++ u :: (ys ++ e :: ns))) (1 + vs.length + 1)
        (1 + vs.length + 1 + ys.length) = ys :=
      slice_of_eq (t :: (vs ++ [u])) hwhole (by simp; omega) (by simp; omega)
    have hdrop : (t :: (vs ++ u :: (ys ++ e :: ns))).drop (1 + vs.length + 1 + ys.length + 1) =
        ns := drop_of_eq (t :: (vs ++ u :: (ys ++ [e]))) (by simp) (by simp; omega)
    simp only [hslice, hdrop]
    refine .bind (follows_arm hnext asStatement hyes ?_ ?_ hlt) fun yes ↦
      .bind (follows_arm hnext asStatement hno ?_ ?_ hlt) fun no ↦ .pure _
    · exact ⟨t :: (vs ++ [u]), e :: ns, by simp⟩
    · simp
      omega
    · exact ⟨t :: (vs ++ u :: (ys ++ [e])), [], by simp⟩
    · simp
      omega

/-! ## Arrays and calls -/

theorem follows_array (hnext : next.Serves isBuiltin source n) {inside : List Item}
    (h : Item.Spells [.group .curly inside] tokens) (hlt : tokens.length ≤ n) :
    Follows ⟨.array, tokens⟩ (array source next tokens) (parseArray isBuiltin source inside) := by
  rw [array, parseArray, h.inner.isEmpty_eq]
  refine .ite (fun _ ↦ .pure _) fun _ ↦ ?_
  obtain ⟨runs, hruns, hpieces, hpart⟩ := h.inner.separated
  refine .read hruns ?_
  have hempty : runs.any List.isEmpty = (LineBasic.separated inside).1.any List.isEmpty := by
    have := congrArg (List.any · id) (map_isEmpty_eq hpieces)
    simpa using this
  simp only [hempty]
  refine .ite (fun _ ↦ .settle _) fun _ ↦ ?_
  exact .bind (follows_pieces hnext hpieces hpart (Item.Spells.inner_infix tokens)
    (.inl h.length_inner_lt) (Nat.lt_of_lt_of_le h.length_inner_lt hlt)) fun elements ↦ .pure _

/-- By induction on the steps.  The argument lists that were read are `done`. -/
theorem follows_chainFrom (hnext : next.Serves isBuiltin source n) {steps : Nat} (callee : Callee)
    (done : List Token) {rest : List Token} (h : Item.Spells items rest) (hitems : items ≠ [])
    (hlt : (done ++ rest).length ≤ n) (hsteps : rest.length < steps) :
    Follows ⟨.chain, done ++ rest⟩ (chainFrom next (done ++ rest) steps callee done.length)
      (parseChain isBuiltin source callee items) := by
  induction steps generalizing items callee done rest with
  | zero => exact absurd hsteps (Nat.not_lt_zero _)
  | succ steps ih =>
    obtain ⟨i, is, rfl⟩ := List.exists_cons_of_ne_nil hitems
    obtain ⟨t, us, rfl, -⟩ := h.of_cons
    rw [chainFrom, if_pos (by simp)]
    refine .read (tokenAt_of_eq done rfl rfl) ?_
    have hopens : t.opens .round = LineBasic.opensRound (i :: is) := h.opensRound
    by_cases hround : ∃ inside, i = .group .round inside
    · obtain ⟨inside, rfl⟩ := hround
      obtain ⟨o, c, within, vs, heq, ho, hc, hinside, hvs⟩ := h.of_group
      cases heq
      rw [ho, if_neg (by decide), parseChain]
      refine .read (hinside.matchingClose ho hc done rfl rfl) ?_
      have hwhole : done ++ t :: (within ++ c :: vs) = done ++ [t] ++ (within ++ c :: vs) := by
        simp
      have hslice : slice (done ++ t :: (within ++ c :: vs)) (done.length + 1)
          (done.length + 1 + within.length) = within :=
        slice_of_eq (done ++ [t]) hwhole (by simp) (by simp)
      have hshort : within.length < (done ++ t :: (within ++ c :: vs)).length := by
        simp
        omega
      rw [hslice]
      refine .bind (.hand (.of_lt hinside ?_ hshort)
        (follows_arguments hnext hinside (Nat.lt_of_lt_of_le hshort hlt))) fun args ↦ ?_
      · exact ⟨done ++ [t], c :: vs, by simp⟩
      have hread : done ++ t :: (within ++ c :: vs) = (done ++ t :: (within ++ [c])) ++ vs := by
        simp
      have hlength : done.length + 1 + within.length + 1 =
          (done ++ t :: (within ++ [c])).length := by
        simp
        omega
      rw [hread] at hlt ⊢
      simp only [hlength]
      by_cases his : is = []
      · -- the step that is left finds the end, and there is a call by now
        obtain rfl := his
        obtain rfl := hvs.of_nil
        obtain ⟨steps, rfl⟩ : ∃ m, steps = m + 1 := ⟨steps - 1, by simp at hsteps; omega⟩
        rw [chainFrom, if_neg (by simp), if_pos List.isEmpty_nil]
        exact .pure _
      · rw [if_neg (by simpa using his)]
        refine ih (.tree (callee.call args.1 args.2)) _ hvs his hlt ?_
        simp at hsteps
        omega
    · have hmismatch : parseChain isBuiltin source callee (i :: is) =
          Parse.mismatch "unexpected tokens after argument list" := by
        rw [parseChain]
        exact fun inside _ hi ↦ hround ⟨inside, (List.cons.inj hi).1⟩
      have hnot : t.opens .round = false := by
        rw [hopens, ← Bool.not_eq_true, opensRound_cons_iff]
        exact hround
      rw [hnot, if_pos Bool.not_false, hmismatch]
      exact .settle _

theorem follows_chain (hnext : next.Serves isBuiltin source n) (callee : Callee)
    (h : Item.Spells items tokens) (hitems : items ≠ []) (hlt : tokens.length ≤ n) :
    Follows ⟨.chain, tokens⟩ (chain next callee tokens)
      (parseChain isBuiltin source callee items) :=
  follows_chainFrom hnext callee [] h hitems hlt (Nat.lt_succ_self _)

theorem follows_call (hnext : next.Serves isBuiltin source n) {head : Item} {rest : List Item}
    (h : Item.Spells (head :: rest) tokens) (hlt : tokens.length ≤ n) :
    Follows ⟨.call, tokens⟩ (call next tokens) (parseCall isBuiltin source (head :: rest)) := by
  obtain ⟨t, us, rfl, htext, -, hliteral⟩ := h.of_cons
  refine .read (tokenAt_of_eq [] rfl rfl) ?_
  by_cases hround : ∃ inside, head = .group .round inside
  · obtain ⟨inside, rfl⟩ := hround
    obtain ⟨o, c, within, vs, heq, ho, hc, hinside, hvs⟩ := h.of_group
    cases heq
    rw [parseCall, if_pos ho]
    refine .read (hinside.matchingClose ho hc [] rfl rfl) ?_
    have hslice : slice (t :: (within ++ c :: vs)) 1 (0 + 1 + within.length) = within :=
      slice_of_eq [t] rfl rfl (by simp)
    have hdrop : (t :: (within ++ c :: vs)).drop (0 + 1 + within.length + 1) = vs :=
      drop_of_eq (t :: (within ++ [c])) (by simp) (by simp; omega)
    have hinsideShort : within.length < (t :: (within ++ c :: vs)).length := by simp
    have hrestShort : vs.length < (t :: (within ++ c :: vs)).length := by simp; omega
    simp only [hslice, hdrop]
    refine .bind (.hand (.of_lt hinside ⟨[t], c :: vs, rfl⟩ hinsideShort)
      (hnext.expression false hinside (Nat.lt_of_lt_of_le hinsideShort hlt))) fun callee ↦ ?_
    rw [hvs.opensRound]
    refine .ite (fun hopens ↦ ?_) fun _ ↦ .settle _
    refine .hand (.of_lt hvs ⟨t :: (within ++ [c]), [], by simp⟩ hrestShort) ?_
    refine follows_chain hnext _ hvs ?_ (Nat.le_of_lt (Nat.lt_of_lt_of_le hrestShort hlt))
    rintro rfl
    cases hopens
  · have hopens : t.opens .round = false := by
      have : t.opens .round = LineBasic.opensRound (head :: rest) := h.opensRound
      rw [this, ← Bool.not_eq_true, opensRound_cons_iff]
      exact hround
    rw [hopens, if_neg Bool.false_ne_true, parseCall]
    · by_cases hcls : (t.cls == .literal) = true
      · rw [if_pos hcls] at hliteral
        rw [if_neg (by simpa [bne] using hcls), ← hliteral]
        obtain ⟨js, heq, hrest⟩ := h.of_cons_token (by rw [beq_iff_eq.1 hcls]; decide)
        cases heq
        have hshort : us.length < (t :: us).length := Nat.lt_succ_self _
        have hlt := Nat.lt_of_lt_of_le hshort hlt
        have hpart : us <:+: t :: us := (List.suffix_cons t us).isInfix
        change Follows ⟨.call, t :: us⟩ (if us.isEmpty then _ else if opensRound us then _ else _)
          (if LineBasic.opensRound rest then _ else _)
        rw [hrest.isEmpty_eq, hrest.opensRound]
        have hplain : Follows ⟨.call, t :: us⟩ (call.plain next (Text.upper t.text) us)
            (parseArguments isBuiltin source rest >>= fun args ↦
              .ok (.call (Text.upper t.text) args.1 args.2)) :=
          .bind (.hand (.of_lt hrest hpart hshort) (follows_arguments hnext hrest hlt))
            fun args ↦ .pure _
        by_cases hempty : rest = []
        · subst hempty
          rw [parseArguments]
          exact .pure _
        · rw [if_neg (by simpa using hempty)]
          refine .ite (fun _ ↦ ?_) fun _ ↦ hplain
          exact .orTry (.hand (.of_lt hrest hpart hshort)
            (follows_chain hnext _ hrest hempty (Nat.le_of_lt hlt))) hplain
      · rw [if_neg hcls] at hliteral
        rw [if_pos (by simpa [bne] using hcls), ← hliteral, htext]
        exact .settle _
    · exact fun inside heq ↦ hround ⟨inside, heq⟩

/-! ## Expressions -/

/-- A run that is a pair of brackets is parsed by what the brackets are. -/
theorem follows_expression_group (hnext : next.Serves isBuiltin source n) (inCondition : Bool)
    {b : Bracket} {inside : List Item} (h : Item.Spells [.group b inside] tokens)
    (hlt : tokens.length ≤ n) :
    Follows ⟨.expression, tokens⟩ (expression isBuiltin source next inCondition tokens)
      (parseExpression isBuiltin source inCondition [.group b inside]) := by
  have hwrapped (b' : Bracket) : isWrapped b' tokens = .ok (b == b') := h.isWrapped b'
  have hinfix : tokens <:+: tokens := List.infix_refl tokens
  obtain ⟨o, c, within, us, rfl, -⟩ := h.of_group
  have hlong : (within ++ c :: us).isEmpty = false := by cases within <;> rfl
  rw [expression, hlong, Bool.false_and, if_neg Bool.false_ne_true]
  refine .read (hwrapped .square) ?_
  cases b with
  | square =>
    rw [parseExpression, if_pos (by decide)]
    exact .hand (.of_rank h hinfix (by decide)) (follows_tuple h)
  | curly =>
    rw [parseExpression, if_neg (by decide)]
    refine .read (hwrapped .curly) ?_
    rw [if_pos (by decide)]
    exact .hand (.of_rank h hinfix (by decide)) (follows_array hnext h hlt)
  | round =>
    rw [parseExpression, if_neg (by decide)]
    refine .read (hwrapped .curly) ?_
    rw [if_neg (by decide)]
    refine .read (hwrapped .round) ?_
    rw [if_pos (by decide)]
    exact .hand (.inner h)
      (hnext.expression false h.inner (Nat.lt_of_lt_of_le h.length_inner_lt hlt))

theorem follows_split (hnext : next.Serves isBuiltin source n) (inCondition : Bool)
    (h : Item.Spells items tokens) (hlt : tokens.length ≤ n) {k : Nat} {op : Operator}
    (htop : LineBasic.topOperator? items = some (k, op)) :
    Follows ⟨.split, tokens⟩
      (split source next inCondition (Item.sizeOfRun (items.take k)) op tokens)
      (parseSplit isBuiltin source inCondition items k op) := by
  obtain ⟨t, hitems⟩ := exists_token_of_topOperator? htop
  have h' := h
  rw [hitems] at h'
  obtain ⟨us, vs, rfl, hleft, hvs⟩ := h'.of_append
  obtain ⟨ws, rfl, -, hright⟩ := hvs.of_token
  have hsize : Item.sizeOfRun (items.take k) = us.length := hleft.length_eq.symm
  have hzero : us.length = 0 ↔ k = 0 := by
    have hne : items ≠ [] := List.ne_nil_of_length_pos (Nat.zero_lt_of_lt (topOperator?_lt htop))
    rw [List.length_eq_zero_iff, ← List.isEmpty_iff, hleft.isEmpty_eq, List.isEmpty_iff,
      List.take_eq_nil_iff, or_iff_left hne]
  have htake : (us ++ t :: ws).take us.length = us := List.take_left
  have hdrop : (us ++ t :: ws).drop (us.length + 1) = ws :=
    drop_of_eq (us ++ [t]) (by simp) (by simp)
  have hleftShort : us.length < (us ++ t :: ws).length := by simp
  have hrightShort : ws.length < (us ++ t :: ws).length := by simp; omega
  have hleftPart : us <:+: us ++ t :: ws := (List.prefix_append us _).isInfix
  have hrightPart : ws <:+: us ++ t :: ws := ⟨us ++ [t], [], by simp⟩
  have hleftFollows := hnext.expression false hleft (Nat.lt_of_lt_of_le hleftShort hlt)
  have hrightFollows := hnext.expression false hright (Nat.lt_of_lt_of_le hrightShort hlt)
  have hlast (f : Tree → Tree) : Follows ⟨.split, us ++ t :: ws⟩
      (do return f (← hand .expression (next.expression false) ws))
      (do return f (← parseExpression isBuiltin source false (items.drop (k + 1)))) :=
    .bind (.hand (.of_lt hright hrightPart hrightShort) hrightFollows) fun tree ↦ .pure _
  rw [split, parseSplit, hsize]
  simp only [htake, hdrop, hright.isEmpty_eq, hzero]
  refine .ite (fun _ ↦ .settle _) fun _ ↦ .ite (fun _ ↦ ?_) fun _ ↦ .ite (fun _ ↦ .settle _)
    fun _ ↦ .ite (fun _ ↦ ?_) fun _ ↦ ?_
  · cases UnaryOperator.ofOperator? op with
    | none => exact .settle _
    | some unary => exact .ite (fun _ ↦ .settle _) fun _ ↦ hlast (.unary unary)
  · exact .bind (.hand (.of_lt hleft hleftPart hleftShort) (follows_lambdaNames hleft))
      fun names ↦ hlast (.lambda names)
  · exact .bind (.hand (.of_lt hleft hleftPart hleftShort) hleftFollows)
      fun left ↦ hlast (.binary op left)

/-- There is a second token in a run that starts with the name of a builtin, since a single token is
parsed by itself unless it is a reserved word, and no builtin has such a name. -/
theorem startsBare_eq (hreserved : ∀ word, isReservedWord word = true → isBuiltin word = false)
    {head : Item} {rest : List Item} (h : Item.Spells (head :: rest) tokens)
    (hrest : rest = [] → head.isReserved = true) :
    startsBare isBuiltin tokens =
      .ok (head.literal?.any isBuiltin && !LineBasic.opensRound rest) := by
  obtain ⟨t, us, rfl, -, -, hliteral⟩ := h.of_cons
  rw [startsBare, ← hliteral]
  change (if t.cls == .literal && isBuiltin (Text.upper t.text) then _ else _) = _
  cases hcls : t.cls == .literal with
  | false => rfl
  | true =>
    rw [Bool.true_and, if_pos rfl, Option.any_some]
    cases hname : isBuiltin (Text.upper t.text) with
    | false => rfl
    | true =>
      obtain ⟨js, heq, hjs⟩ := h.of_cons_token (by rw [beq_iff_eq.1 hcls]; decide)
      cases heq
      cases us with
      | nil =>
        cases h.of_singleton
        have hword := hrest rfl
        rw [Item.isReserved, ← hliteral, if_pos hcls, Option.any_some] at hword
        rw [hreserved _ hword] at hname
        cases hname
      | cons u us =>
        rw [← hjs.opensRound]
        rfl

theorem follows_expression (hreserved : ∀ word, isReservedWord word = true → isBuiltin word = false)
    (hnext : next.Serves isBuiltin source n) (inCondition : Bool)
    (h : Item.Spells items tokens) (hlt : tokens.length ≤ n) :
    Follows ⟨.expression, tokens⟩ (expression isBuiltin source next inCondition tokens)
      (parseExpression isBuiltin source inCondition items) := by
  cases items with
  | nil =>
    obtain rfl := h.of_nil
    rw [parseExpression]
    exact .pure _
  | cons head rest =>
    have hinfix : tokens <:+: tokens := List.infix_refl tokens
    obtain ⟨t, us, rfl, -, hword, hliteral⟩ := h.of_cons
    have hreserves : t.isReserved = head.isReserved := by
      rw [Item.isReserved, ← hliteral, Token.isReserved]
      cases t.cls == .literal <;> rfl
    -- a single item is parsed by what it is, unless it is a reserved word
    by_cases hgroup : rest = [] → head.isReserved = true
    · have hempty : (us.isEmpty && !t.isReserved) = false := by
        cases us with
        | nil =>
          cases h.of_singleton
          rw [hreserves, hgroup rfl]
          rfl
        | cons => rfl
      have hwrapped (b : Bracket) : isWrapped b (t :: us) = .ok false := by
        rw [h.isWrapped, Except.ok.injEq, ← Bool.not_eq_true, Item.isGroup_iff]
        rintro ⟨inside, heq⟩
        cases heq
        cases hgroup rfl
      rw [parseExpression_eq inCondition hgroup, expression, hempty, if_neg Bool.false_ne_true]
      refine .read (hwrapped .square) ?_
      rw [if_neg Bool.false_ne_true]
      refine .read (hwrapped .curly) ?_
      rw [if_neg Bool.false_ne_true]
      refine .read (hwrapped .round) ?_
      rw [if_neg Bool.false_ne_true, hword]
      refine .ite (fun _ ↦ .hand (.of_rank h hinfix (by decide)) (follows_branch hnext false h hlt))
        fun _ ↦ ?_
      refine .read (startsBare_eq hreserved h hgroup) ?_
      refine .ite (fun _ ↦ .hand (.of_rank h hinfix (by decide)) (follows_call hnext h hlt))
        fun _ ↦ ?_
      refine .read h.topOperator? ?_
      cases htop : LineBasic.topOperator? (head :: rest) with
      | none => exact .hand (.of_rank h hinfix (by decide)) (follows_call hnext h hlt)
      | some site =>
        exact .hand (.of_rank h hinfix (by decide)) (follows_split hnext inCondition h hlt htop)
    · obtain ⟨rfl, hhead⟩ := Classical.not_imp.1 hgroup
      cases head with
      | group b inside => exact follows_expression_group hnext inCondition h hlt
      | token u =>
        obtain ⟨us', heq, -, hus⟩ := h.of_token
        cases heq
        obtain rfl := hus.of_nil
        rw [Bool.not_eq_true] at hhead
        rw [expression, hreserves, hhead, parseExpression_token source hhead]
        exact .settle _

/-! ## Statements -/

theorem follows_statement (hnext : next.Serves isBuiltin source n) (h : Item.Spells items tokens)
    (hlt : tokens.length ≤ n)
    (hexpression : Follows ⟨.expression, tokens⟩ (next.expression false tokens)
      (parseExpression isBuiltin source false items)) :
    Follows ⟨.statement, tokens⟩ (statement source next tokens)
      (parseStatement isBuiltin source items) := by
  have hinfix : tokens <:+: tokens := List.infix_refl tokens
  have hsome {callee : Production} {parse : List Token → Tracked Tree} {x : Parse Tree}
      (hrank : Production.statement.rank < callee.rank)
      (hx : Follows ⟨callee, tokens⟩ (parse tokens) x) :
      Follows ⟨.statement, tokens⟩ (do return some (← hand callee parse tokens))
        (do return some (← x)) :=
    .bind (.hand (.of_rank h hinfix hrank) hx) fun tree ↦ .pure _
  rw [parseStatement.eq_def]
  split
  · obtain rfl := h.of_nil
    exact .pure _
  · obtain ⟨us, rfl, -, hus⟩ := h.of_token
    obtain rfl := hus.of_nil
    exact .bind (.settle _) fun tree ↦ .pure _
  · rename_i head rest hsingle
    obtain ⟨t, us, rfl, -, hword, -⟩ := h.of_cons
    rw [statement]
    · rw [hword]
      refine .ite (fun _ ↦ .pure _) fun _ ↦ ?_
      refine .orTry (hsome (by decide) (follows_branch hnext true h hlt)) ?_
      refine .orTry (hsome (by decide) (follows_define hnext h hlt)) ?_
      refine .orTry (hsome (by decide) (follows_dim hnext h hlt)) ?_
      refine .orTry (hsome (by decide) (follows_select hnext h hlt)) ?_
      refine .read (h.isWrapped .round) ?_
      by_cases hgroup : ∃ inside, head :: rest = [.group .round inside]
      · obtain ⟨inside, heq⟩ := hgroup
        cases heq
        exact .hand (.inner h) (hnext.statement h.inner (Nat.lt_of_lt_of_le h.length_inner_lt hlt))
      · rw [if_neg (mt Item.isGroup_iff.1 hgroup)]
        split
        · exact absurd ⟨_, eq_of_wrapped? ‹_›⟩ hgroup
        · exact hsome (by decide) hexpression
    · rintro rfl
      obtain ⟨rfl, rfl⟩ := List.cons.inj h.of_singleton
      exact hsingle t rfl rfl

/-! ## The parser -/

/-- By induction on the steps.  A statement that is an expression takes one more step for the same
run, and so two steps are for each token. -/
theorem follows_parsers (hreserved : ∀ word, isReservedWord word = true → isBuiltin word = false)
    (steps : Nat) :
    (∀ {items tokens} (inCondition : Bool), Item.Spells items tokens → 2 * tokens.length < steps →
      Follows ⟨.expression, tokens⟩ ((parsers isBuiltin source steps).expression inCondition tokens)
        (parseExpression isBuiltin source inCondition items)) ∧
    ∀ {items tokens}, Item.Spells items tokens → 2 * tokens.length + 1 < steps →
      Follows ⟨.statement, tokens⟩ ((parsers isBuiltin source steps).statement tokens)
        (parseStatement isBuiltin source items) := by
  induction steps with
  | zero => exact ⟨fun _ _ h ↦ absurd h (Nat.not_lt_zero _), fun _ h ↦ absurd h (Nat.not_lt_zero _)⟩
  | succ steps ih =>
    obtain ⟨hexpression, hstatement⟩ := ih
    have hserves {n : Nat} (hn : 2 * n ≤ steps) :
        (parsers isBuiltin source steps).Serves isBuiltin source n :=
      ⟨fun h hlt ↦ hstatement h (by omega), fun b h hlt ↦ hexpression b h (by omega)⟩
    refine ⟨fun b h hlt ↦ ?_, fun h hlt ↦ ?_⟩
    · exact follows_expression hreserved (hserves (Nat.le_of_lt_succ hlt)) b h (Nat.le_refl _)
    · refine follows_statement (hserves ?_) h (Nat.le_refl _) (hexpression false h ?_)
      · exact Nat.le_of_lt (Nat.lt_of_succ_lt_succ hlt)
      · exact Nat.lt_of_succ_lt_succ hlt

/-- A statement that is left over without a form becomes a fault in both parsers. -/
theorem follows_topStatement
    (hreserved : ∀ word, isReservedWord word = true → isBuiltin word = false) {steps : Nat}
    (h : Item.Spells items tokens) (hlt : 2 * tokens.length + 1 < steps) :
    Follows ⟨.topStatement, tokens⟩ (topStatement isBuiltin source steps tokens)
      ((parseTopStatement isBuiltin source items).mapError .stop) := by
  rw [topStatement, parseTopStatement, h.isEmpty_eq, h.joined]
  by_cases hempty : items.isEmpty = true
  · rw [if_pos hempty, if_pos hempty]
    exact .settle _
  · rw [if_neg hempty, if_neg hempty]
    have hfollows : Follows ⟨.topStatement, tokens⟩
        (hand .statement (parsers isBuiltin source steps).statement tokens)
        (parseStatement isBuiltin source items) :=
      .hand (.of_rank h (List.infix_refl _) (by decide)) ((follows_parsers hreserved steps).2 h hlt)
    intro handings
    obtain ⟨more, hrun, hproper⟩ := hfollows handings
    refine ⟨more, ?_, hproper⟩
    rw [orStop, hrun]
    rcases parseStatement isBuiltin source items with (why | stop) | tree <;> rfl

end

/-- A line is parsed by positions as its items are parsed. -/
theorem follows_statements {isBuiltin : String → Bool}
    (hreserved : ∀ word, isReservedWord word = true → isBuiltin word = false) (line : Option Int)
    {tokens : List Token} {steps : Nat} (hsteps : 2 * tokens.length + 1 < steps) :
    Follows ⟨.line, tokens⟩ (statements isBuiltin line steps tokens)
      ((LineBasic.parseTokens isBuiltin line tokens).mapError .stop) := by
  rw [statements, LineBasic.parseTokens]
  by_cases hremark : tokens.head?.all (·.isWord "REM") = true
  · rw [if_pos hremark, if_pos hremark]
    exact .pure []
  rw [if_neg hremark, if_neg hremark]
  obtain ⟨b, hunmatched, hgather⟩ | ⟨items, hunmatched, hgather, hitems⟩ :=
    Item.gatherFrom_eq ⟨line, joinTexts tokens⟩ [] tokens .nil .nil
  · rw [List.map_nil] at hunmatched
    simp only [hunmatched, Item.gather, hgather]
    exact .settle _
  · rw [List.map_nil] at hunmatched
    simp only [hunmatched, Item.gather, hgather]
    change Item.Spells items tokens at hitems
    obtain ⟨runs, cuts, hruns, hpieces, -, hpart⟩ := hitems.cutAt .sequence
    refine .read hruns ?_
    change Follows _ _ (Except.mapError _ (List.mapM _ _))
    rw [mapError_mapM]
    refine .mapM hpieces fun piece run hrun hpiece ↦ ?_
    have hle := (hpart run hrun).length_le
    exact .hand (.of_rank hpiece (hpart run hrun) (by decide))
      (follows_topStatement hreserved hpiece (by omega))

theorem isName_of_isReservedWord {word : String} (h : isReservedWord word = true) :
    Builtin.isName word = false := by
  rw [isReservedWord, List.contains_iff_mem] at h
  fin_cases h <;> decide

/-- The parser comes to its end without a slip, and with the result of the parser of items.  All
that it hands on is balanced, so that it may be counted and searched, and it gets shorter, or it
goes to a later function. -/
theorem parseTokens_isProper :
    (∀ word, isReservedWord word = true → Builtin.isName word = false) ∧
    (∀ run, IsBalanced run → IsSearchable run) ∧
    ∀ isBuiltin : String → Bool,
      (∀ word, isReservedWord word = true → isBuiltin word = false) →
      ∀ (line : Option Int) (tokens : List Token) (steps : Nat), 2 * tokens.length + 1 < steps →
        ∃ handings, parseTokens isBuiltin line steps tokens =
            ending handings ((LineBasic.parseTokens isBuiltin line tokens).mapError .stop) ∧
          ∀ h ∈ handings, h.IsProper := by
  refine ⟨fun word ↦ isName_of_isReservedWord, fun run ↦ IsBalanced.isSearchable, ?_⟩
  intro isBuiltin hreserved line tokens steps hsteps
  obtain ⟨handings, heq, hproper⟩ := follows_statements hreserved line hsteps []
  rw [List.append_nil] at heq
  exact ⟨handings, heq, hproper⟩

/-- A call of a function with an argument. -/
def callTokens : List Token :=
  [⟨"F", .literal, 0⟩, ⟨"(", .paren, 1⟩, ⟨"A", .literal, 2⟩, ⟨")", .paren, 3⟩]

theorem parseTokens_isProper_call :
    (isReservedWord "IF" = true ∧ Builtin.isName "IF" = false) ∧
    (IsBalanced callTokens ∧ IsSearchable callTokens) ∧
    ∃ handings, parseTokens Builtin.isName (some 10) 10 callTokens =
        ending handings
          ((LineBasic.parseTokens Builtin.isName (some 10) callTokens).mapError .stop) ∧
      ∀ h ∈ handings, h.IsProper := by
  obtain ⟨hreserved, hsearchable, hparse⟩ := parseTokens_isProper
  have hword : isReservedWord "IF" = true := by decide
  have hbalanced : IsBalanced callTokens := by rfl
  exact ⟨⟨hword, hreserved "IF" hword⟩, ⟨hbalanced, hsearchable callTokens hbalanced⟩,
    hparse Builtin.isName hreserved (some 10) callTokens 10 (by decide)⟩

/-- What is handed on in a call, from the line to the argument. -/
example : (match parseTokens (fun _ ↦ false) (some 10) 10 callTokens with
    | .ok _ handings => handings.reverse.map fun h ↦ (h.callee.production, h.callee.run.length)
    | .error _ _ => []) =
    [(.topStatement, 4), (.statement, 4), (.branch, 4), (.define, 4), (.dim, 4), (.select, 4),
      (.expression, 4), (.call, 4), (.chain, 3), (.arguments, 1), (.expression, 1)] := by
  decide

end Positional
end LineBasic
