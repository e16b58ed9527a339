import LineBasic.Proofs.Run.LoopStatements
import LineBasic.Proofs.Tree.Grouping
import LineBasic.Proofs.Tree.Printing

/-!
# Calls without brackets

A builtin may be called without brackets around its arguments: `PRINT X + 1` is `PRINT(X + 1)`.
What follows the name is then a single argument, however its operators bind.  When a round bracket
follows the name, it is taken for the beginning of an argument list instead, and an operator after
it belongs to the expression around the call: `PRINT (X) + 1` adds to the result of `PRINT(X)`.

* `parseCall_bare` — what follows the name, read as a single argument.
* `topOperator?_cons` — a name before an expression leaves the operator that it is split at.
* `IsBareArgument` — the runs that are a single argument when they follow a name.
* `parseExpression_bare_iff` — these are so, and no other ones.
-/

set_option autoImplicit false
namespace LineBasic

/-! ## The operator of a longer run -/

theorem operatorSites_succ (k : Nat) (ready : Bool) (items : List Item) :
    operatorSites (k + 1) ready items =
      (operatorSites k ready items).map fun site ↦ (site.1 + 1, site.2) := by
  induction items generalizing k ready with
  | nil => rfl
  | cons i is ih =>
    rw [operatorSites, operatorSites, ih]
    cases (if ready = true then i.operator? else none) <;> rfl

theorem looser_succ (best site : Nat × Operator) :
    looser (best.1 + 1, best.2) (site.1 + 1, site.2) =
      ((looser best site).1 + 1, (looser best site).2) := by
  unfold looser
  split <;> rfl

theorem loosest?_succ (sites : List (Nat × Operator)) :
    loosest? (sites.map fun site ↦ (site.1 + 1, site.2)) =
      (loosest? sites).map fun site ↦ (site.1 + 1, site.2) := by
  cases sites with
  | nil => rfl
  | cons site sites =>
    rw [List.map_cons, loosest?, loosest?, Option.map_some, Option.some.injEq]
    induction sites generalizing site with
    | nil => rfl
    | cons next sites ih => rw [List.map_cons, List.foldl_cons, List.foldl_cons, looser_succ, ih]

/-- A first item that ends an operand leaves the operator that a run is split at. -/
theorem topOperator?_cons {i : Item} (hop : i.operator? = none) (hends : i.endsOperand = true)
    (items : List Item) :
    topOperator? (i :: items) = (topOperator? items).map fun site ↦ (site.1 + 1, site.2) := by
  rw [topOperator?, operatorSites, if_pos rfl, hop, hends]
  rw [operatorSites_succ, loosest?_succ, topOperator?]

/-! ## A single argument -/

section
variable {isBuiltin : String → Bool} {source : Source}

/-- A run without separators is one piece. -/
theorem parsePieces_of_unseparated {items : List Item}
    (h : ∀ i ∈ items, i.isClass .separator = false) :
    parsePieces isBuiltin source items =
      (do return [← parseExpression isBuiltin source false items]) := by
  rw [parsePieces_eq, separated, Item.cutAt_piece h]
  rw [List.mapM_cons, List.mapM_nil]
  rfl

/-- A run is cut at all items that the test accepts. -/
theorem Item.cutAt_cuts (cut : Item → Bool) (items : List Item) :
    (Item.cutAt cut items).2 = items.filter cut := by
  induction items with
  | nil => rfl
  | cons i is ih =>
    rcases hc : Item.cutAt cut is with ⟨pieces, cuts⟩
    rw [hc] at ih
    simp only [Item.cutAt, hc]
    cases hi : cut i with
    | true => rw [if_pos rfl, List.filter_cons_of_pos hi, ← ih]
    | false =>
      rw [if_neg Bool.false_ne_true, List.filter_cons_of_neg (by simp [hi]), ← ih]
      cases pieces <;> rfl

theorem separated_eq_nil_iff {items : List Item} :
    (separated items).2 = [] ↔ ∀ i ∈ items, i.isClass .separator = false := by
  change List.map _ (Item.cutAt _ items).2 = [] ↔ _
  rw [Item.cutAt_cuts, List.map_eq_nil_iff, List.filter_eq_nil_iff]
  simp only [Bool.not_eq_true]

/-- The arguments of a run without separators: just one. -/
theorem parseArguments_of_unseparated {items : List Item} (hne : items ≠ [])
    (h : ∀ i ∈ items, i.isClass .separator = false) {t : Tree}
    (ht : parseExpression isBuiltin source false items = .ok t) :
    parseArguments isBuiltin source items = .ok ([t], []) := by
  rw [parseArguments, if_neg (by simpa using hne), parsePieces_of_unseparated h, ht,
    separated_eq_nil_iff.2 h]
  rfl

/-- A run with just one argument has no separators. -/
theorem of_parseArguments_singleton {items : List Item} {t : Tree}
    (h : parseArguments isBuiltin source items = .ok ([t], [])) :
    items ≠ [] ∧ ∀ i ∈ items, i.isClass .separator = false := by
  rw [parseArguments] at h
  split at h
  · cases h
  rename_i hne
  obtain ⟨ts, -, h⟩ := bind_eq_ok.1 h
  have hseparators : (separated items).2 = [] := congrArg Prod.snd (pure_eq_ok.1 h)
  exact ⟨by simpa using hne, separated_eq_nil_iff.1 hseparators⟩

/-- A name that no bracket follows is called with what follows it. -/
theorem parseCall_bare {b : Token} (hcls : b.cls = .literal) {e : List Item} {t : Tree}
    (hne : e ≠ []) (hunseparated : ∀ i ∈ e, i.isClass .separator = false)
    (ht : parseExpression isBuiltin source false e = .ok t) (hopens : opensRound e = false) :
    parseCall isBuiltin source (.token b :: e) = .ok (.call (Text.upper b.text) [t] []) := by
  have hname : (Item.token b).literal? = some (Text.upper b.text) := by simp [Item.literal?, hcls]
  rw [parseCall.eq_3 _ _ _ _ fun _ heq ↦ by cases heq]
  simp only [hname, hopens, parseArguments_of_unseparated hne hunseparated ht]
  rfl

/-! ## Brackets after the name -/

/-- What is applied to argument lists is never a call by name, and what precedes the lists does not
matter for whether they can be parsed. -/
theorem parseChain_tree {callee : Tree} {items : List Item} {t : Tree}
    (h : parseChain isBuiltin source (.tree callee) items = .ok t) (callee' : Tree) :
    ∃ f args separators,
      parseChain isBuiltin source (.tree callee') items = .ok (.apply f args separators) := by
  induction items generalizing callee callee' t with
  | nil =>
    rw [parseChain] at h
    · cases h
    · exact fun _ _ hnil ↦ List.cons_ne_nil _ _ hnil.symm
  | cons i is ih =>
    by_cases hround : ∃ inside, i = .group .round inside
    · obtain ⟨inside, rfl⟩ := hround
      rw [parseChain] at h
      obtain ⟨⟨args, separators⟩, hargs, h⟩ := bind_eq_ok.1 h
      have hcall : ∀ c, Callee.call (.tree c) args separators = .apply c args separators :=
        fun _ ↦ rfl
      rw [parseChain, hargs]
      simp only [hcall] at h ⊢
      cases is with
      | nil => exact ⟨callee', args, separators, rfl⟩
      | cons j js =>
        rw [if_neg (by simp)] at h
        obtain ⟨f, args', separators', h'⟩ := ih h (.apply callee' args separators)
        exact ⟨f, args', separators', by rw [← h']; rfl⟩
    · rw [parseChain] at h
      · cases h
      · exact fun inside _ heq ↦ hround ⟨inside, (List.cons.inj heq).1⟩

/-! ## The run after the name -/

/-- A run is parsed as a call if it starts with the name of a builtin and no bracket follows, or if
it has no operator to be split at. -/
theorem parseExpression_eq_parseCall {head : Item} {rest : List Item} (hrest : rest ≠ [])
    (hword : head.isWord "IF" = false)
    (h : head.literal?.any isBuiltin = true ∧ opensRound rest = false ∨
      topOperator? (head :: rest) = none) (inCondition : Bool) :
    parseExpression isBuiltin source inCondition (head :: rest) =
      parseCall isBuiltin source (head :: rest) := by
  rw [parseExpression.eq_def]
  simp only
  split
  · exact absurd rfl hrest
  · exact absurd rfl hrest
  · exact absurd rfl hrest
  split
  · rename_i heq
    simp [hrest] at heq
  rw [if_neg (by simp [hword])]
  split
  · rfl
  rename_i hbare
  split
  · rfl
  · rename_i heq
    rcases h with ⟨hname, hopens⟩ | htop
    · exact absurd (by rw [hname, hopens]; rfl) hbare
    · rw [htop] at heq
      cases heq

/-- A run that is split at an operator between operands is no call. -/
theorem ne_call_of_split {head : Item} {rest : List Item} (hrest : rest ≠ [])
    (hword : head.isWord "IF" = false) (hopens : opensRound rest = true) {k : Nat} {op : Operator}
    (htop : topOperator? (head :: rest) = some (k, op)) (hk : k ≠ 0) {inCondition : Bool}
    {name : String} {args : List Tree} {separators : List Separator} :
    parseExpression isBuiltin source inCondition (head :: rest) ≠
      .ok (.call name args separators) := by
  intro h
  rw [parseExpression.eq_def] at h
  simp only at h
  split at h
  · exact absurd rfl hrest
  · exact absurd rfl hrest
  · exact absurd rfl hrest
  split at h
  · rename_i heq
    simp [hrest] at heq
  rw [if_neg (by simp [hword]), if_neg (by simp [hopens])] at h
  split at h
  · rename_i heq
    rw [htop] at heq
    cases heq
  rename_i heq
  rw [htop] at heq
  cases heq
  split at h
  · cases h
  split at h
  · cases h
  split at h
  · obtain ⟨names, -, h⟩ := bind_eq_ok.1 h
    obtain ⟨body, -, h⟩ := bind_eq_ok.1 h
    cases h
  · obtain ⟨left, -, h⟩ := bind_eq_ok.1 h
    obtain ⟨right, -, h⟩ := bind_eq_ok.1 h
    cases h

end

/-- The runs that are a single argument of a name before them: those that start with no round
bracket, a pair of brackets around a run that would be one argument by itself, and runs without
operators whose first pair of brackets is refused as a list of arguments. -/
inductive IsBareArgument (isBuiltin : String → Bool) (source : Source) : List Item → Prop
  | unbracketed {e : List Item} (hopens : opensRound e = false) :
      IsBareArgument isBuiltin source e
  | bracketed {inside : List Item} (hne : inside ≠ [])
      (hunseparated : ∀ i ∈ inside, i.isClass .separator = false) :
      IsBareArgument isBuiltin source [.group .round inside]
  | refused {inside rest : List Item} {why : String}
      (htop : topOperator? (.group .round inside :: rest) = none)
      (hinside : parseArguments isBuiltin source inside = .error (.mismatch why)) :
      IsBareArgument isBuiltin source (.group .round inside :: rest)

section
variable {isBuiltin : String → Bool} {source : Source} {b : Token} {e : List Item} {t : Tree}

theorem isBareArgument_bracketed_iff {inside rest : List Item} :
    IsBareArgument isBuiltin source (.group .round inside :: rest) ↔
      (rest = [] ∧ inside ≠ [] ∧ ∀ i ∈ inside, i.isClass .separator = false) ∨
      topOperator? (.group .round inside :: rest) = none ∧
        ∃ why, parseArguments isBuiltin source inside = .error (.mismatch why) := by
  constructor
  · intro h
    cases h with
    | unbracketed hopens => cases hopens
    | bracketed hne hunseparated => exact .inl ⟨rfl, hne, hunseparated⟩
    | refused htop hinside => exact .inr ⟨htop, _, hinside⟩
  · rintro (⟨rfl, hne, hunseparated⟩ | ⟨htop, why, hinside⟩)
    · exact .bracketed hne hunseparated
    · exact .refused htop hinside

/-- A name with brackets after it takes them for its arguments, or, where they are none, for the
beginning of a single argument. -/
theorem parseCall_bracketed (hcls : b.cls = .literal) (inside rest : List Item) :
    parseCall isBuiltin source (.token b :: .group .round inside :: rest) =
      Parse.orTry
        (parseChain isBuiltin source (.named (Text.upper b.text)) (.group .round inside :: rest))
        fun _ ↦ do
          let (args, separators) ← parseArguments isBuiltin source (.group .round inside :: rest)
          return .call (Text.upper b.text) args separators := by
  have hname : (Item.token b).literal? = some (Text.upper b.text) := by simp [Item.literal?, hcls]
  rw [parseCall.eq_3 _ _ _ _ fun _ heq ↦ by cases heq]
  simp only [hname, opensRound, if_true]

/-- Brackets in front of a run that is parsed as an expression hold a callee if anything follows
them, and what follows can then be applied to anything else. -/
theorem exists_parseChain_of_callee {inside rest : List Item} (hrest : rest ≠ [])
    (htop : topOperator? (.group .round inside :: rest) = none)
    (ht : parseExpression isBuiltin source false (.group .round inside :: rest) = .ok t)
    (callee : Tree) :
    ∃ f args separators,
      parseChain isBuiltin source (.tree callee) rest = .ok (.apply f args separators) := by
  rw [parseExpression_eq_parseCall hrest rfl (.inr htop), parseCall] at ht
  obtain ⟨callee', -, ht⟩ := bind_eq_ok.1 ht
  split at ht
  · exact parseChain_tree ht callee
  · cases ht

/-- The call of a name that brackets follow, where what follows is an expression that is not split
at an operator. -/
theorem parseCall_bracketed_iff (hcls : b.cls = .literal) {inside rest : List Item}
    (htop : topOperator? (.group .round inside :: rest) = none)
    (hunseparated : ∀ i ∈ Item.group .round inside :: rest, i.isClass .separator = false)
    (ht : parseExpression isBuiltin source false (.group .round inside :: rest) = .ok t) :
    parseCall isBuiltin source (.token b :: .group .round inside :: rest) =
        .ok (.call (Text.upper b.text) [t] []) ↔
      IsBareArgument isBuiltin source (.group .round inside :: rest) := by
  rw [parseCall_bracketed hcls, parseChain, isBareArgument_bracketed_iff]
  cases hargs : parseArguments isBuiltin source inside with
  | error refusal =>
    cases refusal with
    | mismatch why =>
      refine iff_of_true ?_ (.inr ⟨htop, why, rfl⟩)
      rw [parseArguments_of_unseparated (List.cons_ne_nil _ _) hunseparated ht]
      rfl
    | stop stop =>
      refine iff_of_false nofun ?_
      rintro (⟨rfl, hne, hinside⟩ | ⟨-, why, hwhy⟩)
      · rw [parseExpression] at ht
        rw [parseArguments_of_unseparated hne hinside ht] at hargs
        cases hargs
      · cases hwhy
  | ok result =>
    obtain ⟨args, separators⟩ := result
    by_cases hrest : rest = []
    · subst hrest
      rw [parseExpression] at ht
      constructor
      · intro h
        obtain ⟨rfl, rfl⟩ : args = [t] ∧ separators = [] := by
          cases h
          exact ⟨rfl, rfl⟩
        exact .inl ⟨rfl, of_parseArguments_singleton hargs⟩
      · rintro (⟨-, hne, hinside⟩ | ⟨-, why, hwhy⟩)
        · rw [parseArguments_of_unseparated hne hinside ht] at hargs
          cases hargs
          rfl
        · cases hwhy
    · -- The brackets are the arguments of the name, and the result is applied to what follows.
      obtain ⟨f, args', separators', hchain⟩ := exists_parseChain_of_callee hrest htop ht
        (.call (Text.upper b.text) args separators)
      refine iff_of_false ?_ ?_
      · change Parse.orTry (if rest.isEmpty = true then _ else
          parseChain isBuiltin source (.tree (.call (Text.upper b.text) args separators)) rest) _ ≠ _
        rw [if_neg (by simpa using hrest), hchain]
        nofun
      · rintro (⟨rfl, -⟩ | ⟨-, why, hwhy⟩)
        · exact hrest rfl
        · cases hwhy

end

/-! ## Calls of builtins -/

/-- No builtin has the name of a conditional. -/
theorem Builtin.isWord_of_isName {b : Token} (h : Builtin.isName (Text.upper b.text) = true) :
    (Item.token b).isWord "IF" = false := by
  have hif : Builtin.isName "IF" = false := by decide +kernel
  rw [Item.isWord, Token.isWord]
  by_cases htext : Text.upper b.text = "IF"
  · rw [htext, hif] at h
    cases h
  · simp [htext]

/-- Printing a single value: its text, and the end of the line unless the value is nothing. -/
theorem eval_print (enter : Closure → List Value → Action Value) (site : Site) (t : Tree) :
    eval enter site (.call "PRINT" [t] []) = (do
      let v ← (← eval enter site t).resolve
      return .value (← Builtin.printOf false [] [v])) := by
  have hprint : Builtin.ofName? "PRINT" = some .print := by decide +kernel
  funext s
  rw [eval, hprint]
  simp only
  rw [callBuiltin_eq (checkEnabled_eq_ok rfl rfl)]
  simp only [evalAll, bind_assoc, pure_bind]
  refine bind_run_congr rfl fun x s₁ _ ↦ ?_
  change (Operand.resolveAll [x] >>= fun vs ↦ _) s₁ = _
  rw [Operand.resolveAll, List.mapM_cons, List.mapM_nil]
  simp only [bind_assoc, pure_bind]
  rfl

/-- The call of a builtin with the run as its single argument. -/
theorem parseExpression_bare_eq_call_iff {b : Token} (hcls : b.cls = .literal)
    (hname : Builtin.isName (Text.upper b.text) = true) {source : Source} {e : List Item}
    (hne : e ≠ []) (hunseparated : ∀ i ∈ e, i.isClass .separator = false) {t : Tree}
    (ht : parseExpression Builtin.isName source false e = .ok t) (inCondition : Bool) :
    parseExpression Builtin.isName source inCondition (.token b :: e) =
        .ok (.call (Text.upper b.text) [t] []) ↔
      IsBareArgument Builtin.isName source e := by
  have hword := Builtin.isWord_of_isName hname
  have hliteral : (Item.token b).literal? = some (Text.upper b.text) := by
    simp [Item.literal?, hcls]
  cases hopens : opensRound e with
  | false =>
    rw [parseExpression_eq_parseCall hne hword
      (.inl ⟨by simpa only [hliteral, Option.any_some] using hname, hopens⟩)]
    exact iff_of_true (parseCall_bare hcls hne hunseparated ht hopens) (.unbracketed hopens)
  | true =>
    obtain ⟨inside, rest, rfl⟩ : ∃ inside rest, e = .group .round inside :: rest := by
      unfold opensRound at hopens
      split at hopens
      · exact ⟨_, _, rfl⟩
      · cases hopens
    have htop := topOperator?_cons (i := .token b) (by simp [Item.operator?, hcls])
      (by simp [Item.endsOperand, hcls]) (.group .round inside :: rest)
    cases htop' : topOperator? (.group .round inside :: rest) with
    | none =>
      rw [htop', Option.map_none] at htop
      rw [parseExpression_eq_parseCall hne hword (.inr htop)]
      exact parseCall_bracketed_iff hcls htop' hunseparated ht
    | some site =>
      rw [htop', Option.map_some] at htop
      refine iff_of_false (ne_call_of_split hne hword hopens htop (Nat.succ_ne_zero _)) ?_
      rw [isBareArgument_bracketed_iff]
      rintro (⟨rfl, -⟩ | ⟨hnone, -⟩)
      · cases htop'
      · rw [htop'] at hnone
        cases hnone

/-- A run that is an expression by itself is the single argument of the name of a builtin before it
exactly if it starts with no round bracket, is nothing but such an argument in brackets, or starts
with brackets that are refused as arguments.  Such a run is printed by a print statement without
brackets. -/
theorem parseExpression_bare_iff {b : Token} (hcls : b.cls = .literal)
    (hname : Builtin.isName (Text.upper b.text) = true) {source : Source} {e : List Item}
    (hne : e ≠ []) (hunseparated : ∀ i ∈ e, i.isClass .separator = false) {t : Tree}
    (ht : parseExpression Builtin.isName source false e = .ok t) (inCondition : Bool) :
    (parseExpression Builtin.isName source inCondition (.token b :: e) =
        .ok (.call (Text.upper b.text) [t] []) ↔ IsBareArgument Builtin.isName source e) ∧
    (Text.upper b.text = "PRINT" → IsBareArgument Builtin.isName source e →
      ∃ u, parseExpression Builtin.isName source inCondition (.token b :: e) = .ok u ∧
        ∀ enter site, eval enter site u.resolve = (do
          let v ← (← eval enter site t.resolve).resolve
          return .value (← Builtin.printOf false [] [v]))) := by
  have hcall := parseExpression_bare_eq_call_iff hcls hname hne hunseparated ht inCondition
  refine ⟨hcall, fun hprint hbare ↦ ?_⟩
  refine ⟨_, hcall.2 hbare, fun enter site ↦ ?_⟩
  rw [hprint]
  exact eval_print enter site t.resolve

section
variable (source : Source)

theorem parseExpression_name {t : Token} (hcls : t.cls = .literal)
    (hreserved : isReservedWord (Text.upper t.text) = false) :
    parseExpression Builtin.isName source false [.token t] = .ok (.ident (Text.upper t.text)) := by
  rw [parseExpression_token source (by simpa [Item.isReserved, Item.literal?, hcls])]
  simp [tokenTree, hcls]

/-- An item and a name with a sign between them. -/
theorem parseExpression_plus {i : Item} (sign name : Token) {t : Tree}
    (hreserved : i.isReserved = false) (hname : i.literal?.any Builtin.isName = false)
    (htop : topOperator? [i, .token sign, .token name] = some (1, .plus))
    (hi : parseExpression Builtin.isName source false [i] = .ok t) (hcls : name.cls = .literal)
    (hreserved' : isReservedWord (Text.upper name.text) = false) :
    parseExpression Builtin.isName source false [i, .token sign, .token name] =
      .ok (.binary .plus t (.ident (Text.upper name.text))) := by
  rw [parseExpression_split source (List.cons_ne_nil _ _) hreserved hname htop one_ne_zero
    (List.cons_ne_nil _ _) nofun]
  simp only [List.take_succ_cons, List.take_zero, List.drop_succ_cons, List.drop_zero]
  rw [hi, parseExpression_name source hcls hreserved']
  rfl

end

/-- `PRINT X + Y`. -/
theorem parseExpression_bare_sum :
    parseExpression Builtin.isName ⟨none, ""⟩ false
        [.token ⟨"PRINT", .literal, 0⟩, .token ⟨"X", .literal, 6⟩, .token ⟨"+", .operator, 8⟩,
          .token ⟨"Y", .literal, 10⟩] =
      .ok (.call "PRINT" [.binary .plus (.ident "X") (.ident "Y")] []) := by
  have hx := parseExpression_name ⟨none, ""⟩ (t := ⟨"X", .literal, 6⟩) rfl (by decide +kernel)
  have hsum := parseExpression_plus ⟨none, ""⟩ ⟨"+", .operator, 8⟩ ⟨"Y", .literal, 10⟩
    (by decide +kernel) (by decide +kernel) (by decide +kernel) hx rfl (by decide +kernel)
  exact (parseExpression_bare_iff (b := ⟨"PRINT", .literal, 0⟩) rfl (by decide +kernel)
    (List.cons_ne_nil _ _) (by simp [Item.isClass]) hsum false).1.2 (.unbracketed rfl)

/-- `PRINT (X) + Y` adds to what printing returns, although `(X) + Y` is an expression. -/
theorem not_forall_parseExpression_bare :
    ¬ ∀ (b : Token) (source : Source) (e : List Item) (t : Tree), b.cls = .literal →
      Builtin.isName (Text.upper b.text) = true → e ≠ [] →
      (∀ i ∈ e, i.isClass .separator = false) →
      parseExpression Builtin.isName source false e = .ok t →
      parseExpression Builtin.isName source false (.token b :: e) =
        .ok (.call (Text.upper b.text) [t] []) := by
  intro hall
  have hx : parseExpression Builtin.isName ⟨none, ""⟩ false
      [.group .round [.token ⟨"X", .literal, 7⟩]] = .ok (.ident (Text.upper "X")) := by
    rw [parseExpression]
    exact parseExpression_name ⟨none, ""⟩ rfl (by decide +kernel)
  have hsum := parseExpression_plus ⟨none, ""⟩ ⟨"+", .operator, 10⟩ ⟨"Y", .literal, 12⟩ rfl rfl
    (by decide +kernel) hx rfl (by decide +kernel)
  have hcall := hall ⟨"PRINT", .literal, 0⟩ ⟨none, ""⟩ _ _ rfl (by decide +kernel)
    (List.cons_ne_nil _ _) (by simp [Item.isClass]) hsum
  have htop : topOperator? [.token ⟨"PRINT", .literal, 0⟩,
      .group .round [.token ⟨"X", .literal, 7⟩], .token ⟨"+", .operator, 10⟩,
      .token ⟨"Y", .literal, 12⟩] = some (2, .plus) := by decide +kernel
  exact ne_call_of_split (List.cons_ne_nil _ _) (by decide +kernel) rfl htop two_ne_zero hcall

end LineBasic
