import LineBasic.Proofs.Tree.Remarks

/-!
# Nested conditionals

Conditionals nest without brackets: `IF A THEN IF B THEN C ELSE D` has the `ELSE` belong to the
second `IF`, the nearest one that is open.  What follows `THEN` may be any statement if no `ELSE`
comes after it, and has to have an `ELSE` for each `IF` otherwise.

* `Nests` — how conditionals are written as runs of tokens, with the trees that they stand for.
* `Item.IsPaired`, `Item.KeepsElses` — what the count of open `IF`s comes to over a run.
* `parse_nested` — the runs are parsed to these trees, as statements and as expressions.
-/

set_option autoImplicit false
namespace LineBasic

/-! ## Conditionals as runs of tokens -/

/-- Whether the item is one of the words that conditionals are written with. -/
def Item.isBranchWord (i : Item) : Bool :=
  i.isWord "IF" || i.isWord "THEN" || i.isWord "ELSE"

/-- A run of tokens that is parsed on its own, as if it were the text of a line, and has no word of
a conditional outside of brackets. -/
def ParsesAlone {α : Type} (parse : Source → List Item → Parse α) (line : Option Int)
    (tokens : List Token) (a : α) : Prop :=
  ∃ items, Item.gather ⟨line, joinTexts tokens⟩ tokens = .ok items ∧
    (∀ i ∈ items, i.isBranchWord = false) ∧ parse ⟨line, joinTexts tokens⟩ items = .ok a

/-- The ways of writing conditionals inside conditionals, each with its tree: as statements, or as
expressions.  In a closed run every `IF` has its `ELSE`, so that the `ELSE` of an outer `IF` may
follow.  A condition is an expression that is not empty. -/
inductive Nests (isBuiltin : String → Bool) (line : Option Int) (asStatement : Bool) :
    (isClosed : Bool) → List Token → Tree → Prop
  | plain {isClosed : Bool} {tokens : List Token} {t : Tree}
      (h : ParsesAlone (parseArm isBuiltin · asStatement) line tokens t) :
      Nests isBuiltin line asStatement isClosed tokens t
  | short {ifWord thenWord : Token} {tokens yes : List Token} {condition t : Tree}
      (hif : ifWord.isWord "IF" = true) (hthen : thenWord.isWord "THEN" = true)
      (hcondition : ParsesAlone (parseExpression isBuiltin · true) line tokens condition)
      (hnull : condition.isNull = false) (hyes : Nests isBuiltin line asStatement false yes t) :
      Nests isBuiltin line asStatement false (ifWord :: (tokens ++ thenWord :: yes))
        (.branch condition t none)
  | full {isClosed : Bool} {ifWord thenWord elseWord : Token} {tokens yes no : List Token}
      {condition t u : Tree} (hif : ifWord.isWord "IF" = true)
      (hthen : thenWord.isWord "THEN" = true) (helse : elseWord.isWord "ELSE" = true)
      (hcondition : ParsesAlone (parseExpression isBuiltin · true) line tokens condition)
      (hnull : condition.isNull = false) (hyes : Nests isBuiltin line asStatement true yes t)
      (hno : Nests isBuiltin line asStatement isClosed no u) :
      Nests isBuiltin line asStatement isClosed
        (ifWord :: (tokens ++ thenWord :: (yes ++ elseWord :: no))) (.branch condition t (some u))

theorem Token.isWord_of_ne {t : Token} {word other : String} (h : t.isWord word = true)
    (hne : word ≠ other) : t.isWord other = false := by
  simp [isWord, (isWord_iff.1 h).2, hne]

/-! ## Counting -/

namespace Item

variable {items before yes no : List Item} {ifWord thenWord elseWord : Token}

/-- The count of open `IF`s is the same behind a run as before it, and no `ELSE` in the run belongs
to an `IF` before it. -/
def IsPaired (items : List Item) : Prop :=
  ∀ pending rest, cutElse? pending (items ++ rest) =
    (cutElse? pending rest).map fun (first, second) ↦ (items ++ first, second)

/-- Each `ELSE` in a run belongs to an `IF` in it. -/
def KeepsElses (items : List Item) : Prop :=
  ∀ pending, cutElse? pending items = none

theorem isPaired_of_plain (h : ∀ i ∈ items, i.isBranchWord = false) : IsPaired items := by
  intro pending rest
  induction items with
  | nil => cases hrest : cutElse? pending rest <;> simp [hrest]
  | cons i is ih =>
    obtain ⟨hi, his⟩ := List.forall_mem_cons.1 h
    simp only [isBranchWord, Bool.or_eq_false_iff] at hi
    rw [List.cons_append, cutElse?, if_neg (by simp [hi]), if_neg (by simp [hi]), ih his,
      Option.map_map]
    rfl

theorem IsPaired.append {items' : List Item} (h : IsPaired items) (h' : IsPaired items') :
    IsPaired (items ++ items') := by
  intro pending rest
  rw [List.append_assoc, h, h', Option.map_map]
  simp [Function.comp_def]

/-- A condition and the `THEN` behind it have no part in the count. -/
theorem isPaired_condition (h : ∀ i ∈ before, i.isBranchWord = false)
    (hthen : thenWord.isWord "THEN" = true) : IsPaired (before ++ [token thenWord]) := by
  refine (isPaired_of_plain h).append fun pending rest ↦ ?_
  have hif : (token thenWord).isWord "IF" = false := Token.isWord_of_ne hthen (by decide)
  have helse : (token thenWord).isWord "ELSE" = false := Token.isWord_of_ne hthen (by decide)
  rw [List.singleton_append, cutElse?, if_neg (by simp [hif]), if_neg (by simp [helse])]
  rfl

theorem IsPaired.keepsElses (h : IsPaired items) : KeepsElses items := fun pending ↦ by
  have hitems := h pending []
  rwa [List.append_nil] at hitems

theorem IsPaired.keepsElses_append (h : IsPaired items) (hyes : KeepsElses yes) :
    KeepsElses (items ++ yes) := fun pending ↦ by
  rw [h, hyes, Option.map_none]

theorem KeepsElses.short (hif : ifWord.isWord "IF" = true) (h : KeepsElses items) :
    KeepsElses (token ifWord :: items) := fun pending ↦ by
  have hif : (token ifWord).isWord "IF" = true := hif
  rw [cutElse?, if_pos hif, h, Option.map_none]

/-- An `ELSE` behind a paired run closes the `IF` before the run if there is one, and else is where
to cut. -/
theorem IsPaired.cutElse?_else (helse : elseWord.isWord "ELSE" = true) (h : IsPaired before)
    (pending : Nat) (rest : List Item) :
    cutElse? pending (before ++ token elseWord :: rest) =
      if pending = 0 then some (before, rest)
      else (cutElse? (pending - 1) rest).map fun (first, second) ↦
        (before ++ token elseWord :: first, second) := by
  have hif : (token elseWord).isWord "IF" = false := Token.isWord_of_ne helse (by decide)
  have helse : (token elseWord).isWord "ELSE" = true := helse
  rw [h, cutElse?, if_neg (by simp [hif]), if_pos helse]
  split
  · exact congrArg (fun first ↦ some (first, rest)) (List.append_nil before)
  · rw [Option.map_map]
    rfl

/-- An `IF` with its `ELSE` leaves the count as it was. -/
theorem IsPaired.cutElse?_full (hif : ifWord.isWord "IF" = true)
    (helse : elseWord.isWord "ELSE" = true) (h : IsPaired before) (pending : Nat)
    (rest : List Item) :
    cutElse? pending (token ifWord :: (before ++ token elseWord :: rest)) =
      (cutElse? pending rest).map fun (first, second) ↦
        (token ifWord :: (before ++ token elseWord :: first), second) := by
  have hif : (token ifWord).isWord "IF" = true := hif
  rw [cutElse?, if_pos hif, h.cutElse?_else helse, if_neg (Nat.succ_ne_zero pending),
    Nat.add_sub_cancel, Option.map_map]
  rfl

theorem IsPaired.full (hif : ifWord.isWord "IF" = true) (helse : elseWord.isWord "ELSE" = true)
    (h : IsPaired before) (hno : IsPaired no) :
    IsPaired (token ifWord :: (before ++ token elseWord :: no)) := by
  intro pending rest
  rw [List.cons_append, List.append_assoc, List.cons_append, h.cutElse?_full hif helse, hno,
    Option.map_map]
  simp [Function.comp_def]

theorem KeepsElses.full (hif : ifWord.isWord "IF" = true) (helse : elseWord.isWord "ELSE" = true)
    (h : IsPaired before) (hno : KeepsElses no) :
    KeepsElses (token ifWord :: (before ++ token elseWord :: no)) := fun pending ↦ by
  rw [h.cutElse?_full hif helse, hno, Option.map_none]

theorem cutFirst?_append {test : Item → Bool} (h : ∀ i ∈ before, test i = false) {cut : Item}
    (hcut : test cut = true) (after : List Item) :
    cutFirst? test (before ++ cut :: after) = some (before, cut, after) := by
  induction before with
  | nil => rw [List.nil_append, cutFirst?, if_pos hcut]
  | cons i is ih =>
    obtain ⟨hi, his⟩ := List.forall_mem_cons.1 h
    rw [List.cons_append, cutFirst?, if_neg (by simp [hi]), ih his, Option.map_some]

/-! ## Gathering -/

theorem gather_of_ok {source : Source} {tokens : List Token} (h : gather source tokens = .ok items)
    (source' : Source) : gather source' tokens = .ok items := by
  have hgather := gather_append_of_ok h source' []
  have hnil : gather source' [] = .ok [] := rfl
  rwa [hnil, Except.map, List.append_nil, List.append_nil] at hgather

theorem gather_append_run {source source' : Source} {tokens more : List Token}
    (h : gather source tokens = .ok items) {items' : List Item}
    (h' : ∀ source, gather source more = .ok items') :
    gather source' (tokens ++ more) = .ok (items ++ items') := by
  rw [gather_append_of_ok h, h']
  rfl

theorem gather_word {word : String} {t : Token} (ht : t.isWord word = true) {source : Source}
    {more : List Token} (h : ∀ source, gather source more = .ok items) :
    gather source (t :: more) = .ok (token t :: items) := by
  have hsingle : gather source [t] = .ok [token t] :=
    gatherFrom_token (by simp [(Token.isWord_iff.1 ht).1]) source [] [] []
  exact gather_append_run hsingle h

end Item

/-! ## Parsing -/

section
variable {isBuiltin : String → Bool} {source source' : Source} {asStatement : Bool}
  {items : List Item}

/-- The tree of a run does not depend on the text of the line. -/
theorem parseArm_of_ok (hline : source'.line = source.line) {t : Tree}
    (h : parseArm isBuiltin source asStatement items = .ok t) :
    parseArm isBuiltin source' asStatement items = .ok t := by
  have hrecast : Recast Refusal.outline (Tree.requote id)
      (parseArm isBuiltin source asStatement items)
      (parseArm isBuiltin source' asStatement (Item.requoteRun id items)) :=
    recast_parseArm hline (.inr fun _ _ _ ↦ Iff.rfl) items
      (List.Subset.refl (Item.tokensOfRun items))
  rw [h, Item.requoteRun_id] at hrecast
  generalize parseArm isBuiltin source' asStatement items = result at hrecast
  cases hrecast with
  | ok => rw [Tree.requote_id]

theorem parseExpression_of_ok (hline : source'.line = source.line) {inCondition : Bool} {t : Tree}
    (h : parseExpression isBuiltin source inCondition items = .ok t) :
    parseExpression isBuiltin source' inCondition items = .ok t := by
  have hrecast : Recast Refusal.outline (Tree.requote id)
      (parseExpression isBuiltin source inCondition items)
      (parseExpression isBuiltin source' inCondition (Item.requoteRun id items)) :=
    recast_parseExpression hline (.inr fun _ _ _ ↦ Iff.rfl) items
      (List.Subset.refl (Item.tokensOfRun items))
  rw [h, Item.requoteRun_id] at hrecast
  generalize parseExpression isBuiltin source' inCondition items = result at hrecast
  cases hrecast with
  | ok => rw [Tree.requote_id]

/-- A run that starts with `IF` is parsed as a conditional, whether it is a statement or an
expression. -/
theorem parseArm_of_parseBranch {ifWord : Token} (hif : ifWord.isWord "IF" = true)
    (hne : items ≠ []) {t : Tree}
    (h : parseBranch isBuiltin source asStatement (.token ifWord :: items) = .ok t) :
    parseArm isBuiltin source asStatement (.token ifWord :: items) = .ok t := by
  obtain ⟨i, is, rfl⟩ := List.exists_cons_of_ne_nil hne
  have hrem : (Item.token ifWord).isWord "REM" = false := by
    simp [Item.isWord, Token.isWord, (Token.isWord_iff.1 hif).2]
  rw [parseArm]
  cases asStatement with
  | true =>
    rw [if_pos rfl, parseStatement]
    · rw [hrem, if_neg Bool.false_ne_true, h]
      rfl
    · intro _ _ heq
      cases heq
  | false =>
    have hhead : (Item.token ifWord).isWord "IF" = true := hif
    rw [if_neg Bool.false_ne_true, parseExpression_eq false (absurd · (List.cons_ne_nil _ _)),
      if_pos hhead, h]

/-- A conditional with a condition that can be parsed has the branches that its `ELSE` separates. -/
theorem parseBranch_eq {ifWord thenWord : Token} {before : List Item} {condition : Tree}
    (hif : ifWord.isWord "IF" = true) (hthen : thenWord.isWord "THEN" = true)
    (hbefore : ∀ i ∈ before, i.isBranchWord = false)
    (hcondition : parseExpression isBuiltin source true before = .ok condition)
    (hnull : condition.isNull = false) (after : List Item) :
    parseBranch isBuiltin source asStatement
        (.token ifWord :: (before ++ .token thenWord :: after)) =
      match cutElse? 0 after with
      | none => do
        return Tree.branch condition (← parseArm isBuiltin source asStatement after) none
      | some (yes, no) => do
        let yes ← parseArm isBuiltin source asStatement yes
        let no ← parseArm isBuiltin source asStatement no
        return Tree.branch condition yes (some no) := by
  have hplain : ∀ i ∈ before, i.isWord "THEN" = false := fun i hi ↦
    (Bool.or_eq_false_iff.1 (Bool.or_eq_false_iff.1 (hbefore i hi)).1).2
  have hcut : cutFirst? (·.isWord "THEN") (before ++ .token thenWord :: after) =
      some (before, .token thenWord, after) :=
    Item.cutFirst?_append hplain (show (Item.token thenWord).isWord "THEN" = true from hthen) after
  have hif : (Item.token ifWord).isWord "IF" = true := hif
  rw [parseBranch.eq_def]
  simp only [hif, Bool.not_true, Bool.false_eq_true, if_false]
  split
  · rename_i hnone
    rw [hcut] at hnone
    cases hnone
  · rename_i hsome
    rw [hcut] at hsome
    cases hsome
    simp only [hcondition, bind, Except.bind, hnull, Bool.false_eq_true, if_false]
    cases cutElse? 0 after <;> rfl

end

/-! ## The result -/

/-- What nested conditionals are gathered into. -/
structure IsNested (isBuiltin : String → Bool) (line : Option Int) (asStatement isClosed : Bool)
    (tokens : List Token) (t : Tree) (items : List Item) : Prop where
  gather : ∀ source, Item.gather source tokens = .ok items
  isPaired : isClosed = true → Item.IsPaired items
  keepsElses : Item.KeepsElses items
  parse : ∀ source : Source, source.line = line →
    parseArm isBuiltin source asStatement items = .ok t

section
variable {isBuiltin : String → Bool} {line : Option Int} {asStatement isClosed : Bool}
  {tokens : List Token} {t : Tree}

/-- By induction on how a run is written.  The count of open `IF`s is zero where the `ELSE` of the
outermost one comes, since what is before it is closed. -/
theorem Nests.exists_isNested (h : Nests isBuiltin line asStatement isClosed tokens t) :
    ∃ items, IsNested isBuiltin line asStatement isClosed tokens t items := by
  induction h with
  | plain h =>
    obtain ⟨items, hgather, hplain, hparse⟩ := h
    have hpaired := Item.isPaired_of_plain hplain
    exact ⟨items, Item.gather_of_ok hgather, fun _ ↦ hpaired, hpaired.keepsElses,
      fun source hline ↦ parseArm_of_ok hline hparse⟩
  | @short ifWord thenWord _ _ _ _ hif hthen hcondition hnull _ ih =>
    obtain ⟨before, hgather, hplain, hparse⟩ := hcondition
    obtain ⟨yes, hyes⟩ := ih
    have hkeeps : Item.KeepsElses (before ++ .token thenWord :: yes) := by
      rw [List.append_cons]
      exact (Item.isPaired_condition hplain hthen).keepsElses_append hyes.keepsElses
    refine ⟨.token ifWord :: (before ++ .token thenWord :: yes), fun source ↦ ?_, nofun,
      .short hif hkeeps, fun source hline ↦ parseArm_of_parseBranch hif (by simp) ?_⟩
    · exact Item.gather_word hif fun _ ↦ Item.gather_append_run hgather fun _ ↦
        Item.gather_word hthen hyes.gather
    · rw [parseBranch_eq hif hthen hplain (parseExpression_of_ok hline hparse) hnull,
        hyes.keepsElses]
      simp only [hyes.parse source hline]
      rfl
  | @full _ ifWord thenWord elseWord _ _ _ _ _ _ hif hthen helse hcondition hnull _ _ ihyes ihno =>
    obtain ⟨before, hgather, hplain, hparse⟩ := hcondition
    obtain ⟨yes, hyes⟩ := ihyes
    obtain ⟨no, hno⟩ := ihno
    have hpaired : Item.IsPaired (before ++ .token thenWord :: yes) := by
      rw [List.append_cons]
      exact (Item.isPaired_condition hplain hthen).append (hyes.isPaired rfl)
    have hsplit : before ++ .token thenWord :: (yes ++ .token elseWord :: no) =
        before ++ .token thenWord :: yes ++ .token elseWord :: no := by simp
    refine ⟨.token ifWord :: (before ++ .token thenWord :: (yes ++ .token elseWord :: no)),
      fun source ↦ ?_, fun hclosed ↦ ?_, ?_,
      fun source hline ↦ parseArm_of_parseBranch hif (by simp) ?_⟩
    · exact Item.gather_word hif fun _ ↦ Item.gather_append_run hgather fun _ ↦
        Item.gather_word hthen fun _ ↦ Item.gather_append_run (hyes.gather source) fun _ ↦
          Item.gather_word helse hno.gather
    · rw [hsplit]
      exact hpaired.full hif helse (hno.isPaired hclosed)
    · rw [hsplit]
      exact hno.keepsElses.full hif helse hpaired
    · rw [parseBranch_eq hif hthen hplain (parseExpression_of_ok hline hparse) hnull,
        (hyes.isPaired rfl).cutElse?_else helse, if_pos rfl]
      simp only [hyes.parse source hline, hno.parse source hline]
      rfl

/-- A run is written in one way only, as far as its tree goes. -/
theorem Nests.unique {u : Tree} (h : Nests isBuiltin line asStatement isClosed tokens t)
    (h' : Nests isBuiltin line asStatement isClosed tokens u) : t = u := by
  obtain ⟨items, hitems⟩ := h.exists_isNested
  obtain ⟨items', hitems'⟩ := h'.exists_isNested
  have heq := (hitems.gather ⟨line, ""⟩).symm.trans (hitems'.gather ⟨line, ""⟩)
  obtain rfl := Except.ok.inj heq
  exact Except.ok.inj ((hitems.parse ⟨line, ""⟩ rfl).symm.trans (hitems'.parse ⟨line, ""⟩ rfl))

end

/-- A name is parsed on its own, as a condition and as a branch. -/
theorem parsesAlone_name (isBuiltin : String → Bool) {name : Token} (hcls : name.cls = .literal)
    (hreserved : isReservedWord (Text.upper name.text) = false) (line : Option Int) :
    ParsesAlone (parseExpression isBuiltin · true) line [name] (.ident (Text.upper name.text)) ∧
    ∀ asStatement, ParsesAlone (parseArm isBuiltin · asStatement) line [name]
      (if asStatement then .call (Text.upper name.text) [] []
        else .ident (Text.upper name.text)) := by
  have hgather : ∀ source, Item.gather source [name] = .ok [.token name] := fun source ↦
    Item.gatherFrom_token (by simp [hcls]) source [] [] []
  have hplain : ∀ i ∈ [Item.token name], i.isBranchWord = false := by
    simp only [isReservedWord, List.contains_eq_mem, decide_eq_false_iff_not] at hreserved
    simp_all [Item.isBranchWord, Item.isWord, Token.isWord]
  have hparse : ∀ source inCondition, parseExpression isBuiltin source inCondition [.token name] =
      .ok (.ident (Text.upper name.text)) := fun source inCondition ↦ by
    have hopen : (Item.token name).isReserved = false := by
      simpa [Item.isReserved, Item.literal?, hcls] using hreserved
    rw [parseExpression_token source hopen]
    simp [tokenTree, hcls]
  refine ⟨⟨_, hgather _, hplain, hparse _ _⟩, fun asStatement ↦ ⟨_, hgather _, hplain, ?_⟩⟩
  beta_reduce
  rw [parseArm]
  cases asStatement with
  | true =>
    rw [if_pos rfl, parseStatement]
    simp only [tokenTree, hcls]
    rfl
  | false => rw [if_neg Bool.false_ne_true, hparse, if_neg Bool.false_ne_true]

/-- An `ELSE` belongs to the nearest open `IF`: conditionals inside conditionals, written without
brackets, are parsed to the trees that were written, as statements and as expressions. -/
theorem parse_nested (isBuiltin : String → Bool) (source : Source) (tokens : List Token)
    (t : Tree) :
    (Nests isBuiltin source.line true false tokens t →
      ∃ items, Item.gather source tokens = .ok items ∧
        ∃ tree, parseStatement isBuiltin source items = .ok tree ∧ tree.getD .null = t) ∧
    (Nests isBuiltin source.line false false tokens t →
      ∃ items, Item.gather source tokens = .ok items ∧
        parseExpression isBuiltin source false items = .ok t) := by
  constructor
  · intro h
    obtain ⟨items, hitems⟩ := h.exists_isNested
    have hparse := hitems.parse source rfl
    rw [parseArm, if_pos rfl] at hparse
    obtain ⟨tree, htree, heq⟩ := bind_eq_ok.1 hparse
    exact ⟨items, hitems.gather source, tree, htree, Except.ok.inj heq⟩
  · intro h
    obtain ⟨items, hitems⟩ := h.exists_isNested
    have hparse := hitems.parse source rfl
    rw [parseArm, if_neg Bool.false_ne_true] at hparse
    exact ⟨items, hitems.gather source, hparse⟩

/-- `IF A THEN IF B THEN C ELSE D`, where the `ELSE` belongs to the second `IF`. -/
theorem parse_nested_dangling :
    (∃ items, Item.gather ⟨none, ""⟩ [⟨"IF", .literal, 0⟩, ⟨"A", .literal, 3⟩,
        ⟨"THEN", .literal, 5⟩, ⟨"IF", .literal, 10⟩, ⟨"B", .literal, 13⟩, ⟨"THEN", .literal, 15⟩,
        ⟨"C", .literal, 20⟩, ⟨"ELSE", .literal, 22⟩, ⟨"D", .literal, 27⟩] = .ok items ∧
      ∃ tree, parseStatement Builtin.isName ⟨none, ""⟩ items = .ok tree ∧
        tree.getD .null = .branch (.ident "A")
          (.branch (.ident "B") (.call "C" [] []) (some (.call "D" [] []))) none) ∧
    ∃ items, Item.gather ⟨none, ""⟩ [⟨"IF", .literal, 0⟩, ⟨"A", .literal, 3⟩,
        ⟨"THEN", .literal, 5⟩, ⟨"IF", .literal, 10⟩, ⟨"B", .literal, 13⟩, ⟨"THEN", .literal, 15⟩,
        ⟨"C", .literal, 20⟩, ⟨"ELSE", .literal, 22⟩, ⟨"D", .literal, 27⟩] = .ok items ∧
      parseExpression Builtin.isName ⟨none, ""⟩ false items = .ok
        (.branch (.ident "A") (.branch (.ident "B") (.ident "C") (some (.ident "D"))) none) := by
  have hif : (⟨"IF", .literal, 0⟩ : Token).isWord "IF" = true := by decide +kernel
  have hif' : (⟨"IF", .literal, 10⟩ : Token).isWord "IF" = true := by decide +kernel
  have hthen : (⟨"THEN", .literal, 5⟩ : Token).isWord "THEN" = true := by decide +kernel
  have hthen' : (⟨"THEN", .literal, 15⟩ : Token).isWord "THEN" = true := by decide +kernel
  have helse : (⟨"ELSE", .literal, 22⟩ : Token).isWord "ELSE" = true := by decide +kernel
  have hname (t : Token) (hcls : t.cls = .literal)
      (hreserved : isReservedWord (Text.upper t.text) = false) :=
    parsesAlone_name Builtin.isName hcls hreserved none
  have ha := (hname ⟨"A", .literal, 3⟩ rfl (by decide +kernel)).1
  have hb := (hname ⟨"B", .literal, 13⟩ rfl (by decide +kernel)).1
  have hc := (hname ⟨"C", .literal, 20⟩ rfl (by decide +kernel)).2
  have hd := (hname ⟨"D", .literal, 27⟩ rfl (by decide +kernel)).2
  have hnests (asStatement : Bool) := Nests.short hif hthen ha rfl
    (.full hif' hthen' helse hb rfl (.plain (hc asStatement)) (.plain (hd asStatement)))
  exact ⟨(parse_nested Builtin.isName ⟨none, ""⟩ _ _).1 (hnests true),
    (parse_nested Builtin.isName ⟨none, ""⟩ _ _).2 (hnests false)⟩

end LineBasic
