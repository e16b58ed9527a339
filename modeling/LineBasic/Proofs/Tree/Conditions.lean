import LineBasic.Proofs.Tree.Grouping
import LineBasic.Proofs.Tree.Scoping
import LineBasic.Proofs.Tree.Words

/-!
# Assignments in conditions

The condition of a conditional is an expression, in which `=` is likely to be a mistake for `==`.
The parser refuses it where it would split the condition at an assignment, and only there: a
condition with an assignment is parsed like any other expression if something else has a claim on
it first.

* `Item.IsUnguarded` — the runs with an assignment that are not refused.
* `parseExpression_condition` — all others are refused, and these are parsed as elsewhere.
* `Item.IsCondition` — what stands between an `IF` of a line and its `THEN`.
* `isConditioned_invariant` — the conditions in a parsed tree come from there.
* `assignment_of_condition` — so the assignments in conditions of a line that is accepted.
-/

set_option autoImplicit false
namespace LineBasic

/-! ## The guard -/

theorem precedence_le_looser (best site : Nat × Operator) :
    best.2.precedence ≤ (looser best site).2.precedence ∧
      site.2.precedence ≤ (looser best site).2.precedence := by
  unfold looser
  split <;> omega

/-- No operator binds more loosely than the one that a run is split at. -/
theorem precedence_le_foldl_looser (sites : List (Nat × Operator)) (best : Nat × Operator) :
    ∀ site ∈ best :: sites, site.2.precedence ≤ (sites.foldl looser best).2.precedence := by
  induction sites generalizing best with
  | nil => simp
  | cons next sites ih =>
    have hnext := precedence_le_looser best next
    have hbest := ih (looser best next) _ (List.mem_cons_self ..)
    rw [List.foldl_cons]
    intro site hsite
    rcases List.mem_cons.1 hsite with rfl | hsite
    · exact Nat.le_trans hnext.1 hbest
    rcases List.mem_cons.1 hsite with rfl | hsite
    · exact Nat.le_trans hnext.2 hbest
    · exact ih _ site (List.mem_cons_of_mem _ hsite)

/-- A run that may be split at an assignment is split at an assignment or at `IN`. -/
theorem topOperator?_of_assign {items : List Item}
    (h : ∃ site ∈ operatorSites 0 true items, site.2 = .assign) :
    ∃ k op, topOperator? items = some (k, op) ∧ (op = .assign ∨ op = .member) := by
  obtain ⟨site, hsite, hassign⟩ := h
  rw [topOperator?]
  cases hsites : operatorSites 0 true items with
  | nil =>
    rw [hsites] at hsite
    cases hsite
  | cons first sites =>
    rw [hsites] at hsite
    have hle := precedence_le_foldl_looser sites first site hsite
    refine ⟨_, _, rfl, ?_⟩
    revert hle
    rw [hassign]
    generalize (sites.foldl looser first).2 = op
    cases op <;> decide

namespace Item

/-- The runs that an assignment may stand in without being refused in a condition: a single item, a
call of a builtin without brackets, a run that is split at an `IN` before it, and a run in which it
stands behind what is no operand. -/
inductive IsUnguarded (isBuiltin : String → Bool) : List Item → Prop
  | alone (i : Item) : IsUnguarded isBuiltin [i]
  | bare {head : Item} {rest : List Item} (hname : head.literal?.any isBuiltin = true)
      (hrest : rest ≠ []) (hopens : opensRound rest = false) : IsUnguarded isBuiltin (head :: rest)
  | member {items : List Item} {k : Nat} (htop : topOperator? items = some (k, .member)) :
      IsUnguarded isBuiltin items
  | misplaced {items : List Item} (h : ∀ site ∈ operatorSites 0 true items, site.2 ≠ .assign) :
      IsUnguarded isBuiltin items

end Item

section
variable {isBuiltin : String → Bool} {source : Source}

/-- The fault of an assignment in a condition. -/
def assignInCondition (source : Source) : Parse Tree :=
  Parse.fault source
    { kind := .syntaxError, message := "'=' used on IF, did you mean '=='?"
      received := some source.text }

/-- A run that is not split at an assignment is parsed in a condition as elsewhere. -/
theorem parseExpression_inCondition {head : Item} {rest : List Item} (hrest : rest ≠ [])
    (h : head.literal?.any isBuiltin = true ∧ opensRound rest = false ∨
      ∀ k op, topOperator? (head :: rest) = some (k, op) → op ≠ .assign) :
    parseExpression isBuiltin source true (head :: rest) =
      parseExpression isBuiltin source false (head :: rest) := by
  have hgroup : rest = [] → head.isReserved = true := (absurd · hrest)
  rw [parseExpression_eq true hgroup, parseExpression_eq false hgroup]
  split
  · rfl
  split
  · rfl
  rename_i hbare
  cases htop : topOperator? (head :: rest) with
  | none => rfl
  | some site =>
    have hop : (site.2 == .assign) = false := by
      rcases h with ⟨hname, hopens⟩ | h
      · exact absurd (by rw [hname, hopens]; rfl) hbare
      · exact beq_false_of_ne (h _ _ htop)
    simp only [parseSplit, hop, Bool.and_false, Bool.false_eq_true, if_false]

/-- A condition that is split at an assignment is refused. -/
theorem parseExpression_assign {head : Item} {rest : List Item} (hrest : rest ≠ [])
    (hword : head.isWord "IF" = false)
    (hbare : ¬ (head.literal?.any isBuiltin = true ∧ opensRound rest = false)) {k : Nat}
    (htop : topOperator? (head :: rest) = some (k, .assign)) :
    parseExpression isBuiltin source true (head :: rest) = assignInCondition source := by
  rw [parseExpression_eq true (absurd · hrest), if_neg (by simp [hword]),
    if_neg (by simpa using hbare), htop]
  rfl

theorem mem_operatorSites_of_topOperator? {items : List Item} {site : Nat × Operator}
    (h : topOperator? items = some site) : site ∈ operatorSites 0 true items := by
  unfold topOperator? at h
  cases hsites : operatorSites 0 true items with
  | nil =>
    rw [hsites] at h
    cases h
  | cons first sites =>
    rw [hsites, loosest?, Option.some.injEq] at h
    exact h ▸ foldl_looser_mem sites first

/-- A run of several items is guarded if it is split at an assignment. -/
theorem not_isUnguarded_iff {head : Item} {rest : List Item} (hrest : rest ≠ []) :
    ¬ Item.IsUnguarded isBuiltin (head :: rest) ↔
      ¬ (head.literal?.any isBuiltin = true ∧ opensRound rest = false) ∧
        ∃ k, topOperator? (head :: rest) = some (k, .assign) := by
  constructor
  · intro h
    refine ⟨fun ⟨hname, hopens⟩ ↦ h (.bare hname hrest hopens), ?_⟩
    have hassign : ∃ site ∈ operatorSites 0 true (head :: rest), site.2 = .assign := by
      by_contra hnone
      exact h (.misplaced fun site hsite hassign ↦ hnone ⟨site, hsite, hassign⟩)
    obtain ⟨k, op, htop, rfl | rfl⟩ := topOperator?_of_assign hassign
    · exact ⟨k, htop⟩
    · exact absurd (.member htop) h
  · rintro ⟨hbare, k, htop⟩ h
    cases h with
    | alone => exact hrest rfl
    | bare hname _ hopens => exact hbare ⟨hname, hopens⟩
    | member hmember =>
      rw [htop] at hmember
      cases hmember
    | misplaced h => exact h _ (mem_operatorSites_of_topOperator? htop) rfl

/-- An assignment in a condition, outside all brackets, is refused, unless the condition is one of
the runs that are parsed as they are elsewhere. -/
theorem parseExpression_condition {c : List Item} (hword : ∀ i ∈ c.head?, i.isWord "IF" = false)
    (hassign : ∃ i ∈ c, i.operator? = some .assign) :
    (¬ Item.IsUnguarded isBuiltin c → parseExpression isBuiltin source true c =
      assignInCondition source) ∧
    (Item.IsUnguarded isBuiltin c → parseExpression isBuiltin source true c =
      parseExpression isBuiltin source false c) := by
  obtain ⟨i, hi, hop⟩ := hassign
  cases c with
  | nil => cases hi
  | cons head rest =>
    by_cases hrest : rest = []
    · subst hrest
      obtain rfl := List.mem_singleton.1 hi
      refine ⟨fun h ↦ absurd (.alone i) h, fun _ ↦ ?_⟩
      cases i with
      | group bracket inside => cases hop
      | token t =>
        have hcls : t.cls = .operator := by
          rw [Item.operator?] at hop
          split at hop
          · exact eq_of_beq ‹_›
          · cases hop
        have hreserved : (Item.token t).isReserved = false := by
          simp [Item.isReserved, Item.literal?, hcls]
        rw [parseExpression_token source hreserved, parseExpression_token source hreserved]
    · refine ⟨fun h ↦ ?_, fun h ↦ parseExpression_inCondition hrest ?_⟩
      · obtain ⟨hbare, k, htop⟩ := (not_isUnguarded_iff hrest).1 h
        exact parseExpression_assign hrest (hword head rfl) hbare htop
      · by_contra hnone
        rw [not_or, not_forall] at hnone
        obtain ⟨hbare, k, hk⟩ := hnone
        simp only [not_forall, not_not] at hk
        obtain ⟨op, htop, rfl⟩ := hk
        exact (not_isUnguarded_iff hrest).2 ⟨hbare, k, htop⟩ h

/-! ## Runs of a line -/

namespace Item

/-- The runs that stand together somewhere in a run, inside brackets or outside. -/
inductive IsSubrun (all : List Item) : List Item → Prop
  | whole : IsSubrun all all
  | part {items run : List Item} (h : IsSubrun all items) (hrun : run <:+: items) :
      IsSubrun all run
  | inside {items inside : List Item} {bracket : Bracket} (h : IsSubrun all items)
      (hinside : group bracket inside ∈ items) : IsSubrun all inside

/-- What stands between an `IF` and the first `THEN` after it. -/
def IsCondition (all before : List Item) : Prop :=
  ∃ head cut after, IsSubrun all (head :: (before ++ cut :: after)) ∧ head.isWord "IF" = true ∧
    cut.isWord "THEN" = true ∧ ∀ i ∈ before, i.isWord "THEN" = false

end Item

/-! ## Conditions of trees -/

/-- Whether the tree is a conditional. -/
def Tree.isBranch : Tree → Bool
  | .branch _ _ _ => true
  | _ => false

theorem Tree.exists_of_isBranch {t : Tree} (h : t.isBranch = true) :
    ∃ condition yes no, t = .branch condition yes no := by
  cases t with
  | branch condition yes no => exact ⟨condition, yes, no, rfl⟩
  | _ => cases h

/-- All conditionals in a tree come from runs of the given one, in which their conditions were
parsed. -/
def Tree.IsConditioned (isBuiltin : String → Bool) (source : Source) (all : List Item) (t : Tree) :
    Prop :=
  ∀ lists condition yes no, Occurs lists (.branch condition yes no) t → ∃ before,
    Item.IsCondition all before ∧ parseExpression isBuiltin source true before = .ok condition

namespace Tree.IsConditioned

variable {all : List Item} {t u condition yes : Tree} {ts : List Tree}

/-- A tree without conditionals. -/
theorem leaf (h : ∀ lists condition yes no, ¬ Occurs lists (.branch condition yes no) t) :
    t.IsConditioned isBuiltin source all :=
  fun lists condition yes no hb ↦ absurd hb (h lists condition yes no)

theorem unary (op : UnaryOperator) (h : t.IsConditioned isBuiltin source all) :
    IsConditioned isBuiltin source all (.unary op t) := by
  intro lists condition yes no hb
  cases hb with
  | operand hb => exact h _ _ _ _ hb

theorem binary (op : Operator) (ht : t.IsConditioned isBuiltin source all)
    (hu : u.IsConditioned isBuiltin source all) :
    IsConditioned isBuiltin source all (.binary op t u) := by
  intro lists condition yes no hb
  cases hb with
  | left hb => exact ht _ _ _ _ hb
  | right hb => exact hu _ _ _ _ hb

theorem call (name : String) (h : ∀ t ∈ ts, t.IsConditioned isBuiltin source all)
    (separators : List Separator) :
    IsConditioned isBuiltin source all (.call name ts separators) := by
  intro lists condition yes no hb
  cases hb with
  | argument ht hb => exact h _ ht _ _ _ _ hb

theorem apply (ht : t.IsConditioned isBuiltin source all)
    (h : ∀ t ∈ ts, t.IsConditioned isBuiltin source all) (separators : List Separator) :
    IsConditioned isBuiltin source all (.apply t ts separators) := by
  intro lists condition yes no hb
  cases hb with
  | callee hb => exact ht _ _ _ _ hb
  | applied hu hb => exact h _ hu _ _ _ _ hb

theorem array (h : ∀ t ∈ ts, t.IsConditioned isBuiltin source all) :
    IsConditioned isBuiltin source all (.array ts) := by
  intro lists condition yes no hb
  cases hb with
  | element ht hb => exact h _ ht _ _ _ _ hb

theorem lambda (names : List String) (h : t.IsConditioned isBuiltin source all) :
    IsConditioned isBuiltin source all (.lambda names t) := by
  intro lists condition yes no hb
  cases hb with
  | body hb => exact h _ _ _ _ hb

theorem define (name : String) (names : List String) (h : t.IsConditioned isBuiltin source all) :
    IsConditioned isBuiltin source all (.define name names t) := by
  intro lists condition yes no hb
  cases hb with
  | defined hb => exact h _ _ _ _ hb

theorem select (kind : JumpKind) (ht : t.IsConditioned isBuiltin source all)
    (h : ∀ t ∈ ts, t.IsConditioned isBuiltin source all) :
    IsConditioned isBuiltin source all (.select kind t ts) := by
  intro lists condition yes no hb
  cases hb with
  | test hb => exact ht _ _ _ _ hb
  | target hu hb => exact h _ hu _ _ _ _ hb

/-- A conditional comes from the run that its own condition was parsed in. -/
theorem branch {before : List Item} (hbefore : Item.IsCondition all before)
    (hparse : parseExpression isBuiltin source true before = .ok condition)
    (hcondition : condition.IsConditioned isBuiltin source all)
    (hyes : yes.IsConditioned isBuiltin source all) {no : Option Tree}
    (hno : ∀ t ∈ no, t.IsConditioned isBuiltin source all) :
    IsConditioned isBuiltin source all (.branch condition yes no) := by
  intro lists condition' yes' no' hb
  cases hb with
  | here => exact ⟨before, hbefore, hparse⟩
  | condition hb => exact hcondition _ _ _ _ hb
  | yes hb => exact hyes _ _ _ _ hb
  | no hb => exact hno _ rfl _ _ _ _ hb

end Tree.IsConditioned

/-! ## The parser -/

/-- A conditional has its condition from the run that it was parsed of, and other forms have theirs
from the trees in them. -/
theorem isConditioned_invariant (isBuiltin : String → Bool) (source : Source) (all : List Item) :
    Parse.Invariant isBuiltin source (Item.IsSubrun all) (fun _ ↦ True)
      (fun _ ↦ Tree.IsConditioned isBuiltin source all) (fun _ ↦ True) where
  part := .part
  inside := .inside
  word _ _ := trivial
  toRefusals := .all
  statement h := h
  null := .leaf nofun
  number _ := .leaf nofun
  string _ := .leaf nofun
  boolean _ := .leaf nofun
  ident _ := .leaf nofun
  params _ := .leaf nofun
  unary op _ := .unary op
  binary op _ _ := .binary op
  lambda names _ := .lambda names
  array := .array
  call _ _ h separators := .call _ h separators
  apply hcallee _ h separators := .apply hcallee h separators
  dim := trivial
  define _ names _ := .define _ names
  select _ _ htest _ := .select _ htest
  branch hrun hhead hcut hbefore hparse hcondition hyes hno :=
    .branch ⟨_, _, _, hrun, hhead, hcut, hbefore⟩ hparse hcondition hyes hno

/-! ## Lines -/

/-- The conditions in the trees of a line come from its items. -/
theorem isConditioned_parseTokens {line : Option Int} {tokens : List Token}
    {statements : List (Option Tree)} (h : parseTokens isBuiltin line tokens = .ok statements)
    {t : Tree} (ht : some t ∈ statements) :
    ∃ items, Item.gather ⟨line, joinTexts tokens⟩ tokens = .ok items ∧
      t.IsConditioned isBuiltin ⟨line, joinTexts tokens⟩ items := by
  obtain ⟨items, run, hgather, hrun, hparse⟩ := exists_run_of_parseTokens h ht
  exact ⟨items, hgather, (isConditioned_invariant isBuiltin _ items).good_of_parseStatement
    (.part .whole hrun) hparse⟩

theorem cutFirst?_eq_none {test : Item → Bool} {is : List Item} (h : ∀ i ∈ is, test i = false) :
    cutFirst? test is = none := by
  induction is with
  | nil => rfl
  | cons i is ih =>
    rw [cutFirst?, if_neg (by simp [h i (List.mem_cons_self ..)]),
      ih fun j hj ↦ h j (List.mem_cons_of_mem _ hj)]
    rfl

/-- A conditional in a condition has no `THEN` left. -/
theorem head_of_condition {head : Item} {rest : List Item} {t : Tree}
    (hnone : ∀ i ∈ head :: rest, i.isWord "THEN" = false) {inCondition : Bool}
    (h : parseExpression isBuiltin source inCondition (head :: rest) = .ok t) :
    head.isWord "IF" = false := by
  rw [Bool.eq_false_iff]
  intro hword
  have hreserved : head.isReserved = true := by
    by_contra hnot
    rw [Item.isWord_of_not_isReserved (Bool.eq_false_iff.2 hnot) (by decide +kernel)] at hword
    cases hword
  rw [parseExpression_eq _ fun _ ↦ hreserved, if_pos hword, parseBranch.eq_def] at h
  simp only at h
  rw [if_neg (by simp [hword])] at h
  split at h
  · cases h
  · rename_i hcut
    rw [cutFirst?_eq_none fun i hi ↦ hnone i (List.mem_cons_of_mem _ hi)] at hcut
    cases hcut

end

/-- A condition with an assignment outside all brackets is refused, with the hint at `==`, unless
something else has a claim on it first, and then it is parsed as it would be anywhere else.  So in
a line that is accepted each condition has no assignment or is unguarded. -/
theorem assignment_of_condition (isBuiltin : String → Bool) (line : Option Int) (text : String) :
    (∀ source c, (∀ i ∈ c.head?, i.isWord "IF" = false) → (∃ i ∈ c, i.operator? = some .assign) →
      (¬ Item.IsUnguarded isBuiltin c → parseExpression isBuiltin source true c =
        assignInCondition source) ∧
      (Item.IsUnguarded isBuiltin c → parseExpression isBuiltin source true c =
        parseExpression isBuiltin source false c)) ∧
    ∀ statements, parseRaw isBuiltin line text = .ok statements → ∀ t, some t ∈ statements →
      ∀ lists condition yes no, Tree.Occurs lists (.branch condition yes no) t →
        ∃ tokens items before, settledTokens line text = .ok tokens ∧
          Item.gather ⟨line, joinTexts tokens⟩ tokens = .ok items ∧
          Item.IsCondition items before ∧
          parseExpression isBuiltin ⟨line, joinTexts tokens⟩ true before = .ok condition ∧
          ((∃ i ∈ before, i.operator? = some .assign) → Item.IsUnguarded isBuiltin before) := by
  refine ⟨fun source c hword hassign ↦ parseExpression_condition hword hassign, ?_⟩
  intro statements h t ht lists condition yes no hb
  rw [parseRaw] at h
  split at h
  · cases h
    cases ht
  obtain ⟨tokens, htokens, h⟩ := bind_eq_ok.1 h
  obtain ⟨items, hgather, hitems⟩ := isConditioned_parseTokens h ht
  obtain ⟨before, hbefore, hparse⟩ := hitems _ _ _ _ hb
  refine ⟨tokens, items, before, htokens, hgather, hbefore, hparse, fun hassign ↦ ?_⟩
  obtain ⟨-, -, -, -, -, -, hnone⟩ := hbefore
  have hword : ∀ i ∈ before.head?, i.isWord "IF" = false := by
    cases before with
    | nil =>
      intro i hi
      cases hi
    | cons head rest =>
      intro i hi
      cases hi
      exact head_of_condition hnone hparse
  by_contra hguarded
  rw [(parseExpression_condition hword hassign).1 hguarded] at hparse
  cases hparse

/-- `IF X IN Y = 3 THEN Z`, which is split at `IN`. -/
theorem assignment_of_condition_member : ∃ condition yes no,
    parseRaw Builtin.isName none "IF X IN Y = 3 THEN Z" = .ok [some (.branch condition yes no)] ∧
    ∃ tokens items before, settledTokens none "IF X IN Y = 3 THEN Z" = .ok tokens ∧
      Item.gather ⟨none, joinTexts tokens⟩ tokens = .ok items ∧ Item.IsCondition items before ∧
      parseExpression Builtin.isName ⟨none, joinTexts tokens⟩ true before = .ok condition ∧
      ((∃ i ∈ before, i.operator? = some .assign) → Item.IsUnguarded Builtin.isName before) := by
  have hshape : (parseRaw Builtin.isName none "IF X IN Y = 3 THEN Z").toOption.map
      (List.map (Option.any Tree.isBranch)) = some [true] := by decide +kernel
  cases hparse : parseRaw Builtin.isName none "IF X IN Y = 3 THEN Z" with
  | error stop =>
    rw [hparse] at hshape
    cases hshape
  | ok statements =>
    rw [hparse] at hshape
    obtain ⟨tree, rfl, htree⟩ := List.map_eq_singleton_iff.1 (Option.some.inj hshape)
    cases tree with
    | none => cases htree
    | some t =>
      obtain ⟨condition, yes, no, rfl⟩ := Tree.exists_of_isBranch htree
      exact ⟨condition, yes, no, rfl, (assignment_of_condition Builtin.isName none _).2 _ hparse _
        (List.mem_singleton_self _) [] condition yes no (.here _)⟩

/-- `IF LEN A = 3 THEN PRINT 1`, with the call of a builtin without brackets, is accepted. -/
theorem not_forall_condition_assignment :
    ¬ ∀ (text : String) (statements : List (Option Tree)) (tokens : List Token)
      (items before : List Item), parseRaw Builtin.isName none text = .ok statements →
      settledTokens none text = .ok tokens →
      Item.gather ⟨none, joinTexts tokens⟩ tokens = .ok items → Item.IsCondition items before →
      ∀ i ∈ before, i.operator? ≠ some .assign := by
  intro hall
  have hok : (parseRaw Builtin.isName none "IF LEN A = 3 THEN PRINT 1").isOk = true := by
    decide +kernel
  have htokens : settledTokens none "IF LEN A = 3 THEN PRINT 1" = .ok
      [⟨"IF", .literal, 0⟩, ⟨"LEN", .literal, 3⟩, ⟨"A", .literal, 7⟩, ⟨"=", .operator, 9⟩,
        ⟨"3", .number, 11⟩, ⟨"THEN", .literal, 13⟩, ⟨"PRINT", .literal, 18⟩,
        ⟨"1", .number, 24⟩] := by
    decide +kernel
  cases hparse : parseRaw Builtin.isName none "IF LEN A = 3 THEN PRINT 1" with
  | error stop =>
    rw [hparse] at hok
    cases hok
  | ok statements =>
    refine hall _ _ _ _ [.token ⟨"LEN", .literal, 3⟩, .token ⟨"A", .literal, 7⟩,
      .token ⟨"=", .operator, 9⟩, .token ⟨"3", .number, 11⟩] hparse htokens rfl ?_
      (.token ⟨"=", .operator, 9⟩) (by simp) (by decide +kernel)
    exact ⟨_, _, _, .whole, by decide +kernel, by decide +kernel, by decide +kernel⟩

end LineBasic
