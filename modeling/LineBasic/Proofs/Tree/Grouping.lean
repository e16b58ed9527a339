import LineBasic.Proofs.Tree.Written
import Mathlib

/-!
# Operator grouping

A run of operands with binary operators between them is parsed into the tree that the precedence
table asks for.  At every operator of that tree no operator of the run on either side binds more
loosely; of equally loose operators the last one that groups to the left comes first, and if there
is none, the first.

* `Chain` — the runs that this is about, and `Chain.tokens`, what they are written as.
* `IsLoosest` — the rule for the operator that a run is split at.
* `Chain.Groups` — a tree that is made by the rule.
* `parseExpression_chain` — the parser returns the only such tree; it fails if a number literal has
  no value, and only then.
-/

set_option autoImplicit false
namespace LineBasic

/-! ## Runs of operands -/

mutual

/-- An operand: a token, or a run in round brackets, which stand at the given columns. -/
inductive Term where
  | token (t : Token)
  | group (opening closing : Nat) (run : Chain)

/-- Operands with operators between them, which stand at the given columns. -/
inductive Chain where
  | one (x : Term)
  | more (x : Term) (op : Operator) (column : Nat) (rest : Chain)

end

/-- The token of an operator. -/
def Operator.token (op : Operator) (column : Nat) : Token :=
  ⟨op.text, .operator, column⟩

mutual

/-- The tokens of an operand. -/
def Term.tokens : Term → List Token
  | .token t => [t]
  | .group opening closing run => ⟨"(", .paren, opening⟩ :: (run.tokens ++ [⟨")", .paren, closing⟩])

/-- The tokens of a run. -/
def Chain.tokens : Chain → List Token
  | .one x => x.tokens
  | .more x op column rest => x.tokens ++ op.token column :: rest.tokens

end

mutual

/-- The bracketed item of an operand. -/
def Term.item : Term → Item
  | .token t => .token t
  | .group _ _ run => .group .round run.items

/-- The bracketed items of a run. -/
def Chain.items : Chain → List Item
  | .one x => [x.item]
  | .more x op column rest => x.item :: .token (op.token column) :: rest.items

end

mutual

/-- The number tokens of an operand. -/
def Term.numerals : Term → List Token
  | .token t => if t.cls = .number then [t] else []
  | .group _ _ run => run.numerals

/-- The number tokens of a run, inside brackets too. -/
def Chain.numerals : Chain → List Token
  | .one x => x.numerals
  | .more x _ _ rest => x.numerals ++ rest.numerals

end

mutual

/-- An operand that is a literal, a plain name, or a run of such in brackets. -/
def Term.IsPlain (isBuiltin : String → Bool) : Term → Prop
  | .token t => t.cls = .number ∨ t.cls = .quoted ∨ t.cls = .boolean ∨
      t.cls = .literal ∧ isBuiltin (Text.upper t.text) = false ∧
        isReservedWord (Text.upper t.text) = false
  | .group _ _ run => run.IsPlain isBuiltin

/-- A run of plain operands with any operators between them, save the function arrow. -/
def Chain.IsPlain (isBuiltin : String → Bool) : Chain → Prop
  | .one x => x.IsPlain isBuiltin
  | .more x op _ rest => x.IsPlain isBuiltin ∧ op ≠ .lambda ∧ rest.IsPlain isBuiltin

end

namespace Chain

/-- The operators of a run outside its brackets, from left to right. -/
def operators : Chain → List Operator
  | one _ => []
  | more _ op _ rest => op :: rest.operators

/-- A run, an operator, and another run. -/
def append : Chain → Operator → Nat → Chain → Chain
  | one x, op, column, run => more x op column run
  | more x o c rest, op, column, run => more x o c (rest.append op column run)

end Chain

/-! ## The rule -/

/-- The rule for the operator that a run is split at, by the operators before and after it. -/
structure IsLoosest (before : List Operator) (op : Operator) (after : List Operator) : Prop where
  le : ∀ o ∈ before ++ after, o.precedence ≤ op.precedence
  groupsLeft : op.isRightAssociative = false →
    ∀ o ∈ after, o.precedence = op.precedence → o.isRightAssociative = true
  groupsRight : op.isRightAssociative = true →
    (∀ o ∈ before, o.precedence ≠ op.precedence) ∧
      ∀ o ∈ after, o.precedence = op.precedence → o.isRightAssociative = true

mutual

/-- The tree of an operand. -/
inductive Term.Reads : Term → Tree → Prop
  | number {t : Token} {x : Float} (ht : t.cls = .number) (hx : Numeral.value t.text = .ok x) :
      Term.Reads (.token t) (.number x)
  | quoted {t : Token} (ht : t.cls = .quoted) : Term.Reads (.token t) (.string t.text)
  | boolean {t : Token} (ht : t.cls = .boolean) :
      Term.Reads (.token t) (.boolean (Text.upper t.text == "TRUE"))
  | name {t : Token} (ht : t.cls = .literal) : Term.Reads (.token t) (.ident (Text.upper t.text))
  | group {opening closing : Nat} {run : Chain} {t : Tree} (h : Chain.Groups run t) :
      Term.Reads (.group opening closing run) t

/-- A tree with the operands and operators of a run in their order, such that each operator of the
run stands where the rule puts it. -/
inductive Chain.Groups : Chain → Tree → Prop
  | one {x : Term} {t : Tree} (h : Term.Reads x t) : Chain.Groups (.one x) t
  | split {left right : Chain} {op : Operator} {column : Nat} {t u : Tree}
      (hop : IsLoosest left.operators op right.operators) (hleft : Chain.Groups left t)
      (hright : Chain.Groups right u) : Chain.Groups (left.append op column right) (.binary op t u)

end

/-! ## Splitting a run -/

namespace Chain

/-- Induction along a run. -/
@[elab_as_elim]
theorem induction {motive : Chain → Prop} (one : ∀ x, motive (.one x))
    (more : ∀ x op column rest, motive rest → motive (.more x op column rest)) :
    ∀ c, motive c
  | .one x => one x
  | .more x op column rest => more x op column rest (induction one more rest)

@[simp] theorem operators_append (left right : Chain) (op : Operator) (column : Nat) :
    (left.append op column right).operators = left.operators ++ op :: right.operators := by
  induction left using Chain.induction with
  | one x => rfl
  | more x o c rest ih => rw [append, operators, ih, operators, List.cons_append]

@[simp] theorem items_append (left right : Chain) (op : Operator) (column : Nat) :
    (left.append op column right).items =
      left.items ++ .token (op.token column) :: right.items := by
  induction left using Chain.induction with
  | one x => rfl
  | more x o c rest ih =>
    rw [append, items, ih, items, List.cons_append, List.cons_append]

@[simp] theorem numerals_append (left right : Chain) (op : Operator) (column : Nat) :
    (left.append op column right).numerals = left.numerals ++ right.numerals := by
  induction left using Chain.induction with
  | one x => rfl
  | more x o c rest ih => rw [append, numerals, ih, numerals, List.append_assoc]

theorem isPlain_append {isBuiltin : String → Bool} {left right : Chain} {op : Operator}
    {column : Nat} : (left.append op column right).IsPlain isBuiltin ↔
      left.IsPlain isBuiltin ∧ op ≠ .lambda ∧ right.IsPlain isBuiltin := by
  induction left using Chain.induction with
  | one x => rfl
  | more x o c rest ih =>
    rw [append, IsPlain, ih, IsPlain]
    simp only [and_assoc]

/-- Of two splits of a run, they are the same or the operator of each is on a side of the other. -/
theorem append_eq_append {left left' right right' : Chain} {op op' : Operator}
    {column column' : Nat} (h : left.append op column right = left'.append op' column' right') :
    (left = left' ∧ op = op' ∧ right = right') ∨
      (op ∈ left'.operators ∧ op' ∈ right.operators) ∨
      (op' ∈ left.operators ∧ op ∈ right'.operators) := by
  induction left using Chain.induction generalizing left' with
  | one x =>
    cases left' with
    | one x' =>
      cases h
      exact .inl ⟨rfl, rfl, rfl⟩
    | more x' o c rest =>
      cases h
      exact .inr (.inl ⟨by simp [operators], by simp⟩)
  | more x o c rest ih =>
    cases left' with
    | one x' =>
      cases h
      exact .inr (.inr ⟨by simp [operators], by simp⟩)
    | more x' o' c' rest' =>
      rw [append, append, more.injEq] at h
      obtain ⟨rfl, rfl, rfl, h⟩ := h
      rcases ih h with ⟨rfl, hop, hright⟩ | ⟨hop, hop'⟩ | ⟨hop', hop⟩
      · exact .inl ⟨rfl, hop, hright⟩
      · exact .inr (.inl ⟨List.mem_cons_of_mem _ hop, hop'⟩)
      · exact .inr (.inr ⟨List.mem_cons_of_mem _ hop', hop⟩)

end Chain

/-- An operator that the rule allows is not before another that it allows. -/
theorem IsLoosest.not_before {before before' after after' : List Operator} {op op' : Operator}
    (h : IsLoosest before op after) (h' : IsLoosest before' op' after') (hop : op ∈ before')
    (hop' : op' ∈ after) : False := by
  have hle := h.le op' (List.mem_append_right _ hop')
  have hle' := h'.le op (List.mem_append_left _ hop)
  have heq : op'.precedence = op.precedence := Nat.le_antisymm hle hle'
  have hright : op'.isRightAssociative = true := by
    cases hassoc : op.isRightAssociative with
    | false => exact h.groupsLeft hassoc op' hop' heq
    | true => exact (h.groupsRight hassoc).2 op' hop' heq
  exact (h'.groupsRight hright).1 op hop heq.symm

/-- The rule allows one split of a run. -/
theorem IsLoosest.unique {left left' right right' : Chain} {op op' : Operator}
    {column column' : Nat} (h : IsLoosest left.operators op right.operators)
    (h' : IsLoosest left'.operators op' right'.operators)
    (heq : left.append op column right = left'.append op' column' right') :
    left = left' ∧ op = op' ∧ right = right' := by
  rcases Chain.append_eq_append heq with hsame | ⟨hop, hop'⟩ | ⟨hop', hop⟩
  · exact hsame
  · exact (h.not_before h' hop hop').elim
  · exact (h'.not_before h hop' hop).elim

/-! ## The operator that the parser chooses -/

theorem IsLoosest.le_of_mem {before after : List Operator} {op : Operator}
    (h : IsLoosest before op after) :
    ∀ o ∈ before ++ op :: after, o.precedence ≤ op.precedence := by
  intro o ho
  rcases List.mem_append.1 ho with ho | ho
  · exact h.le o (List.mem_append_left _ ho)
  rcases List.mem_cons.1 ho with rfl | ho
  · exact Nat.le_refl _
  · exact h.le o (List.mem_append_right _ ho)

/-- An operator that the scan prefers to the one chosen so far is chosen by the rule. -/
theorem IsLoosest.concat_chosen {before after : List Operator} {op next : Operator}
    (h : IsLoosest before op after)
    (hnext : op.precedence < next.precedence
      ∨ op.precedence = next.precedence ∧ ¬ next.isRightAssociative) :
    IsLoosest (before ++ op :: after) next [] where
  le o ho := by
    rw [List.append_nil] at ho
    have := h.le_of_mem o ho
    omega
  groupsLeft _ := List.forall_mem_nil _
  groupsRight hassoc := by
    refine ⟨fun o ho ↦ ?_, List.forall_mem_nil _⟩
    have := h.le_of_mem o ho
    rcases hnext with hlt | ⟨-, hnot⟩
    · omega
    · exact absurd hassoc hnot

/-- The operator chosen so far stays the one chosen by the rule, if the scan does not prefer the
next one. -/
theorem IsLoosest.concat_kept {before after : List Operator} {op next : Operator}
    (h : IsLoosest before op after)
    (hnext : ¬ (op.precedence < next.precedence
      ∨ op.precedence = next.precedence ∧ ¬ next.isRightAssociative)) :
    IsLoosest before op (after ++ [next]) := by
  obtain ⟨hlt, hassoc⟩ := not_or.1 hnext
  have hequal : next.precedence = op.precedence → next.isRightAssociative = true := by
    intro heq
    simpa [heq] using hassoc
  have hafter : (∀ o ∈ after, o.precedence = op.precedence → o.isRightAssociative = true) →
      ∀ o ∈ after ++ [next], o.precedence = op.precedence → o.isRightAssociative = true := by
    intro hall o ho heq
    rcases List.mem_append.1 ho with ho | ho
    · exact hall o ho heq
    · rw [List.mem_singleton.1 ho] at heq ⊢
      exact hequal heq
  refine ⟨fun o ho ↦ ?_, fun hleft ↦ hafter (h.groupsLeft hleft), fun hright ↦ ?_⟩
  · rw [← List.append_assoc] at ho
    rcases List.mem_append.1 ho with ho | ho
    · exact h.le o ho
    · rw [List.mem_singleton.1 ho]
      exact Nat.not_lt.1 hlt
  · exact ⟨(h.groupsRight hright).1, hafter (h.groupsRight hright).2⟩

/-- The site that the parser keeps, by the sites before and after it. -/
theorem exists_isLoosest_of_foldl (sites : List (Nat × Operator)) {site : Nat × Operator}
    {before after : List (Nat × Operator)}
    (h : IsLoosest (before.map Prod.snd) site.2 (after.map Prod.snd)) :
    ∃ before' after', before ++ site :: (after ++ sites) =
        before' ++ sites.foldl looser site :: after' ∧
      IsLoosest (before'.map Prod.snd) (sites.foldl looser site).2 (after'.map Prod.snd) := by
  induction sites generalizing site before after with
  | nil => exact ⟨before, after, by simp, h⟩
  | cons next sites ih =>
    rw [List.foldl_cons]
    by_cases hif : site.2.precedence < next.2.precedence
        ∨ site.2.precedence = next.2.precedence ∧ ¬ next.2.isRightAssociative
    · have hlooser : looser site next = next := if_pos hif
      have hchosen := h.concat_chosen hif
      rw [← List.map_cons, ← List.map_append] at hchosen
      obtain ⟨before', after', heq, hrule⟩ := @ih next (before ++ site :: after) [] hchosen
      rw [hlooser]
      exact ⟨before', after', by simpa using heq, hrule⟩
    · have hlooser : looser site next = site := if_neg hif
      have hkept := h.concat_kept hif
      obtain ⟨before', after', heq, hrule⟩ :=
        @ih site before (after ++ [next]) (by rwa [List.map_append])
      rw [hlooser]
      exact ⟨before', after', by simpa using heq, hrule⟩

namespace Chain

/-- The operators of a run with their positions among its items, the first of which is at `k`. -/
def sitesFrom : Nat → Chain → List (Nat × Operator)
  | _, one _ => []
  | k, more _ op _ rest => (k + 1, op) :: rest.sitesFrom (k + 2)

theorem map_sitesFrom (c : Chain) (k : Nat) : (c.sitesFrom k).map Prod.snd = c.operators := by
  induction c using Chain.induction generalizing k with
  | one x => rfl
  | more x op column rest ih => rw [sitesFrom, List.map_cons, ih, operators]

/-- Where a run has an operator, it can be split. -/
theorem exists_eq_append {c : Chain} {k : Nat} {before after : List (Nat × Operator)}
    {site : Nat × Operator} (h : c.sitesFrom k = before ++ site :: after) :
    ∃ (left : Chain) (column : Nat) (right : Chain), c = left.append site.2 column right ∧
      site.1 = k + left.items.length ∧ left.operators = before.map Prod.snd ∧
      right.operators = after.map Prod.snd := by
  induction c using Chain.induction generalizing k before with
  | one x => simp [sitesFrom] at h
  | more x op column rest ih =>
    rw [sitesFrom] at h
    cases before with
    | nil =>
      obtain ⟨rfl, hrest⟩ := List.cons.inj h
      exact ⟨one x, column, rest, rfl, by simp [items], rfl, by rw [← hrest, map_sitesFrom]⟩
    | cons first before =>
      obtain ⟨rfl, hrest⟩ := List.cons.inj h
      obtain ⟨left, column', right, hc, hk, hbefore, hafter⟩ := ih hrest
      refine ⟨more x op column left, column', right, by rw [hc, append], ?_, ?_, hafter⟩
      · simp only [items, List.length_cons, hk]
        omega
      · rw [operators, hbefore, List.map_cons]

end Chain

section
variable {isBuiltin : String → Bool}

theorem Term.IsPlain.operator? {x : Term} (h : x.IsPlain isBuiltin) : x.item.operator? = none := by
  cases x with
  | group => rfl
  | token t =>
    have hcls : (t.cls == .operator) = false := by
      rcases h with h | h | h | ⟨h, -⟩ <;> rw [h] <;> rfl
    simp [Term.item, Item.operator?, hcls]

theorem Term.IsPlain.endsOperand {x : Term} (h : x.IsPlain isBuiltin) :
    x.item.endsOperand = true := by
  cases x with
  | group => rfl
  | token t => rcases h with h | h | h | ⟨h, -⟩ <;> simp [Term.item, Item.endsOperand, h]

theorem Operator.ofText?_text (op : Operator) : Operator.ofText? op.text = some op := by
  cases op <;> decide

theorem Operator.operator?_token (op : Operator) (column : Nat) :
    (Item.token (op.token column)).operator? = some op :=
  op.ofText?_text

/-- The parser may split a run at each of its operators. -/
theorem Chain.operatorSites_items {c : Chain} (h : c.IsPlain isBuiltin) (k : Nat) (ready : Bool) :
    operatorSites k ready c.items = c.sitesFrom k := by
  induction c using Chain.induction generalizing k ready with
  | one x =>
    rw [items, operatorSites, Term.IsPlain.operator? h]
    cases ready <;> rfl
  | more x op column rest ih =>
    rw [items, operatorSites, h.1.operator?, h.1.endsOperand, operatorSites,
      Operator.operator?_token, ih h.2.2, sitesFrom]
    cases ready <;> rfl

/-- The parser splits a run at the operator that the rule allows. -/
theorem Chain.exists_topOperator? {x : Term} {op : Operator} {column : Nat} {rest : Chain}
    (h : (more x op column rest).IsPlain isBuiltin) :
    ∃ (left : Chain) (op' : Operator) (column' : Nat) (right : Chain),
      more x op column rest = left.append op' column' right ∧
      IsLoosest left.operators op' right.operators ∧
      topOperator? (more x op column rest).items = some (left.items.length, op') := by
  rw [topOperator?, operatorSites_items h, sitesFrom, loosest?]
  have hfirst : IsLoosest [] op [] := ⟨List.forall_mem_nil _, fun _ ↦ List.forall_mem_nil _,
    fun _ ↦ ⟨List.forall_mem_nil _, List.forall_mem_nil _⟩⟩
  obtain ⟨before, after, heq, hrule⟩ :=
    @exists_isLoosest_of_foldl (rest.sitesFrom 2) (1, op) [] [] hfirst
  obtain ⟨left, column', right, hc, hk, hbefore, hafter⟩ :=
    @exists_eq_append (more x op column rest) 0 _ _ _ heq
  rw [← hbefore, ← hafter] at hrule
  refine ⟨left, _, column', right, hc, hrule, ?_⟩
  rw [Nat.zero_add] at hk
  rw [← hk]

/-! ## Brackets -/

theorem Item.gatherFrom_token {t : Token} (h : t.cls ≠ .paren) (source : Source)
    (stack : List Open) (done : List Item) (ts : List Token) :
    gatherFrom source stack done (t :: ts) = gatherFrom source stack (token t :: done) ts := by
  have hcls : (t.cls == .paren) = false := by simpa using h
  cases stack <;> simp [gatherFrom, hcls]

theorem Item.gatherFrom_open (bracket : Bracket) (source : Source) (stack : List Open)
    (done : List Item) (column : Nat) (ts : List Token) :
    gatherFrom source stack done (⟨bracket.opening, .paren, column⟩ :: ts) =
      gatherFrom source (⟨bracket, done⟩ :: stack) [] ts := by
  have hopening : Bracket.ofOpening? bracket.opening = some bracket := by
    cases bracket <;> decide
  cases stack <;> simp [gatherFrom, hopening]

theorem Item.gatherFrom_close (bracket : Bracket) (source : Source) (stack : List Open)
    (before done : List Item) (column : Nat) (ts : List Token) :
    gatherFrom source (⟨bracket, before⟩ :: stack) done (⟨bracket.closing, .paren, column⟩ :: ts) =
      gatherFrom source stack (group bracket done.reverse :: before) ts := by
  have hclosing : Bracket.ofOpening? bracket.closing = none := by
    cases bracket <;> decide
  simp [gatherFrom, hclosing]

theorem Item.gatherFrom_opening (source : Source) (stack : List Open) (done : List Item)
    (column : Nat) (ts : List Token) :
    gatherFrom source stack done (⟨"(", .paren, column⟩ :: ts) =
      gatherFrom source (⟨.round, done⟩ :: stack) [] ts :=
  gatherFrom_open .round source stack done column ts

theorem Item.gatherFrom_closing (source : Source) (stack : List Open) (before done : List Item)
    (column : Nat) (ts : List Token) :
    gatherFrom source (⟨.round, before⟩ :: stack) done (⟨")", .paren, column⟩ :: ts) =
      gatherFrom source stack (group .round done.reverse :: before) ts :=
  gatherFrom_close .round source stack before done column ts

mutual

theorem Term.gatherFrom_tokens (source : Source) : {x : Term} → x.IsPlain isBuiltin →
    (stack : List Item.Open) → (done : List Item) → (ts : List Token) →
    Item.gatherFrom source stack done (x.tokens ++ ts) =
      Item.gatherFrom source stack (x.item :: done) ts
  | .token t, h, stack, done, ts => by
    have hcls : t.cls ≠ .paren := by
      rcases h with h | h | h | ⟨h, -⟩
      all_goals
        rw [h]
        decide
    exact Item.gatherFrom_token hcls source stack done ts
  | .group opening closing run, h, stack, done, ts => by
    rw [Term.tokens, List.cons_append, Item.gatherFrom_opening, List.append_assoc,
      Chain.gatherFrom_tokens source h, List.singleton_append, Item.gatherFrom_closing,
      List.append_nil, List.reverse_reverse]
    rfl

theorem Chain.gatherFrom_tokens (source : Source) : {c : Chain} → c.IsPlain isBuiltin →
    (stack : List Item.Open) → (done : List Item) → (ts : List Token) →
    Item.gatherFrom source stack done (c.tokens ++ ts) =
      Item.gatherFrom source stack (c.items.reverse ++ done) ts
  | .one x, h, stack, done, ts => Term.gatherFrom_tokens source h stack done ts
  | .more x op column rest, h, stack, done, ts => by
    rw [Chain.tokens, List.append_assoc, Term.gatherFrom_tokens source h.1, List.cons_append,
      Item.gatherFrom_token (by simp [Operator.token]), Chain.gatherFrom_tokens source h.2.2,
      Chain.items]
    simp only [List.reverse_cons, List.append_assoc, List.cons_append, List.nil_append]

end

/-- The tokens of a run are gathered into its items. -/
theorem Chain.gather_tokens {c : Chain} (h : c.IsPlain isBuiltin) (source : Source) :
    Item.gather source c.tokens = .ok c.items := by
  have hgather := gatherFrom_tokens source h [] [] []
  rw [List.append_nil] at hgather
  rw [Item.gather, hgather, Item.gatherFrom, List.append_nil, List.reverse_reverse]

/-! ## Parsing -/

theorem Term.IsPlain.isReserved {x : Term} (h : x.IsPlain isBuiltin) :
    x.item.isReserved = false := by
  cases x with
  | group => rfl
  | token t =>
    rcases h with h | h | h | ⟨h, -, hreserved⟩
    all_goals simp [Term.item, Item.isReserved, Item.literal?, h]
    exact hreserved

theorem Term.IsPlain.literal? {x : Term} (h : x.IsPlain isBuiltin) :
    x.item.literal?.any isBuiltin = false := by
  cases x with
  | group => rfl
  | token t =>
    rcases h with h | h | h | ⟨h, hname, -⟩
    all_goals simp [Term.item, Item.literal?, h]
    exact hname

theorem Item.isWord_of_not_isReserved {i : Item} {word : String} (h : i.isReserved = false)
    (hword : isReservedWord word = true) : i.isWord word = false := by
  cases i with
  | group => rfl
  | token t =>
    rw [Item.isWord, Token.isWord]
    by_cases hcls : t.cls = .literal
    · by_cases htext : Text.upper t.text = word
      · simp [isReserved, literal?, hcls, htext, hword] at h
      · simp [htext]
    · simp [hcls]

/-- An expression of operands with operators between them is split at the operator chosen. -/
theorem parseExpression_split (source : Source) {head : Item} {rest : List Item} {k : Nat}
    {op : Operator} (hrest : rest ≠ []) (hreserved : head.isReserved = false)
    (hname : head.literal?.any isBuiltin = false)
    (htop : topOperator? (head :: rest) = some (k, op)) (hk : k ≠ 0)
    (hright : (head :: rest).drop (k + 1) ≠ []) (hop : op ≠ .lambda) :
    parseExpression isBuiltin source false (head :: rest) = (do
      let left ← parseExpression isBuiltin source false ((head :: rest).take k)
      let right ← parseExpression isBuiltin source false ((head :: rest).drop (k + 1))
      return .binary op left right) := by
  have hword : head.isWord "IF" = false := Item.isWord_of_not_isReserved hreserved (by decide)
  have hlambda : (op == .lambda) = false := by simpa using hop
  have hright' : ((head :: rest).drop (k + 1)).isEmpty = false := by simpa using hright
  rw [parseExpression_eq false (absurd · hrest), if_neg (by simp [hword]),
    if_neg (by simp [hname]), htop]
  simp only [parseSplit, if_neg hk, hright', hlambda, if_false, Bool.false_eq_true, Bool.false_and]

/-! ## The tree of a run -/

/-- Whether all number literals of a run have values. -/
def Chain.HasValues (c : Chain) : Prop :=
  ∀ t ∈ c.numerals, ∃ x, Numeral.value t.text = .ok x

/-- What may come of a run: its only tree, or the mishap of a number literal without a value. -/
def Chain.Outcome (c : Chain) (result : Parse Tree) : Prop :=
  c.HasValues ∧ (∃ t, result = .ok t ∧ c.Groups t ∧ ∀ t', c.Groups t' → t' = t) ∨
    ¬ c.HasValues ∧ ∃ mishap, result = .error (.stop (.mishap mishap))

theorem Chain.groups_one_iff {x : Term} {t : Tree} : (one x).Groups t ↔ x.Reads t := by
  constructor
  · intro h
    generalize hc : one x = c at h
    cases h with
    | one h =>
      cases hc
      exact h
    | @split left => cases left <;> cases hc
  · exact .one

theorem Chain.groups_append_iff {left right : Chain} {op : Operator} {column : Nat} {t : Tree}
    (hop : IsLoosest left.operators op right.operators) :
    (left.append op column right).Groups t ↔
      ∃ u v, t = .binary op u v ∧ left.Groups u ∧ right.Groups v := by
  constructor
  · intro h
    generalize hc : left.append op column right = c at h
    cases h with
    | one h => cases left <;> cases hc
    | split hop' hleft hright =>
      obtain ⟨rfl, rfl, rfl⟩ := hop.unique hop' hc
      exact ⟨_, _, rfl, hleft, hright⟩
  · rintro ⟨u, v, rfl, hleft, hright⟩
    exact .split hop hleft hright

theorem Chain.outcome_token {t : Token} (h : (Term.token t).IsPlain isBuiltin) :
    (one (.token t)).Outcome (tokenTree false t) := by
  have hothers : t.cls ≠ .number → (one (.token t)).HasValues := by
    intro hcls
    simp [HasValues, numerals, Term.numerals, hcls]
  simp only [Outcome, groups_one_iff]
  rcases h with hcls | hcls | hcls | ⟨hcls, -⟩
  · cases hx : Numeral.value t.text with
    | ok x =>
      refine .inl ⟨by simp [HasValues, numerals, Term.numerals, hcls, hx], .number x, ?_,
        .number hcls hx, ?_⟩
      · simp only [tokenTree, hcls, hx]
        rfl
      · intro t' ht'
        cases ht' <;> simp_all
    | error mishap =>
      refine .inr ⟨by simp [HasValues, numerals, Term.numerals, hcls, hx], mishap, ?_⟩
      simp only [tokenTree, hcls, hx]
      rfl
  · refine .inl ⟨hothers (by simp [hcls]), _, by simp only [tokenTree, hcls], .quoted hcls, ?_⟩
    intro t' ht'
    cases ht' <;> simp_all
  · refine .inl ⟨hothers (by simp [hcls]), _, by simp only [tokenTree, hcls], .boolean hcls, ?_⟩
    intro t' ht'
    cases ht' <;> simp_all
  · refine .inl ⟨hothers (by simp [hcls]), .ident (Text.upper t.text),
      by simp only [tokenTree, hcls]; rfl, .name hcls, ?_⟩
    intro t' ht'
    cases ht' <;> simp_all

theorem Chain.outcome_group {opening closing : Nat} {run : Chain} {result : Parse Tree}
    (h : run.Outcome result) : (one (.group opening closing run)).Outcome result := by
  have hgroups : ∀ t, (one (.group opening closing run)).Groups t ↔ run.Groups t := by
    intro t
    rw [groups_one_iff]
    constructor
    · intro hreads
      cases hreads
      assumption
    · exact .group
  simp only [Outcome, hgroups]
  exact h

theorem Chain.outcome_append {left right : Chain} {op : Operator} {column : Nat}
    {first second : Parse Tree} (hop : IsLoosest left.operators op right.operators)
    (hleft : left.Outcome first) (hright : right.Outcome second) :
    (left.append op column right).Outcome (do
      let t ← first
      let u ← second
      return .binary op t u) := by
  have hvalues : (left.append op column right).HasValues ↔ left.HasValues ∧ right.HasValues := by
    simp only [HasValues, numerals_append, List.forall_mem_append]
  rcases hleft with ⟨hl, t, rfl, ht, htunique⟩ | ⟨hl, mishap, rfl⟩
  · rcases hright with ⟨hr, u, rfl, hu, huunique⟩ | ⟨hr, mishap, rfl⟩
    · refine .inl ⟨hvalues.2 ⟨hl, hr⟩, .binary op t u, rfl, .split hop ht hu, ?_⟩
      intro t' ht'
      obtain ⟨t₁, u₁, rfl, ht₁, hu₁⟩ := (groups_append_iff hop).1 ht'
      rw [htunique t₁ ht₁, huunique u₁ hu₁]
    · exact .inr ⟨fun h ↦ hr (hvalues.1 h).2, mishap, rfl⟩
  · exact .inr ⟨fun h ↦ hl (hvalues.1 h).1, mishap, rfl⟩

theorem Chain.items_ne_nil (c : Chain) : c.items ≠ [] := by
  cases c with
  | one x => exact List.cons_ne_nil _ _
  | more x op column rest => exact List.cons_ne_nil _ _

/-- Parsing a run gives its only tree, or fails at a number literal without a value.  The induction
is on the number of tokens, as the parser splits the run anywhere. -/
theorem Chain.outcome_parseExpression (source : Source) : (c : Chain) → c.IsPlain isBuiltin →
    c.Outcome (parseExpression isBuiltin source false c.items)
  | .one (.token t), h => by
    rw [items, Term.item, parseExpression_token source (Term.IsPlain.isReserved h)]
    exact outcome_token h
  | .one (.group opening closing run), h => by
    have : Item.sizeOfRun run.items < Item.sizeOfRun (one (.group opening closing run)).items := by
      simp only [items, Term.item, Item.sizeOfRun_cons, Item.size_group]
      omega
    rw [items, Term.item, parseExpression]
    exact outcome_group (outcome_parseExpression source run h)
  | .more x op column rest, h => by
    obtain ⟨left, op', column', right, hc, hrule, htop⟩ := exists_topOperator? h
    have hitems : (more x op column rest).items =
        left.items ++ .token (op'.token column') :: right.items := by
      rw [hc, items_append]
    have hplain := h
    rw [hc, isPlain_append] at hplain
    have hleft : 0 < left.items.length := List.length_pos_iff.2 left.items_ne_nil
    have hsize : Item.sizeOfRun (more x op column rest).items =
        Item.sizeOfRun left.items + (1 + Item.sizeOfRun right.items) := by
      rw [hitems, Item.sizeOfRun_append, Item.sizeOfRun_cons, Item.size_token]
    have htake : (more x op column rest).items.take left.items.length = left.items := by
      rw [hitems, List.take_left]
    have hdrop : (more x op column rest).items.drop (left.items.length + 1) = right.items := by
      rw [hitems, ← List.drop_drop, List.drop_left, List.drop_one, List.tail_cons]
    have hsplit := parseExpression_split source (List.cons_ne_nil _ _) (Term.IsPlain.isReserved h.1)
      (Term.IsPlain.literal? h.1) htop (by omega) (by
        have := right.items_ne_nil
        rwa [← hdrop] at this) hplain.2.1
    have hfirst := outcome_parseExpression source left hplain.1
    have hsecond := outcome_parseExpression source right hplain.2.2
    rw [← htake] at hfirst
    rw [← hdrop] at hsecond
    rw [items, hsplit, hc]
    exact outcome_append hrule hfirst hsecond
termination_by c => Item.sizeOfRun c.items
decreasing_by all_goals omega

/-- A run of literals and plain names with operators between them is parsed into the only tree that
the precedence table allows, if all number literals in it have values.  Otherwise there is no
tree: the first literal without a value ends the parse with its mishap. -/
theorem Chain.parseExpression_chain {c : Chain} (h : c.IsPlain isBuiltin) (source : Source) :
    Item.gather source c.tokens = .ok c.items ∧
    (c.HasValues → ∃ t, parseExpression isBuiltin source false c.items = .ok t ∧ c.Groups t ∧
      ∀ t', c.Groups t' → t' = t) ∧
    (¬ c.HasValues → ∃ mishap,
      parseExpression isBuiltin source false c.items = .error (.stop (.mishap mishap))) := by
  refine ⟨gather_tokens h source, fun hvalues ↦ ?_, fun hvalues ↦ ?_⟩
  · rcases outcome_parseExpression source c h with ⟨-, htree⟩ | ⟨hnot, -⟩
    · exact htree
    · exact absurd hvalues hnot
  · rcases outcome_parseExpression source c h with ⟨hall, -⟩ | ⟨-, hmishap⟩
    · exact absurd hall hvalues
    · exact hmishap

end

namespace Chain

/-- `A - B * C - D`, in which the last of the loosest operators comes first. -/
def differences : Chain :=
  .more (.token ⟨"A", .literal, 0⟩) .minus 2 (.more (.token ⟨"B", .literal, 4⟩) .times 6
    (.more (.token ⟨"C", .literal, 8⟩) .minus 10 (.one (.token ⟨"D", .literal, 12⟩))))

theorem parseExpression_differences :
    differences.IsPlain (fun _ ↦ false) ∧ ∃ t,
      parseExpression (fun _ ↦ false) ⟨none, ""⟩ false differences.items = .ok t ∧
      differences.Groups t ∧ ∀ t', differences.Groups t' → t' = t := by
  have hplain : differences.IsPlain (fun _ ↦ false) := by
    simp only [differences, IsPlain, Term.IsPlain]
    decide
  exact ⟨hplain, (parseExpression_chain hplain _).2.1 (by simp [HasValues, differences, numerals,
    Term.numerals])⟩

/-- `0x_ + 1` is a run of plain operands that is not parsed. -/
theorem parseExpression_digitless :
    ¬ ∀ (isBuiltin : String → Bool) (source : Source) (c : Chain), c.IsPlain isBuiltin →
      ∃ t, parseExpression isBuiltin source false c.items = .ok t := by
  intro hall
  obtain ⟨t, ht⟩ := hall (fun _ ↦ false) ⟨none, ""⟩
    (.more (.token ⟨"0x_", .number, 0⟩) .plus 4 (.one (.token ⟨"1", .number, 6⟩)))
    (by simp [IsPlain, Term.IsPlain])
  have : parseExpression (fun _ ↦ false) ⟨none, ""⟩ false
      (more (.token ⟨"0x_", .number, 0⟩) .plus 4 (.one (.token ⟨"1", .number, 6⟩))).items =
      .error (.stop (.mishap (.undefined "no digits"))) := by
    cbv
  rw [this] at ht
  cases ht

end Chain

end LineBasic
