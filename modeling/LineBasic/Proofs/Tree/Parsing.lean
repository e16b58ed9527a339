import LineBasic.Proofs.Results
import LineBasic.Tree.Line

/-!
# Induction on parsing

The parsing functions call each other on parts of a run.  What all their trees have in common, and
all their refusals, is shown by one induction: it is enough that each form makes trees of the kind
of such trees, and refuses a run in such a way.  What is known of a run that is parsed is passed on
to its parts.

* `Meets` — results that are of a kind, whether they are values or failures.
* `eq_of_cutFirst?`, `eq_of_cutElse?`, `Item.isInfix_of_mem_cutAt` — the parts of a run.
* `parseExpression_eq` — how an expression is split.
* `Parse.Forms`, `Parse.Refusals` — a property of trees and one of refusals that all forms keep.
* `Parse.Invariant` — both, with what is known of the runs.
* `Parse.Invariant.meets_parseStatement` and its companions — each parsing function.
* `exists_run_of_parseTokens` — the statements of a line.
-/

set_option autoImplicit false
namespace LineBasic

/-! ## Results of a kind -/

/-- A result that is of one kind if it is a value, and of another kind if it is a failure. -/
inductive Meets {ε α : Type} (q : α → Prop) (p : ε → Prop) : Except ε α → Prop
  | ok {a : α} (h : q a) : Meets q p (.ok a)
  | error {e : ε} (h : p e) : Meets q p (.error e)

namespace Meets

variable {ε α β : Type} {q : α → Prop} {q' : β → Prop} {p : ε → Prop} {x y : Except ε α}

theorem of_ok {a : α} (h : Meets q p (.ok a)) : q a := by
  cases h with
  | ok h => exact h

theorem onlyFails (h : Meets q p x) : OnlyFails p x := by
  rintro e rfl
  cases h with
  | error h => exact h

theorem mono {r : α → Prop} (h : Meets q p x) (hq : ∀ a, q a → r a) : Meets r p x := by
  cases h with
  | ok h => exact .ok (hq _ h)
  | error h => exact .error h

/-- The second computation may know what the first one gave. -/
theorem bind_of_ok {f : α → Except ε β} (hx : Meets q p x)
    (hf : ∀ a, x = .ok a → q a → Meets q' p (f a)) : Meets q' p (x >>= f) := by
  cases hx with
  | ok h => exact hf _ rfl h
  | error h => exact .error h

theorem bind {f : α → Except ε β} (hx : Meets q p x) (hf : ∀ a, q a → Meets q' p (f a)) :
    Meets q' p (x >>= f) :=
  hx.bind_of_ok fun a _ ↦ hf a

theorem ite {c : Prop} [Decidable c] (hx : c → Meets q p x) (hy : ¬ c → Meets q p y) :
    Meets q p (if c then x else y) := by
  split
  · exact hx ‹_›
  · exact hy ‹_›

theorem mapM {f : β → Except ε α} {bs : List β} (h : ∀ b ∈ bs, Meets q p (f b)) :
    Meets (fun as ↦ ∀ a ∈ as, q a) p (bs.mapM f) := by
  induction bs with
  | nil => exact .ok (List.forall_mem_nil _)
  | cons b bs ih =>
    obtain ⟨hb, hbs⟩ := List.forall_mem_cons.1 h
    rw [List.mapM_cons]
    exact hb.bind fun a ha ↦ (ih hbs).bind fun as has ↦ .ok (List.forall_mem_cons.2 ⟨ha, has⟩)

theorem orTry {p : Refusal → Prop} {first : Parse α} {second : Unit → Parse α}
    (hfirst : Meets q p first) (hsecond : Meets q p (second ())) :
    Meets q p (first.orTry second) := by
  unfold Parse.orTry
  split
  · exact hsecond
  · exact hfirst

end Meets

/-! ## The parts of a run -/

namespace Item

theorem isPrefix_of_cutAt {cut : Item → Bool} {is first : List Item} {rest : List (List Item)}
    (h : (cutAt cut is).1 = first :: rest) : first <+: is := by
  induction is generalizing first rest with
  | nil =>
    cases h
    exact List.prefix_rfl
  | cons i is ih =>
    rcases hc : cutAt cut is with ⟨pieces, cuts⟩
    rw [hc] at ih
    simp only [cutAt, hc] at h
    split at h
    · cases h
      exact List.nil_prefix
    split at h
    · cases h
      exact (List.prefix_cons_inj i).2 (ih rfl)
    · cases h
      exact (List.prefix_cons_inj i).2 List.nil_prefix

/-- The pieces of a run stand together in it. -/
theorem isInfix_of_mem_cutAt {cut : Item → Bool} {is piece : List Item}
    (h : piece ∈ (cutAt cut is).1) : piece <:+: is := by
  induction is with
  | nil =>
    exact List.mem_singleton.1 h ▸ List.infix_rfl
  | cons i is ih =>
    have hcons {p : List Item} (hp : p <:+: is) : p <:+: i :: is :=
      hp.trans (List.suffix_cons i is).isInfix
    rcases hc : cutAt cut is with ⟨pieces, cuts⟩
    rw [hc] at ih
    have hfirst : ∀ {first rest}, (cutAt cut (i :: is)).1 = first :: rest → first <:+: i :: is :=
      fun hpieces ↦ (isPrefix_of_cutAt hpieces).isInfix
    simp only [cutAt, hc] at h hfirst
    split at h
    · rcases List.mem_cons.1 h with rfl | h
      · exact List.nil_infix
      · exact hcons (ih h)
    · rename_i hcut
      rw [if_neg hcut] at hfirst
      split at h
      · rcases List.mem_cons.1 h with rfl | h
        · exact hfirst rfl
        · exact hcons (ih (List.mem_cons_of_mem _ h))
      · rw [List.mem_singleton.1 h]
        exact hfirst rfl

end Item

/-- Where a run is cut at the first item of a kind. -/
theorem eq_of_cutFirst? {test : Item → Bool} {is before after : List Item} {cut : Item}
    (h : cutFirst? test is = some (before, cut, after)) :
    is = before ++ cut :: after ∧ test cut = true ∧ ∀ i ∈ before, test i = false := by
  induction is generalizing before with
  | nil => cases h
  | cons i is ih =>
    rw [cutFirst?] at h
    split at h
    · cases h
      exact ⟨rfl, ‹_›, List.forall_mem_nil _⟩
    · rename_i hi
      obtain ⟨⟨b, c, a⟩, hb, heq⟩ := Option.map_eq_some_iff.1 h
      cases heq
      obtain ⟨rfl, hcut, hbefore⟩ := ih hb
      exact ⟨rfl, hcut, List.forall_mem_cons.2 ⟨Bool.eq_false_iff.2 hi, hbefore⟩⟩

/-- Where a run is cut at an `ELSE`. -/
theorem eq_of_cutElse? {pending : Nat} {is before after : List Item}
    (h : cutElse? pending is = some (before, after)) : ∃ cut, is = before ++ cut :: after := by
  induction is generalizing before pending with
  | nil => cases h
  | cons i is ih =>
    have step : ∀ n, (cutElse? n is).map (fun p ↦ (i :: p.1, p.2)) = some (before, after) →
        ∃ cut, i :: is = before ++ cut :: after := by
      intro n hn
      obtain ⟨⟨b, a⟩, hb, heq⟩ := Option.map_eq_some_iff.1 hn
      cases heq
      obtain ⟨cut, rfl⟩ := ih hb
      exact ⟨cut, rfl⟩
    rw [cutElse?] at h
    split at h
    · exact step _ h
    split at h
    · split at h
      · cases h
        exact ⟨i, rfl⟩
      · exact step _ h
    · exact step _ h

theorem eq_of_wrapped? {items inside : List Item} (h : wrapped? items = some inside) :
    items = [.group .round inside] := by
  rw [wrapped?.eq_def] at h
  split at h
  · rw [Option.some.inj h]
  · cases h

/-! ## Expressions -/

section
variable {isBuiltin : String → Bool} {source : Source}

/-- What becomes of a run that is split at an operator. -/
def parseSplit (isBuiltin : String → Bool) (source : Source) (inCondition : Bool)
    (items : List Item) (k : Nat) (op : Operator) : Parse Tree :=
  let left := items.take k
  let right := items.drop (k + 1)
  if inCondition && op == .assign then
    Parse.fault source
      { kind := .syntaxError, message := "'=' used on IF, did you mean '=='?"
        received := some source.text }
  else if k = 0 then
    match UnaryOperator.ofOperator? op with
    | none => Parse.mismatch ("unknown unary operator '" ++ op.text ++ "'")
    | some unary =>
      if right.isEmpty then
        Parse.fault source
          { kind := .syntaxError, message := "Missing operand for '" ++ op.text ++ "'" }
      else return .unary unary (← parseExpression isBuiltin source false right)
  else if right.isEmpty then
    Parse.fault source
      { kind := .syntaxError
        message := "Missing right operand for '" ++ op.text ++ "'" }
  else if op == .lambda then do
    let names ← lambdaNames source left
    return .lambda names (← parseExpression isBuiltin source false right)
  else do
    let left ← parseExpression isBuiltin source false left
    let right ← parseExpression isBuiltin source false right
    return .binary op left right

/-- A run that is parsed by what it is: one pair of brackets, or one token that is no reserved
word. -/
theorem Item.eq_of_not_isReserved {head : Item} {rest : List Item}
    (h : ¬ (rest = [] → head.isReserved = true)) :
    rest = [] ∧ ((∃ bracket inside, head = .group bracket inside) ∨
      ∃ t, head = .token t ∧ (Item.token t).isReserved = false) := by
  obtain ⟨hrest, hhead⟩ := Classical.not_imp.1 h
  refine ⟨hrest, ?_⟩
  cases head with
  | group bracket inside => exact .inl ⟨bracket, inside, rfl⟩
  | token t => exact .inr ⟨t, rfl, Bool.eq_false_iff.2 hhead⟩

theorem parseExpression_token (source : Source) {inCondition : Bool} {t : Token}
    (h : (Item.token t).isReserved = false) :
    parseExpression isBuiltin source inCondition [.token t] = tokenTree false t := by
  rw [parseExpression]
  simp [h]

/-- How a run of items is parsed that is no pair of brackets and no single token but a reserved
word. -/
theorem parseExpression_eq (inCondition : Bool) {head : Item} {rest : List Item}
    (hgroup : rest = [] → head.isReserved = true) :
    parseExpression isBuiltin source inCondition (head :: rest) =
      if head.isWord "IF" then parseBranch isBuiltin source false (head :: rest)
      else if head.literal?.any isBuiltin && !opensRound rest then
        parseCall isBuiltin source (head :: rest)
      else match topOperator? (head :: rest) with
        | none => parseCall isBuiltin source (head :: rest)
        | some (k, op) => parseSplit isBuiltin source inCondition (head :: rest) k op := by
  rw [parseExpression.eq_def]
  simp only
  split
  · cases hgroup rfl
  · cases hgroup rfl
  · cases hgroup rfl
  split
  · rename_i t halone
    rw [Bool.and_eq_true, List.isEmpty_iff] at halone
    rw [hgroup halone.1] at halone
    cases halone.2
  · split
    · rfl
    · split
      · rfl
      · split
        · rename_i htop
          rw [htop]
        · rename_i htop
          rw [htop]
          rfl

end

/-! ## Invariants -/

/-- What is known of the runs of items that are parsed holds of their parts, and what is known of
the words that may be names of those in the runs. -/
structure Parse.Parts (run : List Item → Prop) (name : String → Prop) : Prop where
  part {items part : List Item} (h : run items) (hpart : part <:+: items) : run part
  inside {items inside : List Item} {bracket : Bracket} (h : run items)
    (hinside : .group bracket inside ∈ items) : run inside
  word {t : Token} (h : run [.token t]) (ht : t.cls = .literal ∨ t.cls = .operator) :
    name (Text.upper t.text)

/-- All ways in which a form refuses a run are of a kind. -/
structure Parse.Refusals (source : Source) (run : List Item → Prop) (refusal : Refusal → Prop) :
    Prop where
  mismatch (why : String) : refusal (.mismatch why)
  fault {f : Fault} (hkind : f.kind = .syntaxError ∨ f.kind = .duplicateDefinition)
    (hline : f.line = source.line) (hstatement : f.statement = none) : refusal (.stop (.fault f))
  mishap {t : Token} {mishap : Number.Mishap} (h : run [.token t]) (ht : t.cls = .number)
    (hvalue : Numeral.value t.text = .error mishap) : refusal (.stop (.mishap mishap))

/-- All forms make trees of a kind, statements or expressions, of such trees. -/
structure Parse.Forms (isBuiltin : String → Bool) (source : Source) (run : List Item → Prop)
    (name : String → Prop) (good : Bool → Tree → Prop) : Prop where
  statement {t : Tree} (h : good false t) : good true t
  null : good false .null
  number (x : Float) : good false (.number x)
  string (s : String) : good false (.string s)
  boolean (b : Bool) : good false (.boolean b)
  ident {n : String} (h : name n) : good false (.ident n)
  params (names : List String) : good false (.params names)
  unary (op : UnaryOperator) {t : Tree} (h : good false t) : good false (.unary op t)
  binary (op : Operator) {t u : Tree} (ht : good false t) (hu : good false u) :
    good false (.binary op t u)
  lambda (names : List String) {t : Tree} (h : good false t) : good false (.lambda names t)
  array {ts : List Tree} (h : ∀ t ∈ ts, good false t) : good false (.array ts)
  call {n : String} (hn : name n) {ts : List Tree} (h : ∀ t ∈ ts, good false t)
    (separators : List Separator) : good false (.call n ts separators)
  apply {t : Tree} (ht : good false t) {ts : List Tree} (h : ∀ t ∈ ts, good false t)
    (separators : List Separator) : good false (.apply t ts separators)
  /-- The declaration of an array is a call, although `DIM` need not be a name in the run. -/
  dim : name "DIM"
  define {n : String} (hn : name n) (names : List String) {t : Tree} (h : good false t) :
    good true (.define n names t)
  select {kind : JumpKind} (hkind : name kind.text) {t : Tree} (ht : good false t)
    {ts : List Tree} (h : ∀ t ∈ ts, good false t) : good false (.select kind t ts)
  branch {head cut : Item} {before after : List Item} {condition yes : Tree} {no : Option Tree}
    {asStatement : Bool} (h : run (head :: (before ++ cut :: after)))
    (hhead : head.isWord "IF" = true) (hcut : cut.isWord "THEN" = true)
    (hbefore : ∀ i ∈ before, i.isWord "THEN" = false)
    (hparse : parseExpression isBuiltin source true before = .ok condition)
    (hcondition : good false condition) (hyes : good asStatement yes)
    (hno : ∀ t ∈ no, good asStatement t) : good asStatement (.branch condition yes no)

/-- A property of trees and one of refusals that all forms of the parser keep. -/
structure Parse.Invariant (isBuiltin : String → Bool) (source : Source) (run : List Item → Prop)
    (name : String → Prop) (good : Bool → Tree → Prop) (refusal : Refusal → Prop) : Prop
    extends Parse.Parts run name, Parse.Refusals source run refusal,
      Parse.Forms isBuiltin source run name good

section
variable {isBuiltin : String → Bool} {source : Source} {run : List Item → Prop}

theorem Parse.Parts.all : Parse.Parts (fun _ ↦ True) fun _ ↦ True :=
  ⟨fun _ _ ↦ trivial, fun _ _ ↦ trivial, fun _ _ ↦ trivial⟩

theorem Parse.Refusals.all : Parse.Refusals source run fun _ ↦ True :=
  ⟨fun _ ↦ trivial, fun _ _ _ ↦ trivial, fun _ _ _ ↦ trivial⟩

theorem Parse.Forms.all : Parse.Forms isBuiltin source run (fun _ ↦ True) fun _ _ ↦ True := by
  constructor <;> intros <;> trivial

end

/-- A callee that is called by a name of a kind, or whose tree is of a kind. -/
def Callee.IsOf (name : String → Prop) (q : Tree → Prop) : Callee → Prop
  | .named n => name n
  | .tree t => q t

namespace Parse.Invariant

variable {isBuiltin : String → Bool} {source : Source} {run : List Item → Prop}
  {name : String → Prop} {good : Bool → Tree → Prop} {refusal : Refusal → Prop}
  (h : Parse.Invariant isBuiltin source run name good refusal)

include h

/-! ### Runs -/

theorem run_tail {head : Item} {rest : List Item} (hrun : run (head :: rest)) : run rest :=
  h.part hrun (List.suffix_cons head rest).isInfix

theorem run_before {before after : List Item} {cut : Item} (hrun : run (before ++ cut :: after)) :
    run before :=
  h.part hrun (List.prefix_append before _).isInfix

theorem run_after {before after : List Item} {cut : Item} (hrun : run (before ++ cut :: after)) :
    run after :=
  h.run_tail (h.part hrun (List.suffix_append before _).isInfix)

theorem run_single {items : List Item} {i : Item} (hrun : run items) (hi : i ∈ items) :
    run [i] := by
  obtain ⟨before, after, rfl⟩ := List.append_of_mem hi
  exact h.part hrun ⟨before, after, by simp⟩

/-- An item that is a word, whose name it is. -/
theorem name_of_isWord {i : Item} {w : String} (hrun : run [i]) (hi : i.isWord w = true) :
    name w := by
  cases i with
  | group bracket inside => cases hi
  | token t =>
    rw [Item.isWord, Token.isWord, Bool.and_eq_true, beq_iff_eq, beq_iff_eq] at hi
    exact hi.2 ▸ h.word hrun (.inl hi.1)

theorem name_of_literal? {i : Item} {w : String} (hrun : run [i]) (hi : i.literal? = some w) :
    name w := by
  cases i with
  | group bracket inside => cases hi
  | token t =>
    rw [Item.literal?] at hi
    split at hi
    · rename_i hcls
      exact Option.some.inj hi ▸ h.word hrun (.inl (eq_of_beq hcls))
    · cases hi

/-! ### Refusals and words -/

theorem meets_mismatch {α : Type} {q : α → Prop} (why : String) :
    Meets q refusal (Parse.mismatch why) :=
  .error (h.mismatch why)

theorem meets_fault {α : Type} {q : α → Prop} {f : Fault} (hkind : f.kind = .syntaxError)
    (hstatement : f.statement = none) : Meets q refusal (Parse.fault source f) :=
  .error (h.fault (.inl hkind) rfl hstatement)

theorem meets_tokenTree {asStatement : Bool} {t : Token} (hrun : run [.token t]) :
    Meets (good false) refusal (tokenTree asStatement t) := by
  have hname (hcls : t.cls = .literal ∨ t.cls = .operator) : Meets (good false) refusal (Except.ok
      (if asStatement then .call (Text.upper t.text) [] [] else .ident (Text.upper t.text))) := by
    cases asStatement with
    | true => exact .ok (h.call (h.word hrun hcls) (List.forall_mem_nil _) [])
    | false => exact .ok (h.ident (h.word hrun hcls))
  rw [tokenTree]
  split
  · exact .ok (h.string _)
  · rename_i hcls
    cases hvalue : Numeral.value t.text with
    | ok x => exact .ok (h.number x)
    | error mishap => exact .error (h.mishap hrun hcls hvalue)
  · exact .ok (h.boolean _)
  · exact hname (.inl ‹_›)
  · exact hname (.inr ‹_›)
  · exact h.meets_mismatch _

theorem meets_namesFrom (seen : List String) (pieces : List (List Item)) :
    Meets (fun _ ↦ True) refusal (namesFrom source seen pieces) := by
  fun_induction namesFrom source seen pieces with
  | case1 => exact .ok trivial
  | case2 => exact .error (h.fault (.inr rfl) rfl rfl)
  | case3 _ _ _ _ _ _ ih => exact ih
  | case4 => exact h.meets_mismatch _
  | case5 => exact h.meets_mismatch _

theorem meets_parameterNames (items : List Item) :
    Meets (fun _ ↦ True) refusal (parameterNames source items) :=
  .ite (fun _ ↦ .ok trivial) fun _ ↦ h.meets_namesFrom _ _

theorem meets_lambdaNames (items : List Item) :
    Meets (fun _ ↦ True) refusal (lambdaNames source items) := by
  rw [lambdaNames.eq_def]
  split
  · exact h.meets_parameterNames _
  · exact h.meets_parameterNames _
  · split
    · exact .ok trivial
    · exact h.meets_fault rfl rfl

/-! ### The parsing functions -/

/-- A run that is split at an operator, by what becomes of the parts. -/
theorem meets_parseSplit {inCondition : Bool} {items : List Item} {k : Nat} (op : Operator)
    (hleft : Meets (good false) refusal (parseExpression isBuiltin source false (items.take k)))
    (hright : Meets (good false) refusal
      (parseExpression isBuiltin source false (items.drop (k + 1)))) :
    Meets (good false) refusal (parseSplit isBuiltin source inCondition items k op) := by
  rw [parseSplit]
  refine .ite (fun _ ↦ h.meets_fault rfl rfl) fun _ ↦ .ite (fun _ ↦ ?_) fun _ ↦
    .ite (fun _ ↦ h.meets_fault rfl rfl) fun _ ↦ .ite (fun _ ↦ ?_) fun _ ↦ ?_
  · cases UnaryOperator.ofOperator? op with
    | none => exact h.meets_mismatch _
    | some unary =>
      exact .ite (fun _ ↦ h.meets_fault rfl rfl) fun _ ↦
        hright.bind fun _ ht ↦ .ok (h.unary unary ht)
  · exact (h.meets_lambdaNames _).bind fun names _ ↦ hright.bind fun _ ht ↦ .ok (h.lambda names ht)
  · exact hleft.bind fun _ ht ↦ hright.bind fun _ hu ↦ .ok (h.binary op ht hu)

theorem good_calleeCall {callee : Callee} (hcallee : callee.IsOf name (good false))
    {args : List Tree} (hargs : ∀ t ∈ args, good false t) (separators : List Separator) :
    good false (callee.call args separators) := by
  cases callee with
  | named n => exact h.call hcallee hargs separators
  | tree t => exact h.apply hcallee hargs separators

-- The induction is the recursion of the parser: on the number of tokens of a run, and on the rank
-- of the function where the run stays the same.
set_option linter.unusedSectionVars false in
mutual

theorem meets_parseStatement : (items : List Item) → run items →
    Meets (fun r ↦ ∀ t ∈ r, good true t) refusal (parseStatement isBuiltin source items)
  | [], _ => by
    rw [parseStatement]
    exact .ok fun t ht ↦ Option.some.inj ht ▸ h.statement h.null
  | head :: rest, hrun => by
    have hsome {x : Parse Tree} (hx : Meets (good true) refusal x) :
        Meets (fun r ↦ ∀ t ∈ r, good true t) refusal (do return some (← x)) :=
      hx.bind fun t ht ↦ .ok fun u hu ↦ Option.some.inj hu ▸ ht
    have hexpression {x : Parse Tree} (hx : Meets (good false) refusal x) :
        Meets (fun r ↦ ∀ t ∈ r, good true t) refusal (do return some (← x)) :=
      hsome (hx.mono fun _ ↦ h.statement)
    rw [parseStatement.eq_def]
    simp only
    split
    · cases ‹_ = []›
    · rename_i t heq
      cases heq
      exact hexpression (h.meets_tokenTree hrun)
    rename_i heq
    cases heq
    refine .ite (fun _ ↦ .ok nofun) fun _ ↦ ?_
    refine .orTry (hsome (meets_parseBranch _ hrun)) ?_
    refine .orTry (hsome (meets_parseDefine _ hrun)) ?_
    refine .orTry (hexpression (meets_parseDim _ hrun)) ?_
    refine .orTry (hexpression (meets_parseSelect _ hrun)) ?_
    split
    · rename_i inside hw
      have := size_of_wrapped? hw
      rw [eq_of_wrapped? hw] at hrun
      exact meets_parseStatement inside (h.inside hrun (List.mem_singleton_self _))
    · exact hexpression (meets_parseExpression _ hrun)
termination_by items => 5 * Item.sizeOfRun items + 3
decreasing_by all_goals omega

theorem meets_parseDefine : (items : List Item) → run items →
    Meets (good true) refusal (parseDefine isBuiltin source items)
  | [], _ => by
    rw [parseDefine]
    exact h.meets_mismatch _
  | head :: rest, hrun => by
    rw [parseDefine.eq_def]
    simp only
    refine .ite (fun _ ↦ h.meets_mismatch _) fun _ ↦ ?_
    by_cases hform : ∃ name inside equals body,
        rest = .token name :: .group .round inside :: equals :: body
    · obtain ⟨word, inside, equals, body, hrest⟩ := hform
      have : Item.sizeOfRun body < Item.sizeOfRun rest := by
        rw [hrest, Item.sizeOfRun_cons, Item.sizeOfRun_cons, Item.sizeOfRun_cons, Item.size_group]
        omega
      rw [hrest] at hrun ⊢
      simp only
      refine .ite (fun _ ↦ h.meets_fault rfl rfl) fun hword ↦
        .ite (fun _ ↦ h.meets_fault rfl rfl) fun _ ↦ .ite (fun _ ↦ h.meets_fault rfl rfl) fun _ ↦ ?_
      have hname : name (Text.upper word.text) :=
        h.word (h.run_single hrun (by simp)) (.inl (by simpa using hword))
      have hbody := h.run_tail (h.run_tail (h.run_tail (h.run_tail hrun)))
      exact (h.meets_parameterNames inside).bind fun names _ ↦
        (meets_parseExpression body hbody).bind fun _ ht ↦ .ok (h.define hname names ht)
    split
    · refine .ite (fun _ ↦ h.meets_fault rfl rfl) fun _ ↦ ?_
      split
      · exact h.meets_fault rfl rfl
      · exact absurd ⟨_, _, _, _, rfl⟩ hform
    · exact h.meets_fault rfl rfl
termination_by items => 5 * Item.sizeOfRun items
decreasing_by
  simp only [Item.sizeOfRun_cons]
  omega

theorem meets_parseDim : (items : List Item) → run items →
    Meets (good false) refusal (parseDim isBuiltin source items)
  | items, hrun => by
    by_cases hform : ∃ head name inside, items = [head, .token name, .group .round inside]
    · obtain ⟨head, word, inside, hitems⟩ := hform
      have : Item.sizeOfRun inside + 3 ≤ Item.sizeOfRun items := by
        rw [hitems, Item.sizeOfRun_cons, Item.sizeOfRun_cons, Item.sizeOfRun_cons, Item.size_group,
          Item.size_token]
        omega
      rw [hitems] at hrun
      rw [hitems, parseDim]
      refine .ite (fun hword ↦ ?_) fun _ ↦ h.meets_mismatch _
      have hname : name (Text.upper word.text) :=
        h.word (h.run_single hrun (by simp)) (.inl (by simp_all))
      have hinside : run inside :=
        h.inside hrun (show Item.group .round inside ∈ _ by simp)
      refine (meets_parseArguments inside hinside).bind fun args hargs ↦ ?_
      exact .ite (fun _ ↦ h.meets_fault rfl rfl) fun _ ↦
        .ok (h.binary .assign (h.ident hname) (h.call h.dim hargs args.2))
    · rw [parseDim]
      · exact h.meets_mismatch _
      · exact fun head name inside hitems ↦ hform ⟨head, name, inside, hitems⟩
termination_by items => 5 * Item.sizeOfRun items
decreasing_by omega

theorem meets_parseSelect : (items : List Item) → run items →
    Meets (good false) refusal (parseSelect isBuiltin source items)
  | [], _ => by
    rw [parseSelect]
    exact h.meets_mismatch _
  | head :: rest, hrun => by
    rw [parseSelect.eq_def]
    simp only
    refine .ite (fun _ ↦ h.meets_mismatch _) fun _ ↦ ?_
    split
    · exact h.meets_fault rfl rfl
    rename_i before jump after hcut
    have := size_of_cutFirst? hcut
    obtain ⟨hrest, hjump, -⟩ := eq_of_cutFirst? hcut
    have hrest : run (before ++ jump :: after) := hrest ▸ h.run_tail hrun
    have hkind : name (if jump.isWord "GOTO" then JumpKind.goto else JumpKind.gosub).text := by
      have hsingle : run [jump] := h.run_single hrest (by simp)
      split
      · exact h.name_of_isWord hsingle ‹_›
      · exact h.name_of_isWord hsingle ((Bool.or_eq_true _ _ ▸ hjump).resolve_left ‹_›)
    refine (meets_parseExpression before (h.run_before hrest)).bind fun _ htest ↦ ?_
    refine .ite (fun _ ↦ h.meets_fault rfl rfl) fun _ ↦ ?_
    exact (meets_parsePieces after (h.run_after hrest)).bind fun _ htargets ↦
      .ok (h.select hkind htest htargets)
termination_by items => 5 * Item.sizeOfRun items
decreasing_by
  all_goals
    simp only [Item.sizeOfRun_cons]
    omega

theorem meets_parseBranch : {asStatement : Bool} → (items : List Item) → run items →
    Meets (good asStatement) refusal (parseBranch isBuiltin source asStatement items)
  | asStatement, [], _ => by
    rw [parseBranch]
    exact h.meets_mismatch _
  | asStatement, head :: rest, hrun => by
    rw [parseBranch.eq_def]
    simp only
    refine .ite (fun _ ↦ h.meets_mismatch _) fun hhead ↦ ?_
    split
    · exact h.meets_fault rfl rfl
    rename_i before cut after hcut
    have := size_of_cutFirst? hcut
    obtain ⟨hrest, hthen, hbefore⟩ := eq_of_cutFirst? hcut
    rw [hrest] at hrun
    have hafter := h.run_after (h.run_tail hrun)
    refine (meets_parseExpression before (h.run_before (h.run_tail hrun))).bind_of_ok
      fun condition hparse hcondition ↦ .ite (fun _ ↦ h.meets_fault rfl rfl) fun _ ↦ ?_
    have hbranch {yes : Tree} {no : Option Tree} (hyes : good asStatement yes)
        (hno : ∀ t ∈ no, good asStatement t) : good asStatement (.branch condition yes no) :=
      h.branch hrun (by simpa using hhead) hthen hbefore hparse hcondition hyes hno
    split
    · exact (meets_parseArm after hafter).bind fun _ hyes ↦ .ok (hbranch hyes nofun)
    · rename_i first second helse
      have := size_of_cutElse? helse
      obtain ⟨cutElse, rfl⟩ := eq_of_cutElse? helse
      exact (meets_parseArm first (h.run_before hafter)).bind fun _ hyes ↦
        (meets_parseArm second (h.run_after hafter)).bind fun _ hno ↦
          .ok (hbranch hyes fun t ht ↦ Option.some.inj ht ▸ hno)
termination_by _ items => 5 * Item.sizeOfRun items
decreasing_by
  all_goals
    simp only [Item.sizeOfRun_cons]
    omega

theorem meets_parseArm : {asStatement : Bool} → (items : List Item) → run items →
    Meets (good asStatement) refusal (parseArm isBuiltin source asStatement items)
  | true, items, hrun => by
    rw [parseArm.eq_def]
    refine (meets_parseStatement items hrun).bind fun r hr ↦ .ok ?_
    cases r with
    | none => exact h.statement h.null
    | some t => exact hr t rfl
  | false, items, hrun => by
    rw [parseArm.eq_def]
    exact meets_parseExpression items hrun
termination_by _ items => 5 * Item.sizeOfRun items + 4
decreasing_by all_goals omega

theorem meets_parseExpression : {inCondition : Bool} → (items : List Item) → run items →
    Meets (good false) refusal (parseExpression isBuiltin source inCondition items)
  | inCondition, [], _ => by
    rw [parseExpression]
    exact .ok h.null
  | inCondition, head :: rest, hrun => by
    by_cases hgroup : rest = [] → head.isReserved = true
    · rw [parseExpression_eq inCondition hgroup]
      refine .ite (fun _ ↦ meets_parseBranch _ hrun) fun _ ↦
        .ite (fun _ ↦ meets_parseCall _ hrun) fun _ ↦ ?_
      split
      · exact meets_parseCall _ hrun
      rename_i k op htop
      have hk := topOperator?_lt htop
      have := Item.sizeOfRun_take_lt hk
      have := Item.sizeOfRun_drop_succ_lt hk
      exact h.meets_parseSplit op
        (meets_parseExpression _ (h.part hrun (List.take_prefix k _).isInfix))
        (meets_parseExpression _ (h.part hrun (List.drop_suffix (k + 1) _).isInfix))
    obtain ⟨hrest, ⟨bracket, inside, hhead⟩ | ⟨t, hhead, hreserved⟩⟩ :=
      Item.eq_of_not_isReserved hgroup
    · have : Item.sizeOfRun inside < Item.sizeOfRun (head :: rest) := by
        rw [hhead, Item.sizeOfRun_cons, Item.size_group]
        omega
      rw [hhead, hrest] at hrun ⊢
      have hinside := h.inside hrun (List.mem_singleton_self _)
      cases bracket with
      | round =>
        rw [parseExpression]
        exact meets_parseExpression inside hinside
      | square =>
        rw [parseExpression]
        exact (h.meets_parameterNames inside).bind fun names _ ↦ .ok (h.params names)
      | curly =>
        rw [parseExpression]
        exact meets_parseArray inside hinside
    · rw [hhead, hrest] at hrun ⊢
      rw [parseExpression_token source hreserved]
      exact h.meets_tokenTree hrun
termination_by _ items => 5 * Item.sizeOfRun items + 1
decreasing_by
  all_goals
    simp only [Item.sizeOfRun_cons] at *
    omega

theorem meets_parseArray : (inside : List Item) → run inside →
    Meets (good false) refusal (parseArray isBuiltin source inside)
  | inside, hrun => by
    rw [parseArray.eq_def]
    refine .ite (fun _ ↦ .ok (h.array (List.forall_mem_nil _))) fun _ ↦
      .ite (fun _ ↦ h.meets_fault rfl rfl) fun _ ↦ ?_
    exact (meets_parsePieces inside hrun).bind fun _ hts ↦ .ok (h.array hts)
termination_by inside => 5 * Item.sizeOfRun inside + 3
decreasing_by all_goals omega

theorem meets_parsePieces : (items : List Item) → run items →
    Meets (fun ts ↦ ∀ t ∈ ts, good false t) refusal (parsePieces isBuiltin source items)
  | items, hrun => by
    rw [parsePieces.eq_def]
    refine .mapM fun ⟨piece, hpiece⟩ _ ↦ ?_
    have := Item.sizeOfRun_le_of_mem_cutAt hpiece
    exact meets_parseExpression piece (h.part hrun (Item.isInfix_of_mem_cutAt hpiece))
termination_by items => 5 * Item.sizeOfRun items + 2
decreasing_by omega

theorem meets_parseArguments : (items : List Item) → run items →
    Meets (fun args ↦ ∀ t ∈ args.1, good false t) refusal (parseArguments isBuiltin source items)
  | items, hrun => by
    rw [parseArguments.eq_def]
    exact .ite (fun _ ↦ .ok nofun) fun _ ↦
      (meets_parsePieces items hrun).bind fun _ hts ↦ .ok hts
termination_by items => 5 * Item.sizeOfRun items + 3
decreasing_by omega

theorem meets_parseCall : (items : List Item) → run items →
    Meets (good false) refusal (parseCall isBuiltin source items)
  | [], _ => by
    rw [parseCall]
    exact h.meets_mismatch _
  | head :: rest, hrun => by
    have := head.size_pos
    have hrest := h.run_tail hrun
    by_cases hround : ∃ inside, head = .group .round inside
    · obtain ⟨inside, hhead⟩ := hround
      have : head.size = 2 + Item.sizeOfRun inside := by rw [hhead, Item.size_group]
      rw [hhead] at hrun
      rw [hhead, parseCall]
      refine (meets_parseExpression inside (h.inside hrun (List.mem_cons_self ..))).bind
        fun callee hcallee ↦ ?_
      exact .ite (fun _ ↦ meets_parseChain rest hcallee hrest) fun _ ↦ h.meets_mismatch _
    rw [parseCall.eq_3 _ _ _ _ fun inside h ↦ hround ⟨inside, h⟩]
    simp only
    split
    · exact h.meets_mismatch _
    rename_i word hliteral
    have hname : name word :=
      h.name_of_literal? (h.run_single hrun (List.mem_cons_self ..)) hliteral
    have hplain : Meets (good false) refusal (do
        let (args, separators) ← parseArguments isBuiltin source rest
        return Tree.call word args separators) :=
      (meets_parseArguments rest hrest).bind fun args hargs ↦ .ok (h.call hname hargs args.2)
    exact .ite (fun _ ↦ .orTry (meets_parseChain rest hname hrest) hplain) fun _ ↦ hplain
termination_by items => 5 * Item.sizeOfRun items
decreasing_by
  all_goals
    simp only [Item.sizeOfRun_cons]
    omega

theorem meets_parseChain : {callee : Callee} → (items : List Item) →
    callee.IsOf name (good false) → run items →
    Meets (good false) refusal (parseChain isBuiltin source callee items)
  | callee, [], _, _ => by
    rw [parseChain]
    · exact h.meets_mismatch _
    · nofun
  | callee, head :: rest, hcallee, hrun => by
    have := head.size_pos
    have hrest := h.run_tail hrun
    by_cases hround : ∃ inside, head = .group .round inside
    · obtain ⟨inside, hhead⟩ := hround
      have : head.size = 2 + Item.sizeOfRun inside := by rw [hhead, Item.size_group]
      rw [hhead] at hrun
      rw [hhead, parseChain]
      refine (meets_parseArguments inside (h.inside hrun (List.mem_cons_self ..))).bind
        fun args hargs ↦ ?_
      have hcall := h.good_calleeCall hcallee hargs args.2
      exact .ite (fun _ ↦ .ok hcall) fun _ ↦ meets_parseChain rest hcall hrest
    · rw [parseChain]
      · exact h.meets_mismatch _
      · intro inside tail hitems
        exact hround ⟨inside, (List.cons.inj hitems).1⟩
termination_by _ items => 5 * Item.sizeOfRun items
decreasing_by
  all_goals
    simp only [Item.sizeOfRun_cons]
    omega

end

theorem good_of_parseStatement {items : List Item} {t : Tree} (hrun : run items)
    (hparse : parseStatement isBuiltin source items = .ok (some t)) : good true t := by
  have hmeets := h.meets_parseStatement items hrun
  rw [hparse] at hmeets
  exact hmeets.of_ok t rfl

end Parse.Invariant

/-! ## Lines -/

theorem parseStatement_of_parseTopStatement {isBuiltin : String → Bool} {source : Source}
    {items : List Item} {r : Option Tree} (h : parseTopStatement isBuiltin source items = .ok r) :
    parseStatement isBuiltin source items = .ok r := by
  rw [parseTopStatement] at h
  split at h
  · cases h
  split at h
  · rename_i hparse
    rw [hparse, Except.ok.inj h]
  · cases h
  · cases h

/-- A statement of a line is that of a run of its items. -/
theorem exists_run_of_parseTokens {isBuiltin : String → Bool} {line : Option Int}
    {tokens : List Token} {statements : List (Option Tree)} {r : Option Tree}
    (h : parseTokens isBuiltin line tokens = .ok statements) (hr : r ∈ statements) :
    ∃ items run, Item.gather ⟨line, joinTexts tokens⟩ tokens = .ok items ∧ run <:+: items ∧
      parseStatement isBuiltin ⟨line, joinTexts tokens⟩ run = .ok r := by
  rw [parseTokens] at h
  split at h
  · cases h
    cases hr
  obtain ⟨items, hgather, h⟩ := bind_eq_ok.1 h
  have hruns : ∀ r ∈ statements, ∃ run, run <:+: items ∧
      parseStatement isBuiltin ⟨line, joinTexts tokens⟩ run = .ok r :=
    forall_mem_of_mapM h fun piece hpiece r hr ↦
      ⟨piece, Item.isInfix_of_mem_cutAt hpiece, parseStatement_of_parseTopStatement hr⟩
  obtain ⟨run, hrun, hparse⟩ := hruns r hr
  exact ⟨items, run, mapError_eq_ok.1 hgather, hrun, hparse⟩

end LineBasic
