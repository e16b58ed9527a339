import LineBasic.Proofs.Tree.Requoting

/-!
# Quoted texts

What stands between quotes plays no part in how a line is parsed.  With other quoted texts, a line
has the same trees but for these texts, or it is rejected in the same way, but for what the fault
quotes from the line.  There is one exception.  A definition has its equals sign behind its
parameters, and there a quoted `=` is taken for the sign.

* `Fault.outline` — a fault without what it quotes.
* `Recast` — results that correspond, up to what failures quote.
* `BlendsIn` — texts that the parser cannot tell from those that they replace.
* `recast_parseStatement` and its companions — each parsing function.
* `parseTokens_requoted` — a line with other quoted texts.
* `parseTokens_replaceText` — a line with another text in one place.
-/

set_option autoImplicit false
namespace LineBasic

/-! ## Results that correspond -/

/-- A fault without what it quotes from the source. -/
def Fault.outline (f : Fault) : Fault :=
  { f with context := f.context.map fun _ ↦ "", received := f.received.map fun _ ↦ "" }

/-- A stop without what its fault quotes from the source. -/
def Stop.outline : Stop → Stop
  | .fault f => .fault f.outline
  | stop => stop

/-- A refusal without what it quotes from the source. -/
def Refusal.outline : Refusal → Refusal
  | .mismatch _ => .mismatch ""
  | .stop s => .stop s.outline

/-- Two results of which the second has the value that is made of the first one's, or failed like it
but for what the failure quotes. -/
inductive Recast {ε α β : Type} (outline : ε → ε) (g : α → β) : Except ε α → Except ε β → Prop
  | ok (a : α) : Recast outline g (.ok a) (.ok (g a))
  | error {e e' : ε} (h : outline e' = outline e) : Recast outline g (.error e) (.error e')

namespace Recast

variable {ε α β α' β' : Type} {outline : ε → ε} {g : α → β} {g' : α' → β'}
  {x : Except ε α} {x' : Except ε β}

theorem bind_of_ok {p : α → Except ε α'} {p' : β → Except ε β'} (hx : Recast outline g x x')
    (hp : ∀ a, x = .ok a → Recast outline g' (p a) (p' (g a))) :
    Recast outline g' (x >>= p) (x' >>= p') := by
  cases hx with
  | ok a => exact hp a rfl
  | error h => exact .error h

theorem bind {p : α → Except ε α'} {p' : β → Except ε β'} (hx : Recast outline g x x')
    (hp : ∀ a, Recast outline g' (p a) (p' (g a))) : Recast outline g' (x >>= p) (x' >>= p') :=
  bind_of_ok hx fun a _ ↦ hp a

theorem ite {c : Prop} [Decidable c] {y : Except ε α} {y' : Except ε β}
    (hx : c → Recast outline g x x') (hy : ¬ c → Recast outline g y y') :
    Recast outline g (if c then x else y) (if c then x' else y') := by
  split
  · exact hx ‹_›
  · exact hy ‹_›

theorem mapM {γ : Type} {p : γ → Except ε α} {p' : γ → Except ε β} {cs : List γ}
    (h : ∀ c ∈ cs, Recast outline g (p c) (p' c)) :
    Recast outline (List.map g) (cs.mapM p) (cs.mapM p') := by
  induction cs with
  | nil => exact .ok []
  | cons c cs ih =>
    obtain ⟨hc, hcs⟩ := List.forall_mem_cons.1 h
    rw [List.mapM_cons, List.mapM_cons]
    exact bind hc fun a ↦ bind (ih hcs) fun as ↦ .ok (a :: as)

theorem mapError {ε' : Type} {k : ε → ε'} {outline' : ε' → ε'} (h : Recast outline g x x')
    (hk : ∀ e e', outline e' = outline e → outline' (k e') = outline' (k e)) :
    Recast outline' g (x.mapError k) (x'.mapError k) := by
  cases h with
  | ok a => exact .ok a
  | error h => exact .error (hk _ _ h)

theorem orTry {x y : Parse α} {y' x' : Parse β} (hx : Recast Refusal.outline g x x')
    (hy : Recast Refusal.outline g y y') :
    Recast Refusal.outline g (x.orTry fun _ ↦ y) (x'.orTry fun _ ↦ y') := by
  cases hx with
  | ok a => exact .ok a
  | @error e e' h =>
    cases e with
    | mismatch why =>
      cases e' with
      | mismatch why' => exact hy
      | stop s => cases h
    | stop s =>
      cases e' with
      | mismatch why' => cases h
      | stop s' => exact .error h

theorem mismatch (why why' : String) :
    Recast Refusal.outline g (Parse.mismatch why) (Parse.mismatch why') :=
  .error rfl

theorem fault {source source' : Source} (hsource : source'.line = source.line) {f f' : Fault}
    (h : f'.outline = f.outline) :
    Recast Refusal.outline g (Parse.fault source f) (Parse.fault source' f') := by
  have hplaced (source : Source) (f : Fault) :
      Refusal.outline (.stop (.fault { f with
        line := source.line, context := some (f.context.getD source.text) })) =
      .stop (.fault { f.outline with line := source.line, context := some "" }) := rfl
  refine .error ?_
  rw [hplaced, hplaced, hsource, h]

theorem ofNumber (y : Except Number.Mishap α) :
    Recast Refusal.outline id (Parse.ofNumber y) (Parse.ofNumber y) := by
  cases y with
  | ok a => exact .ok a
  | error mishap => exact .error rfl

end Recast

/-! ## The parser -/

/-- Whether the parser cannot tell other quoted texts of some tokens from their own.  It looks at
quoted texts in definitions only, and there for an equals sign. -/
def BlendsIn (f : String → String) (tokens : List Token) : Prop :=
  (∀ t ∈ tokens, t.isWord "DEFUN" = false) ∨
    ∀ t ∈ tokens, t.cls = .quoted → (f t.text = "=" ↔ t.text = "=")

section
variable {f : String → String} {tokens : List Token} {source source' : Source}
  {isBuiltin : String → Bool}

theorem recast_tokenTree (asStatement : Bool) (t : Token) :
    Recast Refusal.outline (Tree.requote f) (tokenTree asStatement t)
      (tokenTree asStatement (t.requote f)) := by
  have hname (name : String) : Recast Refusal.outline (Tree.requote f)
      (.ok (if asStatement then .call name [] [] else .ident name))
      (.ok (if asStatement then .call name [] [] else .ident name)) := by
    cases asStatement with
    | true => exact .ok (Tree.call name [] [])
    | false => exact .ok (Tree.ident name)
  by_cases hquoted : t.cls = .quoted
  · rw [tokenTree, tokenTree, t.cls_requote, hquoted, Token.requote, if_pos hquoted]
    exact .ok (Tree.string t.text)
  · rw [t.requote_of_not_quoted hquoted, tokenTree]
    split
    · exact absurd ‹_› hquoted
    · exact .bind (.ofNumber _) fun x ↦ .ok (Tree.number x)
    · exact .ok (Tree.boolean _)
    · exact hname _
    · exact hname _
    · exact .mismatch _ _

section
variable (hsource : source'.line = source.line)

include hsource

theorem recast_namesFrom (seen : List String) (pieces : List (List Item)) :
    Recast Refusal.outline id (namesFrom source seen pieces)
      (namesFrom source' seen (pieces.map (Item.requoteRun f))) := by
  induction pieces generalizing seen with
  | nil => exact .ok seen
  | cons piece pieces ih =>
    match piece with
    | [] => exact .mismatch _ _
    | [i] =>
      rw [List.map_cons, Item.requoteRun_cons, Item.requoteRun_nil, namesFrom, namesFrom,
        i.literal?_requote]
      cases i.literal? with
      | none => exact .mismatch _ _
      | some name =>
        refine .ite (fun _ ↦ .error ?_) fun _ ↦ ih _
        simp [Refusal.outline, Stop.outline, Fault.outline, duplicateParameter, hsource]
    | _ :: _ :: _ => exact .mismatch _ _

theorem recast_parameterNames (items : List Item) :
    Recast Refusal.outline id (parameterNames source items)
      (parameterNames source' (Item.requoteRun f items)) := by
  rw [parameterNames, parameterNames, Item.isEmpty_requoteRun, Item.separated_requoteRun]
  exact .ite (fun _ ↦ .ok []) fun _ ↦ recast_namesFrom hsource _ _

theorem recast_lambdaNames (items : List Item) :
    Recast Refusal.outline id (lambdaNames source items)
      (lambdaNames source' (Item.requoteRun f items)) := by
  by_cases hsquare : ∃ inside, items = [.group .square inside]
  · obtain ⟨inside, rfl⟩ := hsquare
    exact recast_parameterNames hsource inside
  by_cases hround : ∃ inside, items = [.group .round inside]
  · obtain ⟨inside, rfl⟩ := hround
    exact recast_parameterNames hsource inside
  rw [lambdaNames.eq_3 _ _ (fun inside h ↦ hsquare ⟨inside, h⟩) (fun inside h ↦ hround ⟨inside, h⟩),
    lambdaNames.eq_3 _ _ (fun _ h ↦ hsquare (Item.exists_of_requoteRun_group h))
      (fun _ h ↦ hround (Item.exists_of_requoteRun_group h)),
    Item.mapM_literal?_requoteRun]
  split
  · exact .ok _
  · exact .fault hsource rfl

/-- A run that is split at an operator, by what becomes of the parts. -/
theorem recast_parseSplit {inCondition : Bool} {items : List Item} {k : Nat} (op : Operator)
    (hleft : Recast Refusal.outline (Tree.requote f)
      (parseExpression isBuiltin source false (items.take k))
      (parseExpression isBuiltin source' false (Item.requoteRun f (items.take k))))
    (hright : Recast Refusal.outline (Tree.requote f)
      (parseExpression isBuiltin source false (items.drop (k + 1)))
      (parseExpression isBuiltin source' false (Item.requoteRun f (items.drop (k + 1))))) :
    Recast Refusal.outline (Tree.requote f) (parseSplit isBuiltin source inCondition items k op)
      (parseSplit isBuiltin source' inCondition (Item.requoteRun f items) k op) := by
  simp only [parseSplit, Item.take_requoteRun, Item.drop_requoteRun, Item.isEmpty_requoteRun]
  refine .ite (fun _ ↦ .fault hsource rfl) fun _ ↦ .ite (fun _ ↦ ?_) fun _ ↦
    .ite (fun _ ↦ .fault hsource rfl) fun _ ↦ .ite (fun _ ↦ ?_) fun _ ↦ ?_
  · cases UnaryOperator.ofOperator? op with
    | none => exact .mismatch _ _
    | some unary =>
      exact .ite (fun _ ↦ .fault hsource rfl) fun _ ↦
        hright.bind fun operand ↦ .ok (Tree.unary unary operand)
  · exact .bind (recast_lambdaNames hsource _) fun names ↦
      hright.bind fun body ↦ .ok (Tree.lambda names body)
  · exact hleft.bind fun left ↦ hright.bind fun right ↦ .ok (Tree.binary op left right)

end

/-- Parsing a run of the given tokens comes to the same with other quoted texts. -/
def Parse.Requoted {α : Type} (tokens : List Token) (items : List Item) (g : α → α)
    (x x' : Parse α) : Prop :=
  Item.tokensOfRun items ⊆ tokens → Recast Refusal.outline g x x'

/-- In a definition, the parser cannot tell other texts from an equals sign. -/
theorem BlendsIn.headText (hf : BlendsIn f tokens) {head i : Item} (hhead : head.tokens ⊆ tokens)
    (hdefine : head.isWord "DEFUN" = true) (hi : i.tokens ⊆ tokens) :
    ((i.requote f).headText != "=") = (i.headText != "=") := by
  cases i with
  | group bracket inside => rfl
  | token t =>
    by_cases hquoted : t.cls = .quoted
    · obtain hf | hf := hf
      · cases head with
        | group bracket inside => cases hdefine
        | token u => cases (hf u (hhead (List.mem_singleton_self u))).symm.trans hdefine
      · have h := hf t (hi (List.mem_singleton_self t)) hquoted
        rw [Item.requote_token, Token.requote, if_pos hquoted]
        exact Bool.eq_iff_iff.2 (by simpa [Item.headText] using not_congr h)
    · rw [Item.requote_token, t.requote_of_not_quoted hquoted]

variable (hsource : source'.line = source.line) (hf : BlendsIn f tokens)

include hsource hf

set_option linter.unusedSectionVars false in
mutual

theorem recast_parseStatement : (items : List Item) →
    Parse.Requoted tokens items (Option.map (Tree.requote f))
      (parseStatement isBuiltin source items)
      (parseStatement isBuiltin source' (Item.requoteRun f items))
  | [], _ => by
    rw [Item.requoteRun_nil, parseStatement, parseStatement]
    exact .ok (some Tree.null)
  | head :: rest, h => by
    have hsome {x x' : Parse Tree} (hx : Recast Refusal.outline (Tree.requote f) x x') :
        Recast Refusal.outline (Option.map (Tree.requote f)) (do return some (← x))
          (do return some (← x')) :=
      .bind hx fun t ↦ .ok (some t)
    -- Which equation of the parser applies has to be known on both sides before it is opened.
    by_cases halone : ∃ t, head = .token t ∧ rest = []
    · obtain ⟨t, rfl, rfl⟩ := halone
      rw [Item.requoteRun_cons, Item.requoteRun_nil, Item.requote_token, parseStatement,
        parseStatement]
      exact hsome (recast_tokenTree true t)
    have hmany : ∀ t, head = .token t → rest = [] → False := fun t ht hrest ↦
      halone ⟨t, ht, hrest⟩
    have hmany' : ∀ t, head.requote f = .token t → Item.requoteRun f rest = [] → False := by
      intro t ht hrest
      obtain ⟨u, rfl⟩ := Item.exists_of_requote_token ht
      rw [Item.requoteRun_eq_map, List.map_eq_nil_iff] at hrest
      exact hmany u rfl hrest
    rw [Item.requoteRun_cons, parseStatement.eq_3 _ _ _ _ hmany, parseStatement.eq_3 _ _ _ _ hmany',
      head.isWord_requote]
    refine .ite (fun _ ↦ .ok none) fun _ ↦ ?_
    refine .orTry (hsome (recast_parseBranch _ h)) ?_
    refine .orTry (hsome (recast_parseDefine _ h)) ?_
    refine .orTry (hsome (recast_parseDim _ h)) ?_
    refine .orTry (hsome (recast_parseSelect _ h)) ?_
    have hwrapped : wrapped? (head.requote f :: Item.requoteRun f rest) =
        (wrapped? (head :: rest)).map (Item.requoteRun f) :=
      Item.wrapped?_requoteRun (head :: rest)
    simp only
    cases hw : wrapped? (head :: rest) with
    | none =>
      rw [hw, Option.map_none] at hwrapped
      rw [hwrapped]
      exact hsome (recast_parseExpression _ h)
    | some inside =>
      have := size_of_wrapped? hw
      rw [hw, Option.map_some] at hwrapped
      rw [hwrapped]
      exact recast_parseStatement inside (Item.tokensOfRun_of_wrapped? hw ▸ h)
termination_by items => 5 * Item.sizeOfRun items + 3
decreasing_by all_goals omega

theorem recast_parseDefine : (items : List Item) →
    Parse.Requoted tokens items (Tree.requote f) (parseDefine isBuiltin source items)
      (parseDefine isBuiltin source' (Item.requoteRun f items))
  | [], _ => by
    rw [Item.requoteRun_nil, parseDefine, parseDefine]
    exact .mismatch _ _
  | head :: rest, h => by
    rw [Item.requoteRun_cons, parseDefine.eq_def, parseDefine.eq_def isBuiltin source']
    simp only
    rw [head.isWord_requote]
    refine .ite (fun _ ↦ .mismatch _ _) fun hdefine ↦ ?_
    by_cases hform : ∃ name inside equals body,
        rest = .token name :: .group .round inside :: equals :: body
    · obtain ⟨name, inside, equals, body, hrest⟩ := hform
      have : Item.sizeOfRun body < Item.sizeOfRun rest := by
        rw [hrest, Item.sizeOfRun_cons, Item.sizeOfRun_cons, Item.sizeOfRun_cons, Item.size_group]
        omega
      have hbody : body ⊆ head :: rest := by
        rw [hrest]
        simp only [List.subset_def, List.mem_cons]
        tauto
      -- This is the one place where the parser reads a text and not its class.
      have hequals : ((equals.requote f).headText != "=") = (equals.headText != "=") :=
        hf.headText (List.Subset.trans (Item.tokens_subset_of_mem (List.mem_cons_self ..)) h)
          (by simpa using hdefine)
          (List.Subset.trans (Item.tokens_subset_of_mem (by simp [hrest])) h)
      rw [hrest]
      simp only [Item.requoteRun_cons, Item.requote_token, Item.requote_group, Token.cls_requote,
        Item.isEmpty_requoteRun, List.isEmpty_cons, hequals]
      refine .ite (fun _ ↦ .fault hsource rfl) fun hname ↦ .ite (fun _ ↦ .fault hsource rfl) fun _ ↦
        .ite (fun _ ↦ .fault hsource rfl) fun _ ↦ ?_
      have hliteral : name.cls ≠ .quoted := by
        intro hquoted
        simp [hquoted] at hname
      rw [name.requote_of_not_quoted hliteral]
      exact .bind (recast_parameterNames hsource inside) fun names ↦
        .bind (recast_parseExpression body (List.Subset.trans (Item.tokensOfRun_subset hbody) h))
          fun t ↦ .ok (Tree.define _ names t)
    match rest, hform with
    | .token name :: .group .round inside :: equals :: body, hform =>
      exact absurd ⟨name, inside, equals, body, rfl⟩ hform
    | [.token name, .group .round inside], _ =>
      simp only [Item.requoteRun_cons, Item.requoteRun_nil, Item.requote_token, Item.requote_group,
        Token.cls_requote, Item.isEmpty_requoteRun]
      exact .ite (fun _ ↦ .fault hsource rfl) fun _ ↦ .fault hsource rfl
    | [], _ | [.token _], _ | .group _ _ :: _, _ | .token _ :: .token _ :: _, _
    | .token _ :: .group .square _ :: _, _ | .token _ :: .group .curly _ :: _, _ =>
      exact .fault hsource rfl
termination_by items => 5 * Item.sizeOfRun items
decreasing_by
  simp only [Item.sizeOfRun_cons]
  omega

theorem recast_parseDim : (items : List Item) →
    Parse.Requoted tokens items (Tree.requote f) (parseDim isBuiltin source items)
      (parseDim isBuiltin source' (Item.requoteRun f items))
  | items, h => by
    by_cases hform : ∃ head name inside, items = [head, .token name, .group .round inside]
    · obtain ⟨head, name, inside, hitems⟩ := hform
      have : Item.sizeOfRun inside + 3 ≤ Item.sizeOfRun items := by
        rw [hitems, Item.sizeOfRun_cons, Item.sizeOfRun_cons, Item.sizeOfRun_cons, Item.size_group,
          Item.size_token]
        omega
      have hinside : Item.tokensOfRun inside ⊆ Item.tokensOfRun items := by
        rw [hitems]
        exact Item.tokensOfRun_inside_subset (show Item.group .round inside ∈ _ by simp)
      rw [hitems]
      simp only [Item.requoteRun_cons, Item.requoteRun_nil, Item.requote_token, Item.requote_group]
      rw [parseDim, parseDim, head.isWord_requote, name.cls_requote]
      refine .ite (fun hdim ↦ ?_) fun _ ↦ .mismatch _ _
      have hliteral : name.cls ≠ .quoted := by
        intro hquoted
        simp [hquoted] at hdim
      rw [name.requote_of_not_quoted hliteral]
      refine .bind (recast_parseArguments inside (List.Subset.trans hinside h)) fun args ↦ ?_
      simp only [Prod.map_fst, Prod.map_snd, List.isEmpty_map, id]
      refine .ite (fun _ ↦ .fault hsource rfl) fun _ ↦ ?_
      rw [← Tree.requoteAll_eq_map]
      exact .ok (Tree.binary .assign (.ident _) (.call "DIM" args.1 args.2))
    · have hother : ∀ head name inside, items = [head, .token name, .group .round inside] → False :=
        fun head name inside hitems ↦ hform ⟨head, name, inside, hitems⟩
      have hother' : ∀ head name inside,
          Item.requoteRun f items = [head, .token name, .group .round inside] → False := by
        intro head name inside hitems
        obtain ⟨i, is, rfl, -, his⟩ := Item.exists_of_requoteRun_cons hitems
        obtain ⟨j, js, rfl, hname, hround⟩ := Item.exists_of_requoteRun_cons his
        obtain ⟨t, rfl⟩ := Item.exists_of_requote_token hname
        obtain ⟨is, rfl⟩ := Item.exists_of_requoteRun_group hround
        exact hother i t is rfl
      rw [parseDim.eq_2 _ _ _ hother, parseDim.eq_2 _ _ _ hother']
      exact .mismatch _ _
termination_by items => 5 * Item.sizeOfRun items
decreasing_by omega

theorem recast_parseSelect : (items : List Item) →
    Parse.Requoted tokens items (Tree.requote f) (parseSelect isBuiltin source items)
      (parseSelect isBuiltin source' (Item.requoteRun f items))
  | [], _ => by
    rw [Item.requoteRun_nil, parseSelect, parseSelect]
    exact .mismatch _ _
  | head :: rest, h => by
    have hrest := List.Subset.trans (Item.tokensOfRun_subset (List.subset_cons_self head rest)) h
    have hcuts := Item.cutFirst?_requoteRun (f := f) rest
      (fun i ↦ i.isWord "GOTO" || i.isWord "GOSUB") fun i ↦ by
        rw [i.isWord_requote, i.isWord_requote]
    rw [Item.requoteRun_cons, parseSelect.eq_def, parseSelect.eq_def isBuiltin source']
    simp only
    rw [head.isWord_requote]
    refine .ite (fun _ ↦ .mismatch _ _) fun _ ↦ ?_
    cases hcut : cutFirst? (fun i ↦ i.isWord "GOTO" || i.isWord "GOSUB") rest with
    | none =>
      rw [hcut, Option.map_none] at hcuts
      rw [hcuts]
      exact .fault hsource rfl
    | some cut =>
      obtain ⟨before, jump, after⟩ := cut
      have := size_of_cutFirst? hcut
      obtain ⟨hbefore, hafter⟩ := subset_of_cutFirst? hcut
      rw [hcut, Option.map_some] at hcuts
      rw [hcuts]
      refine .bind (recast_parseExpression before
        (List.Subset.trans (Item.tokensOfRun_subset hbefore) hrest)) fun test ↦ ?_
      simp only [Tree.isNull_requote, Item.separated_requoteRun, Item.isWord_requote, List.all_map,
        Function.comp_def, Item.isEmpty_requoteRun]
      refine .ite (fun _ ↦ .fault hsource rfl) fun _ ↦ ?_
      refine .bind (recast_parsePieces after
        (List.Subset.trans (Item.tokensOfRun_subset hafter) hrest)) fun targets ↦ ?_
      rw [← Tree.requoteAll_eq_map]
      exact .ok (Tree.select _ test targets)
termination_by items => 5 * Item.sizeOfRun items
decreasing_by
  all_goals
    simp only [Item.sizeOfRun_cons]
    omega

theorem recast_parseBranch : {asStatement : Bool} → (items : List Item) →
    Parse.Requoted tokens items (Tree.requote f) (parseBranch isBuiltin source asStatement items)
      (parseBranch isBuiltin source' asStatement (Item.requoteRun f items))
  | asStatement, [], _ => by
    rw [Item.requoteRun_nil, parseBranch, parseBranch]
    exact .mismatch _ _
  | asStatement, head :: rest, h => by
    have hrest := List.Subset.trans (Item.tokensOfRun_subset (List.subset_cons_self head rest)) h
    have hcuts := Item.cutFirst?_requoteRun (f := f) rest (·.isWord "THEN") fun i ↦
      i.isWord_requote _
    rw [Item.requoteRun_cons, parseBranch.eq_def, parseBranch.eq_def isBuiltin source']
    simp only
    rw [head.isWord_requote]
    refine .ite (fun _ ↦ .mismatch _ _) fun _ ↦ ?_
    cases hcut : cutFirst? (·.isWord "THEN") rest with
    | none =>
      rw [hcut, Option.map_none] at hcuts
      rw [hcuts]
      exact .fault hsource rfl
    | some cut =>
      obtain ⟨before, thenItem, after⟩ := cut
      have := size_of_cutFirst? hcut
      obtain ⟨hbefore, hafter⟩ := subset_of_cutFirst? hcut
      have hafter := List.Subset.trans (Item.tokensOfRun_subset hafter) hrest
      rw [hcut, Option.map_some] at hcuts
      rw [hcuts]
      refine .bind (recast_parseExpression before
        (List.Subset.trans (Item.tokensOfRun_subset hbefore) hrest)) fun condition ↦ ?_
      rw [Tree.isNull_requote]
      refine .ite (fun _ ↦ .fault hsource rfl) fun _ ↦ ?_
      have helses := Item.cutElse?_requoteRun (f := f) after 0
      cases helse : cutElse? 0 after with
      | none =>
        rw [helse, Option.map_none] at helses
        rw [helses]
        exact .bind (recast_parseArm after hafter) fun yes ↦ .ok (Tree.branch condition yes none)
      | some arms =>
        obtain ⟨first, second⟩ := arms
        have := size_of_cutElse? helse
        obtain ⟨hfirst, hsecond⟩ := subset_of_cutElse? helse
        rw [helse, Option.map_some] at helses
        rw [helses]
        refine .bind (recast_parseArm first
          (List.Subset.trans (Item.tokensOfRun_subset hfirst) hafter)) fun yes ↦ ?_
        exact .bind (recast_parseArm second
          (List.Subset.trans (Item.tokensOfRun_subset hsecond) hafter)) fun no ↦
            .ok (Tree.branch condition yes (some no))
termination_by _ items => 5 * Item.sizeOfRun items
decreasing_by
  all_goals
    simp only [Item.sizeOfRun_cons]
    omega

theorem recast_parseArm : {asStatement : Bool} → (items : List Item) →
    Parse.Requoted tokens items (Tree.requote f) (parseArm isBuiltin source asStatement items)
      (parseArm isBuiltin source' asStatement (Item.requoteRun f items))
  | true, items, h => by
    rw [parseArm.eq_def, parseArm.eq_def isBuiltin source']
    refine .bind (recast_parseStatement items h) fun tree ↦ ?_
    cases tree with
    | none => exact .ok Tree.null
    | some t => exact .ok t
  | false, items, h => by
    rw [parseArm.eq_def, parseArm.eq_def isBuiltin source']
    exact recast_parseExpression items h
termination_by _ items => 5 * Item.sizeOfRun items + 4
decreasing_by all_goals omega

theorem recast_parseExpression : {inCondition : Bool} → (items : List Item) →
    Parse.Requoted tokens items (Tree.requote f)
      (parseExpression isBuiltin source inCondition items)
      (parseExpression isBuiltin source' inCondition (Item.requoteRun f items))
  | inCondition, [], _ => by
    rw [Item.requoteRun_nil, parseExpression, parseExpression]
    exact .ok Tree.null
  | inCondition, head :: rest, h => by
    by_cases hgroup : rest = [] → head.isReserved = true
    · have hgroup' : Item.requoteRun f rest = [] → (head.requote f).isReserved = true := by
        rwa [Item.isReserved_requote, Item.requoteRun_eq_map, List.map_eq_nil_iff]
      have htops := Item.topOperator?_requoteRun (f := f) (head :: rest)
      rw [Item.requoteRun_cons] at htops
      rw [Item.requoteRun_cons, parseExpression_eq inCondition hgroup,
        parseExpression_eq inCondition hgroup', head.isWord_requote, head.literal?_requote,
        Item.opensRound_requoteRun, htops]
      refine .ite (fun _ ↦ recast_parseBranch _ h) fun _ ↦
        .ite (fun _ ↦ recast_parseCall _ h) fun _ ↦ ?_
      cases htop : topOperator? (head :: rest) with
      | none => exact recast_parseCall _ h
      | some top =>
        obtain ⟨k, op⟩ := top
        have hk := topOperator?_lt htop
        have := Item.sizeOfRun_take_lt hk
        have := Item.sizeOfRun_drop_succ_lt hk
        have hleft :=
          List.Subset.trans (Item.tokensOfRun_subset (List.take_subset k (head :: rest))) h
        have hright :=
          List.Subset.trans (Item.tokensOfRun_subset (List.drop_subset (k + 1) (head :: rest))) h
        exact recast_parseSplit hsource op (recast_parseExpression _ hleft)
          (recast_parseExpression _ hright)
    obtain ⟨hrest, ⟨bracket, inside, hhead⟩ | ⟨t, hhead, hreserved⟩⟩ :=
      Item.eq_of_not_isReserved hgroup
    · have : Item.sizeOfRun inside < Item.sizeOfRun (head :: rest) := by
        rw [hhead, Item.sizeOfRun_cons, Item.size_group]
        omega
      have hinside := List.Subset.trans (Item.tokensOfRun_head_subset hhead) h
      rw [hhead, hrest, Item.requoteRun_cons, Item.requoteRun_nil, Item.requote_group]
      cases bracket with
      | round =>
        rw [parseExpression, parseExpression]
        exact recast_parseExpression inside hinside
      | square =>
        rw [parseExpression, parseExpression]
        exact .bind (recast_parameterNames hsource inside) fun names ↦ .ok (Tree.params names)
      | curly =>
        rw [parseExpression, parseExpression]
        exact recast_parseArray inside hinside
    · have hreserved' : ((Item.token t).requote f).isReserved = false := by
        rw [Item.isReserved_requote, hreserved]
      rw [hhead, hrest, Item.requoteRun_cons, Item.requoteRun_nil,
        parseExpression_token source hreserved]
      rw [Item.requote_token] at hreserved' ⊢
      rw [parseExpression_token source' hreserved']
      exact recast_tokenTree false t
termination_by _ items => 5 * Item.sizeOfRun items + 1
decreasing_by
  all_goals
    simp only [Item.sizeOfRun_cons] at *
    omega

theorem recast_parseArray : (inside : List Item) →
    Parse.Requoted tokens inside (Tree.requote f) (parseArray isBuiltin source inside)
      (parseArray isBuiltin source' (Item.requoteRun f inside))
  | inside, h => by
    rw [parseArray.eq_def, parseArray.eq_def isBuiltin source', Item.isEmpty_requoteRun,
      Item.separated_requoteRun]
    refine .ite (fun _ ↦ .ok (Tree.array [])) fun _ ↦ ?_
    simp only [List.any_map, Function.comp_def, Item.isEmpty_requoteRun]
    refine .ite (fun _ ↦ .fault hsource rfl) fun _ ↦ ?_
    refine .bind (recast_parsePieces inside h) fun elements ↦ ?_
    rw [← Tree.requoteAll_eq_map]
    exact .ok (Tree.array elements)
termination_by inside => 5 * Item.sizeOfRun inside + 3
decreasing_by all_goals omega

theorem recast_parsePieces : (items : List Item) →
    Parse.Requoted tokens items (List.map (Tree.requote f)) (parsePieces isBuiltin source items)
      (parsePieces isBuiltin source' (Item.requoteRun f items))
  | items, h => by
    rw [parsePieces.eq_def, parsePieces.eq_def isBuiltin source']
    rw [List.mapM_subtype (g := parseExpression isBuiltin source false) fun _ _ ↦ rfl,
      List.mapM_subtype (g := parseExpression isBuiltin source' false) fun _ _ ↦ rfl,
      List.unattach_attach, List.unattach_attach, Item.separated_requoteRun, List.mapM_map]
    refine .mapM fun piece hpiece ↦ ?_
    have := Item.sizeOfRun_le_of_mem_cutAt hpiece
    have hsubset := Item.tokensOfRun_subset (Item.subset_of_mem_cutAt hpiece)
    exact recast_parseExpression piece (List.Subset.trans hsubset h)
termination_by items => 5 * Item.sizeOfRun items + 2
decreasing_by omega

theorem recast_parseCall : (items : List Item) →
    Parse.Requoted tokens items (Tree.requote f) (parseCall isBuiltin source items)
      (parseCall isBuiltin source' (Item.requoteRun f items))
  | [], _ => by
    rw [Item.requoteRun_nil, parseCall, parseCall]
    exact .mismatch _ _
  | head :: rest, h => by
    have := head.size_pos
    have hrest := List.Subset.trans (Item.tokensOfRun_subset (List.subset_cons_self head rest)) h
    by_cases hround : ∃ inside, head = .group .round inside
    · obtain ⟨inside, hhead⟩ := hround
      have : head.size = 2 + Item.sizeOfRun inside := by rw [hhead, Item.size_group]
      have hinside := List.Subset.trans (Item.tokensOfRun_head_subset hhead) h
      rw [hhead, Item.requoteRun_cons, Item.requote_group, parseCall, parseCall]
      refine .bind (recast_parseExpression inside hinside) fun callee ↦ ?_
      rw [Item.opensRound_requoteRun]
      exact .ite (fun _ ↦ recast_parseChain (.tree callee) rest hrest) fun _ ↦
        .mismatch _ _
    have hother : ∀ inside, head = .group .round inside → False :=
      fun inside h ↦ hround ⟨inside, h⟩
    have hother' : ∀ inside, head.requote f = .group .round inside → False := by
      intro inside hinside
      obtain ⟨is, rfl⟩ := Item.exists_of_requote_group hinside
      exact hother is rfl
    rw [Item.requoteRun_cons, parseCall.eq_3 _ _ _ _ hother, parseCall.eq_3 _ _ _ _ hother',
      head.literal?_requote, Item.opensRound_requoteRun]
    simp only
    cases head.literal? with
    | none => exact .mismatch _ _
    | some name =>
      have hplain : Recast Refusal.outline (Tree.requote f)
          (do
            let (args, separators) ← parseArguments isBuiltin source rest
            return .call name args separators)
          (do
            let (args, separators) ← parseArguments isBuiltin source' (Item.requoteRun f rest)
            return .call name args separators) := by
        refine .bind (recast_parseArguments rest hrest) fun args ↦ ?_
        simp only [Prod.map_fst, Prod.map_snd, id]
        rw [← Tree.requoteAll_eq_map]
        exact .ok (Tree.call name args.1 args.2)
      exact .ite (fun _ ↦ .orTry (recast_parseChain (.named name) rest hrest) hplain)
        fun _ ↦ hplain
termination_by items => 5 * Item.sizeOfRun items
decreasing_by
  all_goals
    simp only [Item.sizeOfRun_cons]
    omega

theorem recast_parseChain : (callee : Callee) → (items : List Item) →
    Parse.Requoted tokens items (Tree.requote f) (parseChain isBuiltin source callee items)
      (parseChain isBuiltin source' (callee.requote f) (Item.requoteRun f items))
  | callee, items, h => by
    by_cases hround : ∃ inside rest, items = .group .round inside :: rest
    · obtain ⟨inside, rest, hitems⟩ := hround
      have : Item.sizeOfRun inside + 2 + Item.sizeOfRun rest = Item.sizeOfRun items := by
        rw [hitems, Item.sizeOfRun_cons, Item.size_group]
        omega
      rw [hitems] at h
      have hinside := List.Subset.trans (Item.tokensOfRun_head_subset rfl) h
      have hrest := List.Subset.trans (Item.tokensOfRun_subset (List.subset_cons_self _ rest)) h
      rw [hitems, Item.requoteRun_cons, Item.requote_group, parseChain, parseChain]
      refine .bind (recast_parseArguments inside hinside) fun args ↦ ?_
      simp only [Prod.map_fst, Prod.map_snd, id]
      rw [Item.isEmpty_requoteRun, Callee.call_requote]
      exact .ite (fun _ ↦ .ok _) fun _ ↦ recast_parseChain (.tree _) rest hrest
    · have hother : ∀ inside rest, items = .group .round inside :: rest → False :=
        fun inside rest hitems ↦ hround ⟨inside, rest, hitems⟩
      have hother' : ∀ inside rest,
          Item.requoteRun f items = .group .round inside :: rest → False := by
        intro inside rest hitems
        obtain ⟨i, is, rfl, hi, -⟩ := Item.exists_of_requoteRun_cons hitems
        obtain ⟨inside', rfl⟩ := Item.exists_of_requote_group hi
        exact hother inside' is rfl
      rw [parseChain.eq_2 _ _ _ _ hother, parseChain.eq_2 _ _ _ _ hother']
      exact .mismatch _ _
termination_by _ items => 5 * Item.sizeOfRun items
decreasing_by all_goals omega

theorem recast_parseArguments : (items : List Item) →
    Parse.Requoted tokens items (Prod.map (List.map (Tree.requote f)) id)
      (parseArguments isBuiltin source items)
      (parseArguments isBuiltin source' (Item.requoteRun f items))
  | items, h => by
    rw [parseArguments.eq_def, parseArguments.eq_def isBuiltin source', Item.isEmpty_requoteRun,
      Item.separated_requoteRun]
    refine .ite (fun _ ↦ .ok ([], [])) fun _ ↦ ?_
    exact .bind (recast_parsePieces items h) fun ts ↦ .ok (ts, (separated items).2)
termination_by items => 5 * Item.sizeOfRun items + 3
decreasing_by all_goals omega

end

theorem recast_parseTopStatement (items : List Item) (h : Item.tokensOfRun items ⊆ tokens) :
    Recast Stop.outline (Option.map (Tree.requote f)) (parseTopStatement isBuiltin source items)
      (parseTopStatement isBuiltin source' (Item.requoteRun f items)) := by
  rw [parseTopStatement, parseTopStatement, Item.isEmpty_requoteRun]
  refine .ite (fun _ ↦ .error ?_) fun _ ↦ ?_
  · simp [Stop.outline, Fault.outline, hsource]
  have hparse : Recast Refusal.outline (Option.map (Tree.requote f))
      (parseStatement isBuiltin source items)
      (parseStatement isBuiltin source' (Item.requoteRun f items)) :=
    recast_parseStatement hsource hf items h
  generalize parseStatement isBuiltin source items = x at hparse
  generalize parseStatement isBuiltin source' (Item.requoteRun f items) = x' at hparse
  cases hparse with
  | ok tree => exact .ok tree
  | @error refusal refusal' h =>
    cases refusal with
    | mismatch why =>
      cases refusal' with
      | mismatch why' =>
        refine .error ?_
        simp [Stop.outline, Fault.outline, hsource]
      | stop stop' => cases h
    | stop stop =>
      cases refusal' with
      | mismatch why' => cases h
      | stop stop' => exact .error (Refusal.stop.inj h)

omit hf in
theorem recast_gatherFrom (stack : List Item.Open) (done : List Item) (ts : List Token) :
    Recast Fault.outline (Item.requoteRun f) (Item.gatherFrom source stack done ts)
      (Item.gatherFrom source' (stack.map (Item.Open.requote f)) (Item.requoteRun f done)
        (ts.map (Token.requote f))) := by
  have hunmatched {bracket bracket' : String} :
      Recast Fault.outline (Item.requoteRun f) (.error (Item.unmatched source bracket))
        (.error (Item.unmatched source' bracket')) := by
    refine .error ?_
    simp [Item.unmatched, Fault.outline, hsource]
  induction ts generalizing stack done with
  | nil =>
    cases stack with
    | nil =>
      rw [List.map_nil, List.map_nil, Item.gatherFrom, Item.gatherFrom, Item.reverse_requoteRun]
      exact .ok done.reverse
    | cons o stack => exact hunmatched
  | cons t ts ih =>
    rw [List.map_cons, Item.gatherFrom.eq_def, Item.gatherFrom.eq_def source']
    simp only
    rw [t.cls_requote]
    refine .ite (fun hparen ↦ ?_) fun _ ↦ ih stack (.token t :: done)
    rw [t.requote_of_not_quoted (by simpa using fun hquoted ↦ by simp [hquoted] at hparen)]
    cases Bracket.ofOpening? t.text with
    | some bracket => exact ih (⟨bracket, done⟩ :: stack) []
    | none =>
      cases stack with
      | nil => exact hunmatched
      | cons o stack =>
        refine .ite (fun _ ↦ ?_) fun _ ↦ hunmatched
        rw [Item.reverse_requoteRun]
        exact ih stack (.group o.bracket done.reverse :: o.before)

end

/-- With other quoted texts that the parser cannot tell, a line has the same trees but for these
texts, or is rejected in the same way. -/
theorem parseTokens_requoted {f : String → String} {tokens : List Token} (hf : BlendsIn f tokens)
    (isBuiltin : String → Bool) (line : Option Int) :
    Recast Stop.outline (List.map (Option.map (Tree.requote f))) (parseTokens isBuiltin line tokens)
      (parseTokens isBuiltin line (tokens.map (Token.requote f))) := by
  have hremark : (tokens.map (Token.requote f)).head?.all (·.isWord "REM") =
      tokens.head?.all (·.isWord "REM") := by
    cases tokens with
    | nil => rfl
    | cons t ts => exact t.isWord_requote "REM"
  rw [parseTokens, parseTokens, hremark]
  refine .ite (fun _ ↦ .ok []) fun _ ↦ ?_
  simp only
  have hgather : Recast Fault.outline (Item.requoteRun f)
      (Item.gather ⟨line, joinTexts tokens⟩ tokens)
      (Item.gather ⟨line, joinTexts (tokens.map (Token.requote f))⟩
        (tokens.map (Token.requote f))) := recast_gatherFrom (by rfl) [] [] tokens
  have hstop (g g' : Fault) (h : g'.outline = g.outline) :
      Stop.outline (.fault g') = Stop.outline (.fault g) := congrArg Stop.fault h
  refine .bind_of_ok (hgather.mapError hstop) fun items hitems ↦ ?_
  have hsubset := Item.tokensOfRun_of_gather (mapError_eq_ok.1 hitems)
  rw [Item.cutAt_requoteRun items (·.isClass_requote _), List.mapM_map]
  refine .mapM fun piece hpiece ↦ recast_parseTopStatement (by rfl) hf piece ?_
  exact List.Subset.trans (Item.tokensOfRun_subset (Item.subset_of_mem_cutAt hpiece)) hsubset

/-! ## One quoted text -/

/-- A tree with a text in the place of a mark. -/
def Tree.fill (mark text : String) : Tree → Tree :=
  Tree.requote fun s ↦ if s = mark then text else s

theorem exists_length_gt (texts : List String) :
    ∃ mark : String, ∀ s ∈ texts, s.length < mark.length := by
  induction texts with
  | nil => exact ⟨"", nofun⟩
  | cons s texts ih =>
    obtain ⟨mark, hmark⟩ := ih
    have hlength : (mark ++ s ++ "!").length = mark.length + s.length + 1 := by
      rw [String.length_append, String.length_append]
      rfl
    refine ⟨mark ++ s ++ "!", List.forall_mem_cons.2 ⟨?_, fun s' hs' ↦ ?_⟩⟩
    · omega
    · have := hmark s' hs'
      omega

section
variable {mark text : String} {tokens : List Token}

theorem Token.requote_mark {t : Token} (ht : t.cls = .quoted) :
    Token.requote (fun s ↦ if s = mark then text else s) { t with text := mark } =
      { t with text := text } := by
  simp [Token.requote, ht]

theorem Token.map_requote_of_fresh (hmark : ∀ u ∈ tokens, u.text ≠ mark) :
    tokens.map (Token.requote fun s ↦ if s = mark then text else s) = tokens := by
  refine (List.map_congr_left fun u hu ↦ ?_).trans (List.map_id tokens)
  rw [Token.requote, if_neg (hmark u hu), id]
  exact ite_self u

end

/-- All texts between the same two quotes are parsed alike.  There is a mark that stands for them:
with a text, the line becomes what it becomes with the mark, but that its trees have the text where
they had the mark, and that a fault may quote something else.  A text `=` in a line that defines a
function is the exception. -/
theorem parseTokens_replaceText (isBuiltin : String → Bool) (line : Option Int)
    (before after : List Token) (t : Token) (ht : t.cls = .quoted) :
    ∃ mark : String, (∀ u ∈ before ++ after, u.text ≠ mark) ∧ ∀ text : String,
      text ≠ "=" ∨ (∀ u ∈ before ++ after, u.isWord "DEFUN" = false) →
        Recast Stop.outline (List.map (Option.map (Tree.fill mark text)))
          (parseTokens isBuiltin line (before ++ { t with text := mark } :: after))
          (parseTokens isBuiltin line (before ++ { t with text := text } :: after)) := by
  obtain ⟨mark, hlength⟩ := exists_length_gt ("=" :: (before ++ after).map Token.text)
  have hne : mark ≠ "=" := by
    rintro rfl
    exact absurd (hlength _ (List.mem_cons_self ..)) (Nat.lt_irrefl _)
  have hmark : ∀ u ∈ before ++ after, u.text ≠ mark := by
    rintro u hu rfl
    exact absurd (hlength _ (List.mem_cons_of_mem _ (List.mem_map_of_mem hu))) (Nat.lt_irrefl _)
  obtain ⟨hbefore, hafter⟩ := List.forall_mem_append.1 hmark
  refine ⟨mark, hmark, fun text htext ↦ ?_⟩
  have hblends : BlendsIn (fun s ↦ if s = mark then text else s)
      (before ++ { t with text := mark } :: after) := by
    obtain htext | hdefine := htext
    · refine .inr fun u _ _ ↦ ?_
      by_cases hu : u.text = mark
      · simp [hu, hne, htext]
      · simp [hu]
    · obtain ⟨hbefore, hafter⟩ := List.forall_mem_append.1 hdefine
      refine .inl (List.forall_mem_append.2 ⟨hbefore, List.forall_mem_cons.2 ⟨?_, hafter⟩⟩)
      simp [Token.isWord, ht]
  have hparse := parseTokens_requoted hblends isBuiltin line
  rw [List.map_append, List.map_cons, Token.map_requote_of_fresh hbefore,
    Token.map_requote_of_fresh hafter, Token.requote_mark ht] at hparse
  exact hparse

theorem parseTokens_replaceText_print : (⟨"a", .quoted, 6⟩ : Token).cls = .quoted ∧
    ∃ mark : String, "PRINT" ≠ mark ∧ ∀ text : String,
      Recast Stop.outline (List.map (Option.map (Tree.fill mark text)))
        (parseTokens (· == "PRINT") none [⟨"PRINT", .literal, 0⟩, ⟨mark, .quoted, 6⟩])
        (parseTokens (· == "PRINT") none [⟨"PRINT", .literal, 0⟩, ⟨text, .quoted, 6⟩]) := by
  obtain ⟨mark, hmark, hfill⟩ :=
    parseTokens_replaceText (· == "PRINT") none [⟨"PRINT", .literal, 0⟩] [] ⟨"a", .quoted, 6⟩ rfl
  refine ⟨rfl, mark, hmark _ (List.mem_singleton_self _), fun text ↦ hfill text (.inr ?_)⟩
  exact List.forall_mem_singleton.2 (by decide +kernel)

/-- A quoted text `=` in the place of a definition's equals sign is taken for the sign, and another
text there is not. -/
theorem not_forall_parseTokens_replaceText :
    ¬ ∀ (isBuiltin : String → Bool) (line : Option Int) (before after : List Token) (t : Token)
      (text : String), t.cls = .quoted →
        (parseTokens isBuiltin line (before ++ { t with text := text } :: after)).toOption.isSome =
          (parseTokens isBuiltin line (before ++ t :: after)).toOption.isSome := by
  intro hall
  have h := hall (fun _ ↦ false) none
    [⟨"DEFUN", .literal, 0⟩, ⟨"F", .literal, 6⟩, ⟨"(", .paren, 7⟩, ⟨"X", .literal, 8⟩,
      ⟨")", .paren, 9⟩]
    [⟨"X", .literal, 15⟩] ⟨"=", .quoted, 11⟩ "a" rfl
  exact absurd h (by decide +kernel)

end LineBasic
