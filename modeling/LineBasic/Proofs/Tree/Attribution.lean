import LineBasic.Proofs.Tree.Parsing

/-!
# Reading on another line

The number of a line plays no part in how it is read, but that faults are attributed to it.  So a
text is read in the same way on every line: either it has the same statements, or it is rejected in
the same way, with the fault attributed to the other line.

* `Renamed` — results that are the same, up to a change of failures.
* `moved_parseStatement` and its companions — each parsing function.
* `parseLine_onLine` — source lines.
-/

set_option autoImplicit false
namespace LineBasic

/-! ## Changes of failures -/

/-- Two results that are the same, but that failures are changed. -/
def Renamed {ε α : Type} (g : ε → ε) (x x' : Except ε α) : Prop :=
  x' = x.mapError g

namespace Renamed

variable {ε ε' α β : Type} {g : ε → ε} {x x' y y' : Except ε α}

theorem ok (a : α) : Renamed g (.ok a : Except ε α) (.ok a) := rfl

theorem error (e : ε) : Renamed g (.error e : Except ε α) (.error (g e)) := rfl

theorem bind {f f' : α → Except ε β} (hx : Renamed g x x') (hf : ∀ a, Renamed g (f a) (f' a)) :
    Renamed g (x >>= f) (x' >>= f') := by
  cases hx
  cases x with
  | ok a => exact hf a
  | error e => rfl

theorem ite {c : Prop} [Decidable c] (hx : Renamed g x x') (hy : Renamed g y y') :
    Renamed g (if c then x else y) (if c then x' else y') := by
  split
  · exact hx
  · exact hy

theorem mapM {f f' : β → Except ε α} {bs : List β} (h : ∀ b ∈ bs, Renamed g (f b) (f' b)) :
    Renamed g (bs.mapM f) (bs.mapM f') := by
  induction bs with
  | nil => exact ok []
  | cons b bs ih =>
    obtain ⟨hb, hbs⟩ := List.forall_mem_cons.1 h
    rw [List.mapM_cons, List.mapM_cons]
    exact bind hb fun _ ↦ bind (ih hbs) fun _ ↦ ok _

/-- Failures may be changed before they are made into others, or after that. -/
theorem mapError {k : ε → ε'} {g' : ε' → ε'} (h : Renamed g x x') (hg : ∀ e, k (g e) = g' (k e)) :
    Renamed g' (x.mapError k) (x'.mapError k) := by
  cases h
  cases x with
  | ok a => rfl
  | error e => exact congrArg Except.error (hg e)

end Renamed

/-! ## Attributing faults to another line -/

/-- A fault that is attributed to another line. -/
def Fault.onLine (line : Option Int) (f : Fault) : Fault :=
  { f with line }

/-- A stop that is attributed to another line. -/
def Stop.onLine (line : Option Int) : Stop → Stop
  | .fault f => .fault (f.onLine line)
  | stop => stop

/-- A refusal that is attributed to another line. -/
def Refusal.onLine (line : Option Int) : Refusal → Refusal
  | .stop s => .stop (s.onLine line)
  | refusal => refusal

section
variable {line line' : Option Int} {text : String}

/-- Two results of parsing that are the same, on different lines. -/
abbrev Parse.Moved {α : Type} (line' : Option Int) (x x' : Parse α) : Prop :=
  Renamed (Refusal.onLine line') x x'

theorem moved_mismatch {α : Type} (why : String) :
    Parse.Moved line' (Parse.mismatch why : Parse α) (Parse.mismatch why) := rfl

theorem moved_fault {α : Type} (f : Fault) :
    Parse.Moved line' (Parse.fault ⟨line, text⟩ f : Parse α) (Parse.fault ⟨line', text⟩ f) := rfl

theorem moved_ofNumber {α : Type} (x : Except Number.Mishap α) :
    Parse.Moved line' (Parse.ofNumber x) (Parse.ofNumber x) := by
  cases x with
  | ok a => rfl
  | error mishap => rfl

theorem moved_orTry {α : Type} {first first' : Parse α} {second second' : Unit → Parse α}
    (hfirst : Parse.Moved line' first first') (hsecond : Parse.Moved line' (second ()) (second' ())) :
    Parse.Moved line' (first.orTry second) (first'.orTry second') := by
  cases hfirst
  cases first with
  | ok a => rfl
  | error refusal =>
    cases refusal with
    | mismatch why => exact hsecond
    | stop s => rfl

theorem moved_tokenTree (asStatement : Bool) (t : Token) :
    Parse.Moved line' (tokenTree asStatement t) (tokenTree asStatement t) := by
  rw [tokenTree]
  cases t.cls with
  | number => exact .bind (moved_ofNumber _) fun _ ↦ .ok _
  | operator | paren | separator | sequence | literal | quoted | boolean => rfl

theorem moved_namesFrom (seen : List String) (pieces : List (List Item)) :
    Parse.Moved line' (namesFrom ⟨line, text⟩ seen pieces) (namesFrom ⟨line', text⟩ seen pieces) := by
  induction pieces generalizing seen with
  | nil => rfl
  | cons piece pieces ih =>
    match piece with
    | [] => rfl
    | [i] =>
      rw [namesFrom, namesFrom]
      cases i.literal? with
      | none => rfl
      | some name => exact .ite rfl (ih _)
    | _ :: _ :: _ => rfl

theorem moved_parameterNames (items : List Item) :
    Parse.Moved line' (parameterNames ⟨line, text⟩ items) (parameterNames ⟨line', text⟩ items) :=
  .ite (.ok _) (moved_namesFrom _ _)

theorem moved_lambdaNames (items : List Item) :
    Parse.Moved line' (lambdaNames ⟨line, text⟩ items) (lambdaNames ⟨line', text⟩ items) := by
  rw [lambdaNames.eq_def, lambdaNames.eq_def]
  split
  · exact moved_parameterNames _
  · exact moved_parameterNames _
  · split
    · exact .ok _
    · exact moved_fault _

/-! ## The parser -/

variable {isBuiltin : String → Bool}

/-- A run that is split at an operator, by what becomes of the parts. -/
theorem moved_parseSplit {inCondition : Bool} {items : List Item} {k : Nat} (op : Operator)
    (hleft : Parse.Moved line' (parseExpression isBuiltin ⟨line, text⟩ false (items.take k))
      (parseExpression isBuiltin ⟨line', text⟩ false (items.take k)))
    (hright : Parse.Moved line' (parseExpression isBuiltin ⟨line, text⟩ false (items.drop (k + 1)))
      (parseExpression isBuiltin ⟨line', text⟩ false (items.drop (k + 1)))) :
    Parse.Moved line' (parseSplit isBuiltin ⟨line, text⟩ inCondition items k op)
      (parseSplit isBuiltin ⟨line', text⟩ inCondition items k op) := by
  rw [parseSplit, parseSplit]
  refine .ite (moved_fault _) (.ite ?_ (.ite (moved_fault _) (.ite ?_ ?_)))
  · split
    · exact moved_mismatch _
    · exact .ite (moved_fault _) (hright.bind fun _ ↦ .ok _)
  · exact .bind (moved_lambdaNames _) fun _ ↦ hright.bind fun _ ↦ .ok _
  · exact hleft.bind fun _ ↦ hright.bind fun _ ↦ .ok _

mutual

theorem moved_parseStatement : (items : List Item) →
    Parse.Moved line' (parseStatement isBuiltin ⟨line, text⟩ items)
      (parseStatement isBuiltin ⟨line', text⟩ items)
  | [] => by
    rw [parseStatement, parseStatement]
    exact .ok _
  | head :: rest => by
    rw [parseStatement.eq_def, parseStatement.eq_def isBuiltin ⟨line', text⟩]
    simp only
    split
    · exact .ok _
    · rename_i t heq
      exact .bind (moved_tokenTree true t) fun _ ↦ .ok _
    · rename_i heq
      cases heq
      refine .ite (.ok _) ?_
      refine moved_orTry (.bind (moved_parseBranch _) fun _ ↦ .ok _) ?_
      refine moved_orTry (.bind (moved_parseDefine _) fun _ ↦ .ok _) ?_
      refine moved_orTry (.bind (moved_parseDim _) fun _ ↦ .ok _) ?_
      refine moved_orTry (.bind (moved_parseSelect _) fun _ ↦ .ok _) ?_
      split
      · rename_i inside hw
        have := size_of_wrapped? hw
        exact moved_parseStatement inside
      · exact .bind (moved_parseExpression _) fun _ ↦ .ok _
termination_by items => 5 * Item.sizeOfRun items + 3
decreasing_by all_goals omega

theorem moved_parseDefine : (items : List Item) →
    Parse.Moved line' (parseDefine isBuiltin ⟨line, text⟩ items)
      (parseDefine isBuiltin ⟨line', text⟩ items)
  | [] => by
    rw [parseDefine, parseDefine]
    exact moved_mismatch _
  | head :: rest => by
    rw [parseDefine.eq_def, parseDefine.eq_def isBuiltin ⟨line', text⟩]
    simp only
    refine .ite (moved_mismatch _) ?_
    by_cases hform : ∃ name inside equals body,
        rest = .token name :: .group .round inside :: equals :: body
    · obtain ⟨name, inside, equals, body, hrest⟩ := hform
      have : Item.sizeOfRun body < Item.sizeOfRun rest := by
        rw [hrest, Item.sizeOfRun_cons, Item.sizeOfRun_cons, Item.sizeOfRun_cons, Item.size_group]
        omega
      rw [hrest]
      simp only
      refine .ite (moved_fault _) (.ite (moved_fault _) (.ite (moved_fault _) ?_))
      exact .bind (moved_parameterNames inside) fun _ ↦
        .bind (moved_parseExpression body) fun _ ↦ .ok _
    split
    · refine .ite (moved_fault _) ?_
      split
      · exact moved_fault _
      · exact absurd ⟨_, _, _, _, rfl⟩ hform
    · exact moved_fault _
termination_by items => 5 * Item.sizeOfRun items
decreasing_by
  simp only [Item.sizeOfRun_cons]
  omega

theorem moved_parseDim (items : List Item) :
    Parse.Moved line' (parseDim isBuiltin ⟨line, text⟩ items)
      (parseDim isBuiltin ⟨line', text⟩ items) := by
  by_cases hform : ∃ head name inside, items = [head, .token name, .group .round inside]
  · obtain ⟨head, name, inside, hitems⟩ := hform
    have : Item.sizeOfRun inside + 3 ≤ Item.sizeOfRun items := by
      rw [hitems, Item.sizeOfRun_cons, Item.sizeOfRun_cons, Item.sizeOfRun_cons, Item.size_group,
        Item.size_token]
      omega
    rw [hitems, parseDim, parseDim]
    refine .ite (.bind (moved_parseArguments inside) fun _ ↦ ?_) (moved_mismatch _)
    exact .ite (moved_fault _) (.ok _)
  · have hother : ∀ head name inside, items = [head, .token name, .group .round inside] → False :=
      fun head name inside hitems ↦ hform ⟨head, name, inside, hitems⟩
    rw [parseDim.eq_2 _ _ _ hother, parseDim.eq_2 _ _ _ hother]
    exact moved_mismatch _
termination_by 5 * Item.sizeOfRun items
decreasing_by omega

theorem moved_parseSelect : (items : List Item) →
    Parse.Moved line' (parseSelect isBuiltin ⟨line, text⟩ items)
      (parseSelect isBuiltin ⟨line', text⟩ items)
  | [] => by
    rw [parseSelect, parseSelect]
    exact moved_mismatch _
  | head :: rest => by
    rw [parseSelect.eq_def, parseSelect.eq_def isBuiltin ⟨line', text⟩]
    simp only
    refine .ite (moved_mismatch _) ?_
    split
    · exact moved_fault _
    rename_i before jump after hcut
    have := size_of_cutFirst? hcut
    refine .bind (moved_parseExpression before) fun _ ↦ .ite (moved_fault _) ?_
    exact .bind (moved_parsePieces after) fun _ ↦ .ok _
termination_by items => 5 * Item.sizeOfRun items
decreasing_by
  all_goals
    simp only [Item.sizeOfRun_cons]
    omega

theorem moved_parseBranch : {asStatement : Bool} → (items : List Item) →
    Parse.Moved line' (parseBranch isBuiltin ⟨line, text⟩ asStatement items)
      (parseBranch isBuiltin ⟨line', text⟩ asStatement items)
  | asStatement, [] => by
    rw [parseBranch, parseBranch]
    exact moved_mismatch _
  | asStatement, head :: rest => by
    rw [parseBranch.eq_def, parseBranch.eq_def isBuiltin ⟨line', text⟩]
    simp only
    refine .ite (moved_mismatch _) ?_
    split
    · exact moved_fault _
    rename_i before cut after hcut
    have := size_of_cutFirst? hcut
    refine .bind (moved_parseExpression before) fun _ ↦ .ite (moved_fault _) ?_
    split
    · exact .bind (moved_parseArm after) fun _ ↦ .ok _
    · rename_i first second helse
      have := size_of_cutElse? helse
      exact .bind (moved_parseArm first) fun _ ↦ .bind (moved_parseArm second) fun _ ↦ .ok _
termination_by _ items => 5 * Item.sizeOfRun items
decreasing_by
  all_goals
    simp only [Item.sizeOfRun_cons]
    omega

theorem moved_parseArm : {asStatement : Bool} → (items : List Item) →
    Parse.Moved line' (parseArm isBuiltin ⟨line, text⟩ asStatement items)
      (parseArm isBuiltin ⟨line', text⟩ asStatement items)
  | true, items => by
    rw [parseArm.eq_def, parseArm.eq_def isBuiltin ⟨line', text⟩]
    exact .bind (moved_parseStatement items) fun _ ↦ .ok _
  | false, items => by
    rw [parseArm.eq_def, parseArm.eq_def isBuiltin ⟨line', text⟩]
    exact moved_parseExpression items
termination_by _ items => 5 * Item.sizeOfRun items + 4
decreasing_by all_goals omega

theorem moved_parseExpression : {inCondition : Bool} → (items : List Item) →
    Parse.Moved line' (parseExpression isBuiltin ⟨line, text⟩ inCondition items)
      (parseExpression isBuiltin ⟨line', text⟩ inCondition items)
  | inCondition, [] => by
    rw [parseExpression, parseExpression]
    exact .ok _
  | inCondition, head :: rest => by
    by_cases hgroup : rest = [] → head.isReserved = true
    · rw [parseExpression_eq inCondition hgroup, parseExpression_eq inCondition hgroup]
      refine .ite (moved_parseBranch _) (.ite (moved_parseCall _) ?_)
      split
      · exact moved_parseCall _
      rename_i k op htop
      have hk := topOperator?_lt htop
      have := Item.sizeOfRun_take_lt hk
      have := Item.sizeOfRun_drop_succ_lt hk
      exact moved_parseSplit op (moved_parseExpression _) (moved_parseExpression _)
    obtain ⟨hrest, ⟨bracket, inside, hhead⟩ | ⟨t, hhead, hreserved⟩⟩ :=
      Item.eq_of_not_isReserved hgroup
    · have : Item.sizeOfRun inside < Item.sizeOfRun (head :: rest) := by
        rw [hhead, Item.sizeOfRun_cons, Item.size_group]
        omega
      rw [hhead, hrest]
      cases bracket with
      | round =>
        rw [parseExpression, parseExpression]
        exact moved_parseExpression inside
      | square =>
        rw [parseExpression, parseExpression]
        exact .bind (moved_parameterNames inside) fun _ ↦ .ok _
      | curly =>
        rw [parseExpression, parseExpression]
        exact moved_parseArray inside
    · rw [hhead, hrest, parseExpression_token _ hreserved, parseExpression_token _ hreserved]
      exact moved_tokenTree false t
termination_by _ items => 5 * Item.sizeOfRun items + 1
decreasing_by
  all_goals
    simp only [Item.sizeOfRun_cons] at *
    omega

theorem moved_parseArray : (inside : List Item) →
    Parse.Moved line' (parseArray isBuiltin ⟨line, text⟩ inside)
      (parseArray isBuiltin ⟨line', text⟩ inside)
  | inside => by
    rw [parseArray.eq_def, parseArray.eq_def isBuiltin ⟨line', text⟩]
    exact .ite (.ok _) (.ite (moved_fault _) (.bind (moved_parsePieces inside) fun _ ↦ .ok _))
termination_by inside => 5 * Item.sizeOfRun inside + 3
decreasing_by all_goals omega

theorem moved_parsePieces : (items : List Item) →
    Parse.Moved line' (parsePieces isBuiltin ⟨line, text⟩ items)
      (parsePieces isBuiltin ⟨line', text⟩ items)
  | items => by
    rw [parsePieces.eq_def, parsePieces.eq_def isBuiltin ⟨line', text⟩]
    refine .mapM fun ⟨piece, hpiece⟩ _ ↦ ?_
    have := Item.sizeOfRun_le_of_mem_cutAt hpiece
    exact moved_parseExpression piece
termination_by items => 5 * Item.sizeOfRun items + 2
decreasing_by omega

theorem moved_parseArguments : (items : List Item) →
    Parse.Moved line' (parseArguments isBuiltin ⟨line, text⟩ items)
      (parseArguments isBuiltin ⟨line', text⟩ items)
  | items => by
    rw [parseArguments.eq_def, parseArguments.eq_def isBuiltin ⟨line', text⟩]
    exact .ite (.ok _) (.bind (moved_parsePieces items) fun _ ↦ .ok _)
termination_by items => 5 * Item.sizeOfRun items + 3
decreasing_by omega

theorem moved_parseCall : (items : List Item) →
    Parse.Moved line' (parseCall isBuiltin ⟨line, text⟩ items)
      (parseCall isBuiltin ⟨line', text⟩ items)
  | [] => by
    rw [parseCall, parseCall]
    exact moved_mismatch _
  | head :: rest => by
    have := head.size_pos
    by_cases hround : ∃ inside, head = .group .round inside
    · obtain ⟨inside, hhead⟩ := hround
      have : head.size = 2 + Item.sizeOfRun inside := by rw [hhead, Item.size_group]
      rw [hhead, parseCall, parseCall]
      refine .bind (moved_parseExpression inside) fun _ ↦ ?_
      exact .ite (moved_parseChain rest) (moved_mismatch _)
    have hother : ∀ inside, head = .group .round inside → False :=
      fun inside h ↦ hround ⟨inside, h⟩
    rw [parseCall.eq_3 _ _ _ _ hother, parseCall.eq_3 _ _ _ _ hother]
    simp only
    split
    · exact moved_mismatch _
    split
    · exact moved_orTry (moved_parseChain rest) (.bind (moved_parseArguments rest) fun _ ↦ .ok _)
    · exact .bind (moved_parseArguments rest) fun _ ↦ .ok _
termination_by items => 5 * Item.sizeOfRun items
decreasing_by
  all_goals
    simp only [Item.sizeOfRun_cons]
    omega

theorem moved_parseChain : {callee : Callee} → (items : List Item) →
    Parse.Moved line' (parseChain isBuiltin ⟨line, text⟩ callee items)
      (parseChain isBuiltin ⟨line', text⟩ callee items)
  | callee, items => by
    by_cases hround : ∃ inside rest, items = .group .round inside :: rest
    · obtain ⟨inside, rest, hitems⟩ := hround
      have : Item.sizeOfRun inside + 2 + Item.sizeOfRun rest = Item.sizeOfRun items := by
        rw [hitems, Item.sizeOfRun_cons, Item.size_group]
        omega
      rw [hitems, parseChain, parseChain]
      exact .bind (moved_parseArguments inside) fun _ ↦ .ite (.ok _) (moved_parseChain rest)
    · have hother : ∀ inside rest, items = .group .round inside :: rest → False :=
        fun inside rest hitems ↦ hround ⟨inside, rest, hitems⟩
      rw [parseChain.eq_2 _ _ _ _ hother, parseChain.eq_2 _ _ _ _ hother]
      exact moved_mismatch _
termination_by _ items => 5 * Item.sizeOfRun items
decreasing_by all_goals omega

end

/-! ## Lines -/

theorem renamed_numberPiece (c : Char) (cs : List Char) :
    Renamed (Fault.onLine line') (numberPiece ⟨line, text⟩ c cs)
      (numberPiece ⟨line', text⟩ c cs) := by
  rw [numberPiece.eq_def, numberPiece.eq_def ⟨line', text⟩]
  simp only
  split
  · exact .ok _
  · refine .ite ?_ (.ok _)
    split
    · rfl
    · exact .ite (.ok _) rfl

theorem renamed_nextPiece (c : Char) (cs : List Char) :
    Renamed (Fault.onLine line') (nextPiece ⟨line, text⟩ c cs) (nextPiece ⟨line', text⟩ c cs) := by
  rw [nextPiece, nextPiece]
  refine .ite (.ite (.ok _) rfl) ?_
  exact .ite (.ok _) (.ite (.ok _) (.ite (.ok _) (.ite (.ok _)
    (.ite (renamed_numberPiece c cs) (.ok _)))))

theorem renamed_scanFrom : (column : Nat) → (cs : List Char) →
    Renamed (Fault.onLine line') (scanFrom ⟨line, text⟩ column cs) (scanFrom ⟨line', text⟩ column cs)
  | _, [] => by
    rw [scanFrom, scanFrom]
    exact .ok _
  | column, c :: cs => by
    rw [scanFrom, scanFrom]
    exact .bind (renamed_nextPiece c cs) fun piece ↦
      .bind (renamed_scanFrom _ (cs.drop piece.more)) fun _ ↦ .ok _
termination_by _ cs => cs.length
decreasing_by
  simp only [List.length_drop, List.length_cons]
  omega

theorem renamed_gatherFrom (stack : List Item.Open) (done : List Item) (tokens : List Token) :
    Renamed (Fault.onLine line') (Item.gatherFrom ⟨line, text⟩ stack done tokens)
      (Item.gatherFrom ⟨line', text⟩ stack done tokens) := by
  induction tokens generalizing stack done with
  | nil => cases stack <;> rfl
  | cons t ts ih =>
    rw [Item.gatherFrom.eq_def, Item.gatherFrom.eq_def ⟨line', text⟩]
    simp only
    refine .ite ?_ (ih _ _)
    cases Bracket.ofOpening? t.text with
    | some bracket => exact ih _ _
    | none =>
      cases stack with
      | nil => rfl
      | cons o stack => exact .ite (ih _ _) rfl

theorem renamed_parseTopStatement (items : List Item) :
    Renamed (Stop.onLine line') (parseTopStatement isBuiltin ⟨line, text⟩ items)
      (parseTopStatement isBuiltin ⟨line', text⟩ items) := by
  refine .ite rfl ?_
  have h : parseStatement isBuiltin ⟨line', text⟩ items =
      (parseStatement isBuiltin ⟨line, text⟩ items).mapError (Refusal.onLine line') :=
    moved_parseStatement items
  rw [h]
  cases parseStatement isBuiltin ⟨line, text⟩ items with
  | ok tree => rfl
  | error refusal => cases refusal <;> rfl

theorem renamed_parseTokens (tokens : List Token) :
    Renamed (Stop.onLine line') (parseTokens isBuiltin line tokens)
      (parseTokens isBuiltin line' tokens) :=
  .ite (.ok _) <| .bind ((renamed_gatherFrom _ _ _).mapError fun _ ↦ rfl) fun _ ↦
    .mapM fun piece _ ↦ renamed_parseTopStatement piece

theorem renamed_settledTokens (text : String) :
    Renamed (Stop.onLine line') (settledTokens line text) (settledTokens line' text) := by
  refine .bind ((renamed_scanFrom _ _).mapError fun _ ↦ rfl) fun tokens ↦ ?_
  cases Token.settleAll tokens with
  | ok settled => rfl
  | error mishap => rfl

/-- A text is read in the same way on every line, but that faults are attributed to the line. -/
theorem parseLine_onLine (isBuiltin : String → Bool) (line line' : Option Int) (text : String) :
    parseLine isBuiltin line' text =
      (parseLine isBuiltin line text).mapError (Stop.onLine line') := by
  have hraw : Renamed (Stop.onLine line') (parseRaw isBuiltin line text)
      (parseRaw isBuiltin line' text) :=
    .ite (.ok _) (.bind (renamed_settledTokens text) fun _ ↦ renamed_parseTokens _)
  exact hraw.bind fun _ ↦ .ok _

end
end LineBasic
