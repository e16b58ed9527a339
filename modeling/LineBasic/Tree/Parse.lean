import LineBasic.Numeral
import LineBasic.Tree.Item
import LineBasic.Value

/-!
# Parsing statements and expressions

A statement is one of a few forms told apart by their first word, or else an expression.  An
expression is split at its loosest operator outside brackets, of equally loose ones at the last, or
at the first if they group to the right.  What has no operator is a call.

A form that does not fit a run of items refuses it by a *mismatch*, and the next form is tried; a
form that fits but is malformed is a fault.  A mismatch that is left over in the end becomes a fault
of the statement.

All parsing functions recurse on the number of tokens of the run they are given.  Those that pass
the whole run on do so to a function of lower rank: a statement to an expression, an expression to
a call.
-/

set_option autoImplicit false
namespace LineBasic

/-- Why a run of items was not parsed. -/
inductive Refusal where
  /-- The form does not apply; another one may. -/
  | mismatch (why : String)
  | stop (stop : Stop)

/-- The result of parsing. -/
abbrev Parse (α : Type) : Type := Except Refusal α

namespace Parse

/-- A form that does not apply. -/
def mismatch {α : Type} (why : String) : Parse α :=
  .error (.mismatch why)

/-- A malformed statement; the context is the whole line unless another is given. -/
def fault {α : Type} (source : Source) (f : Fault) : Parse α :=
  .error (.stop (.fault { f with
    line := source.line
    context := some (f.context.getD source.text) }))

/-- Tries another form where one does not apply. -/
def orTry {α : Type} (first : Parse α) (second : Unit → Parse α) : Parse α :=
  match first with
  | .error (.mismatch _) => second ()
  | result => result

/-- Computes a number that may not exist. -/
def ofNumber {α : Type} : Except Number.Mishap α → Parse α
  | .ok x => .ok x
  | .error mishap => .error (.stop (.mishap mishap))

end Parse

/-! ## Words and literals -/

/-- The words that start or join statement forms and are no names. -/
def isReservedWord (word : String) : Bool :=
  ["IF", "THEN", "ELSE", "DEFUN", "ON"].contains word

/-- Whether the item is a reserved word. -/
def Item.isReserved (i : Item) : Bool :=
  i.literal?.any isReservedWord

/-- The tree of a token that stands alone.  A name that is a whole statement is a call. -/
def tokenTree (asStatement : Bool) (t : Token) : Parse Tree :=
  match t.cls with
  | .quoted => .ok (.string t.text)
  | .number => return .number (← Parse.ofNumber (Numeral.value t.text))
  | .boolean => .ok (.boolean (Text.upper t.text == "TRUE"))
  | .literal | .operator =>
    let name := Text.upper t.text
    .ok (if asStatement then .call name [] [] else .ident name)
  | _ => Parse.mismatch ("unexpected '" ++ t.text ++ "'")

/-- A parameter name that occurs twice. -/
def duplicateParameter (source : Source) (name : String) : Fault :=
  { kind := .duplicateDefinition, message := "Duplicate definition on " ++ name
    line := source.line, context := some source.text
    suggestion := some "Give each parameter a distinct name" }

/-- Reads pieces as distinct parameter names, after those already read. -/
def namesFrom (source : Source) (seen : List String) : List (List Item) → Parse (List String)
  | [] => .ok seen
  | [i] :: pieces => match i.literal? with
    | some name =>
      if seen.contains name then .error (.stop (.fault (duplicateParameter source name)))
      else namesFrom source (seen ++ [name]) pieces
    | none => Parse.mismatch "parameter names must be single identifiers"
  | _ :: _ => Parse.mismatch "parameter names must be single identifiers"

/-- The pieces of a run between its separators, and the separators. -/
def separated (items : List Item) : List (List Item) × List Separator :=
  let (pieces, cuts) := Item.cutAt (·.isClass .separator) items
  (pieces, cuts.map fun i ↦ if i.headText == "," then .comma else .semicolon)

/-- A list of parameter names. -/
def parameterNames (source : Source) (items : List Item) : Parse (List String) :=
  if items.isEmpty then .ok [] else namesFrom source [] (separated items).1

/-- The parameters on the left of a function arrow: a name, or names in brackets. -/
def lambdaNames (source : Source) (items : List Item) : Parse (List String) :=
  match items with
  | [.group .square inside] => parameterNames source inside
  | [.group .round inside] => parameterNames source inside
  | _ => match items.mapM Item.literal? with
    | some [name] => .ok [name]
    | _ => Parse.fault source
        { kind := .syntaxError, message := "Malformed lambda parameter list"
          received := some (Item.joined items), expected := some "[X, Y] ~> expression" }

/-! ## The loosest operator -/

/-- Whether an operator after the item stands between operands. -/
def Item.endsOperand : Item → Bool
  | .group _ _ => true
  | .token t => match t.cls with
    | .quoted | .number | .boolean | .literal => true
    | _ => false

/-- The operator that the item is. -/
def Item.operator? : Item → Option Operator
  | .token t => if t.cls == .operator then Operator.ofText? t.text else none
  | .group _ _ => none

/-- The operators of a run that an expression may be split at, with their positions from `k` on.
An operator counts only at the start or after the end of an operand, which `ready` tells. -/
def operatorSites : Nat → Bool → List Item → List (Nat × Operator)
  | _, _, [] => []
  | k, ready, i :: is =>
    let rest := operatorSites (k + 1) i.endsOperand is
    match if ready then i.operator? else none with
    | some op => (k, op) :: rest
    | none => rest

/-- Of two sites in order, the one that binds more loosely; of equals the second, unless its
operator groups to the right. -/
def looser (best : Nat × Operator) (site : Nat × Operator) : Nat × Operator :=
  if best.2.precedence < site.2.precedence
    ∨ best.2.precedence = site.2.precedence ∧ ¬ site.2.isRightAssociative then site else best

/-- The site that an expression is split at. -/
def loosest? : List (Nat × Operator) → Option (Nat × Operator)
  | [] => none
  | site :: sites => some (sites.foldl looser site)

/-- The operator that a run is split at. -/
def topOperator? (items : List Item) : Option (Nat × Operator) :=
  loosest? (operatorSites 0 true items)

theorem lt_of_mem_operatorSites {k : Nat} {ready : Bool} {items : List Item}
    {site : Nat × Operator} (h : site ∈ operatorSites k ready items) :
    site.1 < k + items.length := by
  induction items generalizing k ready with
  | nil => simp [operatorSites] at h
  | cons i is ih =>
    rw [operatorSites] at h
    have hrest : site ∈ operatorSites (k + 1) i.endsOperand is → site.1 < k + (i :: is).length := by
      intro h
      have := ih h
      simp only [List.length_cons]
      omega
    split at h
    · rcases List.mem_cons.1 h with rfl | h
      · simp
      · exact hrest h
    · exact hrest h

theorem foldl_looser_mem (sites : List (Nat × Operator)) (site : Nat × Operator) :
    sites.foldl looser site ∈ site :: sites := by
  induction sites generalizing site with
  | nil => simp
  | cons s sites ih =>
    rw [List.foldl_cons]
    have := ih (looser site s)
    rcases List.mem_cons.1 this with h | h
    · rw [h]
      unfold looser
      split <;> simp
    · simp [h]

theorem topOperator?_lt {items : List Item} {site : Nat × Operator}
    (h : topOperator? items = some site) : site.1 < items.length := by
  unfold topOperator? at h
  cases hs : operatorSites 0 true items with
  | nil => simp [hs, loosest?] at h
  | cons s sites =>
    rw [hs, loosest?, Option.some.injEq] at h
    have hmem := foldl_looser_mem sites s
    rw [h, ← hs] at hmem
    simpa using lt_of_mem_operatorSites hmem

/-! ## Cutting conditionals -/

/-- Cuts a run at the first item that a test accepts: what is before it, and it with the rest. -/
def cutFirst? (test : Item → Bool) : List Item → Option (List Item × Item × List Item)
  | [] => none
  | i :: is =>
    if test i then some ([], i, is)
    else (cutFirst? test is).map fun (before, cut, after) ↦ (i :: before, cut, after)

/-- Cuts what follows `THEN` at the `ELSE` that belongs to it: each `IF` in between claims one. -/
def cutElse? : Nat → List Item → Option (List Item × List Item)
  | _, [] => none
  | open_, i :: is =>
    if i.isWord "IF" then
      (cutElse? (open_ + 1) is).map fun (before, after) ↦ (i :: before, after)
    else if i.isWord "ELSE" then
      if open_ = 0 then some ([], is)
      else (cutElse? (open_ - 1) is).map fun (before, after) ↦ (i :: before, after)
    else (cutElse? open_ is).map fun (before, after) ↦ (i :: before, after)

theorem size_of_cutFirst? {test : Item → Bool} {is before after : List Item} {cut : Item}
    (h : cutFirst? test is = some (before, cut, after)) :
    Item.sizeOfRun before + Item.sizeOfRun after < Item.sizeOfRun is := by
  induction is generalizing before with
  | nil => simp [cutFirst?] at h
  | cons i is ih =>
    have := i.size_pos
    rw [cutFirst?] at h
    split at h
    · simp only [Option.some.injEq, Prod.mk.injEq] at h
      obtain ⟨rfl, rfl, rfl⟩ := h
      simp only [Item.sizeOfRun_nil, Item.sizeOfRun_cons]
      omega
    · obtain ⟨⟨b, c, a⟩, hb, heq⟩ := Option.map_eq_some_iff.1 h
      simp only [Prod.mk.injEq] at heq
      obtain ⟨rfl, rfl, rfl⟩ := heq
      have := ih hb
      simp only [Item.sizeOfRun_cons]
      omega

theorem size_of_cutElse? {open_ : Nat} {is before after : List Item}
    (h : cutElse? open_ is = some (before, after)) :
    Item.sizeOfRun before + Item.sizeOfRun after < Item.sizeOfRun is := by
  induction is generalizing before open_ with
  | nil => simp [cutElse?] at h
  | cons i is ih =>
    have := i.size_pos
    have step : ∀ n, (cutElse? n is).map (fun p ↦ (i :: p.1, p.2)) = some (before, after) →
        Item.sizeOfRun before + Item.sizeOfRun after < Item.sizeOfRun (i :: is) := by
      intro n hn
      obtain ⟨⟨b, a⟩, hb, heq⟩ := Option.map_eq_some_iff.1 hn
      simp only [Prod.mk.injEq] at heq
      obtain ⟨rfl, rfl⟩ := heq
      have := ih hb
      simp only [Item.sizeOfRun_cons]
      omega
    rw [cutElse?] at h
    split at h
    · exact step _ h
    · split at h
      · split at h
        · simp only [Option.some.injEq, Prod.mk.injEq] at h
          obtain ⟨rfl, rfl⟩ := h
          simp only [Item.sizeOfRun_nil, Item.sizeOfRun_cons]
          omega
        · exact step _ h
      · exact step _ h

/-- What stands inside the round brackets that a run consists of. -/
def wrapped? : List Item → Option (List Item)
  | [.group .round inside] => some inside
  | _ => none

/-- Whether a run starts with round brackets. -/
def opensRound : List Item → Bool
  | .group .round _ :: _ => true
  | _ => false

theorem size_of_wrapped? {items inside : List Item} (h : wrapped? items = some inside) :
    Item.sizeOfRun inside < Item.sizeOfRun items := by
  unfold wrapped? at h
  split at h
  · simp only [Option.some.injEq] at h
    subst h
    simp only [Item.sizeOfRun_cons, Item.size_group, Item.sizeOfRun_nil]
    omega
  · simp at h

/-! ## Forms -/

/-- What is called: a name, or the value of a tree. -/
inductive Callee where
  | named (name : String)
  | tree (t : Tree)

/-- A call with arguments. -/
def Callee.call (callee : Callee) (args : List Tree) (separators : List Separator) : Tree :=
  match callee with
  | .named name => .call name args separators
  | .tree t => .apply t args separators

section
variable (isBuiltin : String → Bool) (source : Source)

mutual

/-- A statement; a remark has no tree. -/
def parseStatement (items : List Item) : Parse (Option Tree) :=
  match items with
  | [] => .ok (some .null)
  | [.token t] => return some (← tokenTree true t)
  | head :: rest =>
    if head.isWord "REM" then .ok none
    else
      Parse.orTry (return some (← parseBranch true (head :: rest))) fun _ ↦
      Parse.orTry (return some (← parseDefine (head :: rest))) fun _ ↦
      Parse.orTry (return some (← parseDim (head :: rest))) fun _ ↦
      Parse.orTry (return some (← parseSelect (head :: rest))) fun _ ↦
      match h : wrapped? (head :: rest) with
      | some inside =>
        have := size_of_wrapped? h
        parseStatement inside
      | none => return some (← parseExpression false (head :: rest))
termination_by 5 * Item.sizeOfRun items + 3
decreasing_by all_goals omega

/-- The definition of a named function. -/
def parseDefine (items : List Item) : Parse Tree :=
  match items with
  | [] => Parse.mismatch "not a DEFUN"
  | head :: rest =>
    if !head.isWord "DEFUN" then Parse.mismatch "not a DEFUN"
    else match rest with
      | .token name :: .group .round inside :: rest =>
        if name.cls != .literal || (inside.isEmpty && rest.isEmpty) then
          Parse.fault source
            { kind := .syntaxError, message := "Malformed DEFUN"
              expected := some "DEFUN name(params) = expression"
              suggestion := some "DEFUN SQ(X) = X * X" }
        else match rest with
          | [] => Parse.fault source
              { kind := .syntaxError
                message := "Malformed DEFUN: missing '=' after the parameter list"
                expected := some "DEFUN name(params) = expression" }
          | equals :: body =>
            if equals.headText != "=" then
              Parse.fault source
                { kind := .syntaxError
                  message := "Malformed DEFUN: missing '=' after the parameter list"
                  expected := some "DEFUN name(params) = expression" }
            else if body.isEmpty then
              Parse.fault source
                { kind := .syntaxError, message := "Malformed DEFUN: missing function body" }
            else do
              let names ← parameterNames source inside
              return .define (Text.upper name.text) names (← parseExpression false body)
      | _ => Parse.fault source
          { kind := .syntaxError, message := "Malformed DEFUN"
            expected := some "DEFUN name(params) = expression"
            suggestion := some "DEFUN SQ(X) = X * X" }
termination_by 5 * Item.sizeOfRun items
decreasing_by
  all_goals
    simp
    omega

/-- The declaration of an array by its dimensions, which assigns it. -/
def parseDim (items : List Item) : Parse Tree :=
  match items with
  | [head, .token name, .group .round inside] =>
    if head.isWord "DIM" && name.cls == .literal then do
      let (args, separators) ← parseArguments inside
      if args.isEmpty then
        Parse.fault source
          { kind := .syntaxError, message := "DIM needs at least one dimension"
            suggestion := some "DIM A(10)" }
      else
        return .binary .assign (.ident (Text.upper name.text)) (.call "DIM" args separators)
    else Parse.mismatch "not a DIM declaration"
  | _ => Parse.mismatch "not a DIM declaration"
termination_by 5 * Item.sizeOfRun items
decreasing_by
  all_goals
    simp
    omega

/-- A computed jump. -/
def parseSelect (items : List Item) : Parse Tree :=
  match items with
  | [] => Parse.mismatch "not an ON statement"
  | head :: rest =>
    if !head.isWord "ON" then Parse.mismatch "not an ON statement"
    else match h : cutFirst? (fun i ↦ i.isWord "GOTO" || i.isWord "GOSUB") rest with
      | none => Parse.fault source
          { kind := .syntaxError, message := "ON without GOTO or GOSUB"
            expected := some "ON expr GOTO target, target, ..." }
      | some (before, jump, after) => do
        have := size_of_cutFirst? h
        let test ← parseExpression false before
        if test.isNull || (separated after).1.all List.isEmpty then
          Parse.fault source
            { kind := .syntaxError, message := "Malformed ON statement"
              expected := some "ON expr GOTO target, target, ..." }
        else
          let targets ← parsePieces after
          return .select (if jump.isWord "GOTO" then .goto else .gosub) test targets
termination_by 5 * Item.sizeOfRun items
decreasing_by
  all_goals
    simp only [Item.sizeOfRun_cons]
    omega

/-- A conditional.  In a statement its branches are statements, of which a remark counts as empty;
in an expression they are expressions. -/
def parseBranch (asStatement : Bool) (items : List Item) : Parse Tree :=
  match items with
  | [] => Parse.mismatch "not an IF"
  | head :: rest =>
    if !head.isWord "IF" then Parse.mismatch "not an IF"
    else match h : cutFirst? (·.isWord "THEN") rest with
      | none => Parse.fault source
          { kind := .syntaxError, message := "IF without THEN"
            expected := some "IF condition THEN statement [ELSE statement]" }
      | some (before, _, after) => do
        have := size_of_cutFirst? h
        let condition ← parseExpression true before
        if condition.isNull then
          Parse.fault source { kind := .syntaxError, message := "IF without a condition" }
        else
          match h' : cutElse? 0 after with
          | none => do
            let yes ← parseArm asStatement after
            return .branch condition yes none
          | some (yes, no) => do
            have := size_of_cutElse? h'
            let yes ← parseArm asStatement yes
            let no ← parseArm asStatement no
            return .branch condition yes (some no)
termination_by 5 * Item.sizeOfRun items
decreasing_by
  all_goals
    simp only [Item.sizeOfRun_cons]
    omega

/-- A branch of a conditional. -/
def parseArm (asStatement : Bool) (items : List Item) : Parse Tree := do
  if asStatement then return (← parseStatement items).getD .null
  else parseExpression false items
termination_by 5 * Item.sizeOfRun items + 4
decreasing_by all_goals omega

/-- An expression.  With `inCondition`, a split at an assignment is refused as a likely mistake. -/
def parseExpression (inCondition : Bool) (items : List Item) : Parse Tree :=
  match items with
  | [] => .ok .null
  | head :: rest =>
    match head, rest with
    | .group .square inside, [] => return .params (← parameterNames source inside)
    | .group .curly inside, [] => parseArray inside
    | .group .round inside, [] => parseExpression false inside
    | head, rest =>
      match head, rest.isEmpty && !head.isReserved with
      | .token t, true => tokenTree false t
      | head, _ =>
        if head.isWord "IF" then parseBranch false (head :: rest)
        else if head.literal?.any isBuiltin && !opensRound rest then parseCall (head :: rest)
        else match h : topOperator? (head :: rest) with
          | none => parseCall (head :: rest)
          | some (k, op) =>
            have hk := topOperator?_lt h
            have := Item.sizeOfRun_take_lt hk
            have := Item.sizeOfRun_drop_succ_lt hk
            let left := (head :: rest).take k
            let right := (head :: rest).drop (k + 1)
            if inCondition && op == .assign then
              Parse.fault source
                { kind := .syntaxError, message := "'=' used on IF, did you mean '=='?"
                  received := some source.text }
            else if k = 0 then
              match UnaryOperator.ofOperator? op with
              | none => Parse.mismatch ("unknown unary operator '" ++ op.text ++ "'")
              | some unary =>
                if right.isEmpty then
                  Parse.fault source
                    { kind := .syntaxError, message := "Missing operand for '" ++ op.text ++ "'" }
                else return .unary unary (← parseExpression false right)
            else if right.isEmpty then
              Parse.fault source
                { kind := .syntaxError
                  message := "Missing right operand for '" ++ op.text ++ "'" }
            else if op == .lambda then do
              let names ← lambdaNames source left
              return .lambda names (← parseExpression false right)
            else do
              let left ← parseExpression false left
              let right ← parseExpression false right
              return .binary op left right
termination_by 5 * Item.sizeOfRun items + 1
decreasing_by all_goals simp_all <;> omega

/-- The elements of an array, between its brackets. -/
def parseArray (inside : List Item) : Parse Tree :=
  if inside.isEmpty then .ok (.array [])
  else if (separated inside).1.any List.isEmpty then
    Parse.fault source
      { kind := .syntaxError, message := "Empty array element", received := some source.text }
  else return .array (← parsePieces inside)
termination_by 5 * Item.sizeOfRun inside + 3
decreasing_by all_goals omega

/-- The expressions between the separators of a run. -/
def parsePieces (items : List Item) : Parse (List Tree) :=
  (separated items).1.attach.mapM fun ⟨piece, _⟩ ↦ parseExpression false piece
termination_by 5 * Item.sizeOfRun items + 2
decreasing_by
  rename_i h
  have := Item.sizeOfRun_le_of_mem_cutAt h
  omega

/-- The arguments of a call and the separators between them. -/
def parseArguments (items : List Item) : Parse (List Tree × List Separator) :=
  if items.isEmpty then .ok ([], [])
  else return (← parsePieces items, (separated items).2)
termination_by 5 * Item.sizeOfRun items + 3
decreasing_by all_goals omega

/-- A call: of an expression in brackets, or of a name with arguments in brackets or without. -/
def parseCall (items : List Item) : Parse Tree :=
  match items with
  | [] => Parse.mismatch "'' is not callable"
  | .group .round inside :: rest => do
    let callee ← parseExpression false inside
    if opensRound rest then parseChain (.tree callee) rest
    else Parse.mismatch "expected an argument list after a parenthesised callee"
  | head :: rest =>
    have := head.size_pos
    match head.literal? with
    | none => Parse.mismatch ("'" ++ head.headText ++ "' is not callable")
    | some name =>
      let plain : Unit → Parse Tree := fun _ ↦ do
        let (args, separators) ← parseArguments rest
        return .call name args separators
      if opensRound rest then Parse.orTry (parseChain (.named name) rest) plain
      else plain ()
termination_by 5 * Item.sizeOfRun items
decreasing_by
  all_goals
    simp only [Item.sizeOfRun_cons, Item.size_group]
    omega

/-- One argument list after the other, each for what the call before it returns. -/
def parseChain (callee : Callee) (items : List Item) : Parse Tree :=
  match items with
  | .group .round inside :: rest => do
    let (args, separators) ← parseArguments inside
    let node := callee.call args separators
    if rest.isEmpty then return node else parseChain (.tree node) rest
  | _ => Parse.mismatch "unexpected tokens after argument list"
termination_by 5 * Item.sizeOfRun items
decreasing_by all_goals simp <;> omega

end

end

end LineBasic
