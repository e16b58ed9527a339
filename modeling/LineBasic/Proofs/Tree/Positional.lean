import LineBasic.Tree.Line

/-!
# Parsing by positions

The parser may also work on tokens as they stand in the line.  Then it finds what is outside of
brackets by counting them, it finds the partner of a bracket by searching for it, and it cuts runs
of tokens at positions.  Nothing is balanced by construction: a bracket may close that was not
opened, a partner may be missing, a position may be behind the end of a run.

Here is this parser, with all that can go wrong in it as a *slip*.  It keeps account of the runs
that its functions hand to each other, and it recurses on a number of steps that it is given.

* `Slip` — what goes wrong, if a run is not as the parser takes it to be.
* `Production`, `Task`, `Handing` — a parsing function, the run that it is handed, and the next
  one that it hands a run to.
* `outside`, `matchingClose`, `cutAt` — counting, searching and cutting.
* `parsers`, `parseTokens` — the parser.
-/

set_option autoImplicit false
namespace LineBasic

/-! ## Brackets -/

/-- The kind of a closing bracket. -/
def Bracket.ofClosing? (s : String) : Option Bracket :=
  [round, square, curly].find? (·.closing == s)

namespace Token

/-- Whether the token is an opening bracket of the kind. -/
def opens (b : Bracket) (t : Token) : Bool :=
  t.cls == .paren && t.text == b.opening

/-- Whether the token is an opening bracket, if it is a bracket. -/
def isOpening (t : Token) : Bool :=
  (Bracket.ofOpening? t.text).isSome

/-- Whether an operator after the token stands between operands. -/
def endsOperand (t : Token) : Bool :=
  match t.cls with
  | .paren => (Bracket.ofClosing? t.text).isSome
  | .quoted | .number | .boolean | .literal => true
  | _ => false

/-- Whether the token is a reserved word. -/
def isReserved (t : Token) : Bool :=
  t.cls == .literal && isReservedWord (Text.upper t.text)

end Token

namespace Positional

/-- The brackets that are left open by a closing bracket, of those open before it. -/
def close? (text : String) : List Bracket → Option (List Bracket)
  | [] => none
  | b :: stack => if b.closing == text then some stack else none

/-- The first bracket without a partner, inside brackets of the given kinds, innermost first. -/
def unmatched? : List Bracket → List Token → Option String
  | stack, [] => stack.head?.map Bracket.opening
  | stack, t :: ts =>
    if t.cls == .paren then
      match Bracket.ofOpening? t.text with
      | some b => unmatched? (b :: stack) ts
      | none => match close? t.text stack with
        | some stack => unmatched? stack ts
        | none => some t.text
    else unmatched? stack ts

/-- Whether each bracket of a run has its partner in it, of the same kind. -/
def IsBalanced (run : List Token) : Prop :=
  unmatched? [] run = none

/-! ## Slips -/

/-- What can go wrong. -/
inductive Slip where
  /-- A bracket closes that was not opened. -/
  | depth
  /-- The search for the partner of a bracket comes to the end. -/
  | partner
  /-- There is no token at a position. -/
  | position
  /-- A chain of calls ends without a call. -/
  | uncalled
  /-- There are no steps left. -/
  | steps

/-- The token at a position. -/
def tokenAt (tokens : List Token) (k : Nat) : Except Slip Token :=
  match tokens[k]? with
  | some t => .ok t
  | none => .error .position

/-- The tokens outside of brackets with their positions, from the position `k` on, which is inside
`depth` brackets. -/
def outsideFrom : (depth k : Nat) → List Token → Except Slip (List (Nat × Token))
  | _, _, [] => .ok []
  | depth, k, t :: ts =>
    if t.cls == .paren then
      if t.isOpening then outsideFrom (depth + 1) (k + 1) ts
      else if depth = 0 then .error .depth
      else outsideFrom (depth - 1) (k + 1) ts
    else if depth = 0 then return (k, t) :: (← outsideFrom depth (k + 1) ts)
    else outsideFrom depth (k + 1) ts

/-- The tokens of a run outside of brackets, with their positions. -/
def outside (tokens : List Token) : Except Slip (List (Nat × Token)) :=
  outsideFrom 0 0 tokens

/-- The position where the brackets are closed that are open at the position `k`. -/
def closeFrom : (depth k : Nat) → List Token → Except Slip Nat
  | _, _, [] => .error .partner
  | depth, k, t :: ts =>
    if t.cls == .paren then
      if t.isOpening then closeFrom (depth + 1) (k + 1) ts
      else if depth = 0 then .error .depth
      else if depth = 1 then .ok k
      else closeFrom (depth - 1) (k + 1) ts
    else closeFrom depth (k + 1) ts

/-- The position of the partner of a bracket. -/
def matchingClose (tokens : List Token) (k : Nat) : Except Slip Nat :=
  closeFrom 0 k (tokens.drop k)

/-- Whether a run is a pair of brackets of the kind, with what is inside. -/
def isWrapped (b : Bracket) (tokens : List Token) : Except Slip Bool := do
  if tokens.length < 2 then return false
  if !(← tokenAt tokens 0).opens b then return false
  return (← matchingClose tokens 0) == tokens.length - 1

/-- The tokens from one position up to another. -/
def slice (tokens : List Token) (start stop : Nat) : List Token :=
  (tokens.take stop).drop start

/-- What is inside a pair of brackets. -/
def inner (tokens : List Token) : List Token :=
  tokens.tail.dropLast

/-- The tokens between positions, from a position on. -/
def pieces (tokens : List Token) (start : Nat) : List Nat → List (List Token)
  | [] => [tokens.drop start]
  | k :: ks => slice tokens start k :: pieces tokens (k + 1) ks

/-- A run cut at the tokens of a class outside of brackets: the pieces, and the tokens cut at. -/
def cutAt (cls : TokenClass) (tokens : List Token) :
    Except Slip (List (List Token) × List Token) := do
  let cuts := (← outside tokens).filter (·.2.cls == cls)
  return (pieces tokens 0 (cuts.map Prod.fst), cuts.map Prod.snd)

/-- The pieces of a run between its separators, and the separators. -/
def separated (tokens : List Token) : Except Slip (List (List Token) × List Separator) := do
  let (pieces, cuts) ← cutAt .separator tokens
  return (pieces, cuts.map fun t ↦ if t.text == "," then .comma else .semicolon)

/-! ## The loosest operator -/

/-- The operator that a token outside of brackets is, if an expression may be split there. -/
def site? (tokens : List Token) (k : Nat) (t : Token) : Except Slip (Option (Nat × Operator)) := do
  if t.cls != .operator then return none
  match Operator.ofText? t.text with
  | none => return none
  | some op =>
    if k = 0 then return some (k, op)
    else return if (← tokenAt tokens (k - 1)).endsOperand then some (k, op) else none

/-- The looser of two sites, of which one may be missing. -/
def best (found : Option (Nat × Operator)) (site : Nat × Operator) : Option (Nat × Operator) :=
  let looseness := (found.map (·.2.precedence)).getD 0
  if looseness < site.2.precedence
    ∨ looseness = site.2.precedence ∧ ¬ site.2.isRightAssociative then some site else found

/-- The position of the operator that a run is split at. -/
def topOperator? (tokens : List Token) : Except Slip (Option (Nat × Operator)) := do
  (← outside tokens).foldlM (fun found site ↦ do
    match ← site? tokens site.1 site.2 with
    | some site => return best found site
    | none => return found) none

/-! ## Cutting conditionals -/

/-- The first of some tokens that passes a test, and the tokens after it. -/
def first? (test : Token → Bool) : List (Nat × Token) → Option (Nat × Token × List (Nat × Token))
  | [] => none
  | (k, t) :: rest => if test t then some (k, t, rest) else first? test rest

/-- The position of the `ELSE` for which no `IF` is open. -/
def else? : Nat → List (Nat × Token) → Option Nat
  | _, [] => none
  | nested, (k, t) :: rest =>
    if t.isWord "IF" then else? (nested + 1) rest
    else if t.isWord "ELSE" then
      if nested = 0 then some k else else? (nested - 1) rest
    else else? nested rest

/-! ## Handing runs on -/

/-- The parsing functions. -/
inductive Production where
  | line | topStatement | statement | branch | define | dim | select
  | arguments | expression | tuple | names | array | split | lambdaNames | call | chain
deriving DecidableEq, Repr

/-- Where a parsing function stands among those that hand the same run to each other. -/
def Production.rank : Production → Nat
  | .line => 0
  | .topStatement => 1
  | .statement => 2
  | .arguments => 3
  | .expression => 4
  | _ => 5

/-- A parsing function with the run that it is handed. -/
structure Task where
  production : Production
  run : List Token

/-- A task that comes from a run handed on by another. -/
structure Handing where
  caller : Task
  callee : Task

/-- Parsing as a part of a task, that keeps account of the runs handed on, the latest first. -/
abbrev Tracked (α : Type) : Type := ReaderT Task (EStateM (Slip ⊕ Refusal) (List Handing)) α

namespace Tracked

variable {α : Type}

/-- What may have slipped. -/
def read : Except Slip α → Tracked α
  | .ok a => pure a
  | .error slip => throw (.inl slip)

/-- What may be refused. -/
def settle : Parse α → Tracked α
  | .ok a => pure a
  | .error refusal => throw (.inr refusal)

/-- Tries another form where one does not apply. -/
def orTry (first second : Tracked α) : Tracked α := fun task handings ↦
  match first task handings with
  | .error (.inr (.mismatch _)) handings => second task handings
  | result => result

/-- Stops where no form applies. -/
def orStop (stop : String → Stop) (m : Tracked α) : Tracked α := fun task handings ↦
  match m task handings with
  | .error (.inr (.mismatch why)) handings => .error (.inr (.stop (stop why))) handings
  | result => result

/-- Hands a run to a parsing function. -/
def hand (callee : Production) (parse : List Token → Tracked α) (run : List Token) : Tracked α :=
  fun task ↦ do
    modify (⟨task, ⟨callee, run⟩⟩ :: ·)
    parse run ⟨callee, run⟩

end Tracked

open Tracked

/-- Parsing statements and expressions, the latter also as conditions. -/
structure Parsers where
  statement : List Token → Tracked (Option Tree)
  expression : Bool → List Token → Tracked Tree

/-! ## Forms -/

section
variable (isBuiltin : String → Bool) (source : Source) (next : Parsers)

/-- Reads pieces as distinct parameter names, after those already read. -/
def namesFrom (seen : List String) : List (List Token) → Parse (List String)
  | [] => .ok seen
  | [t] :: pieces =>
    if t.cls == .literal then
      let name := Text.upper t.text
      if seen.contains name then .error (.stop (.fault (duplicateParameter source name)))
      else namesFrom (seen ++ [name]) pieces
    else Parse.mismatch "parameter names must be single identifiers"
  | _ :: _ => Parse.mismatch "parameter names must be single identifiers"

/-- A list of parameter names. -/
def names (tokens : List Token) : Tracked (List String) := do
  if tokens.isEmpty then return []
  let (pieces, _) ← read (separated tokens)
  settle (namesFrom source [] pieces)

/-- Parameter names in square brackets. -/
def tuple (tokens : List Token) : Tracked Tree :=
  return .params (← hand .names (names source) (inner tokens))

/-- The parameters on the left of a function arrow. -/
def lambdaNames (tokens : List Token) : Tracked (List String) := do
  match tokens with
  | [t] => if t.cls == .literal then return [Text.upper t.text] else malformed
  | _ =>
    if (← read (isWrapped .square tokens)) || (← read (isWrapped .round tokens)) then
      hand .names (names source) (inner tokens)
    else malformed
where
  malformed : Tracked (List String) := settle (Parse.fault source
    { kind := .syntaxError, message := "Malformed lambda parameter list"
      received := some (joinTexts tokens), expected := some "[X, Y] ~> expression" })

/-- Whether a run starts with a word, a name and an opening bracket, and is long enough for a
definition. -/
def startsDefinition (tokens : List Token) : Except Slip Bool := do
  if tokens.length < 5 then return false
  return (← tokenAt tokens 1).cls == .literal && (← tokenAt tokens 2).opens .round

/-- The definition of a named function. -/
def define (tokens : List Token) : Tracked Tree := do
  if !(← read (tokenAt tokens 0)).isWord "DEFUN" then settle (Parse.mismatch "not a DEFUN")
  else if !(← read (startsDefinition tokens)) then
    settle (Parse.fault source
      { kind := .syntaxError, message := "Malformed DEFUN"
        expected := some "DEFUN name(params) = expression"
        suggestion := some "DEFUN SQ(X) = X * X" })
  else
    let close ← read (matchingClose tokens 2)
    if close + 1 ≥ tokens.length then noEquals
    else if (← read (tokenAt tokens (close + 1))).text != "=" then noEquals
    else if (tokens.drop (close + 2)).isEmpty then
      settle (Parse.fault source
        { kind := .syntaxError, message := "Malformed DEFUN: missing function body" })
    else
      let name ← read (tokenAt tokens 1)
      let names ← hand .names (names source) (slice tokens 3 close)
      let body ← hand .expression (next.expression false) (tokens.drop (close + 2))
      return .define (Text.upper name.text) names body
where
  noEquals : Tracked Tree := settle (Parse.fault source
    { kind := .syntaxError
      message := "Malformed DEFUN: missing '=' after the parameter list"
      expected := some "DEFUN name(params) = expression" })

/-- The arguments of a call and the separators between them. -/
def arguments (tokens : List Token) : Tracked (List Tree × List Separator) := do
  if tokens.isEmpty then return ([], [])
  else
    let (pieces, separators) ← read (separated tokens)
    let args ← pieces.mapM (hand .expression (next.expression false))
    return (args, separators)

/-- Whether a run is a declaration of an array. -/
def isDeclaration (tokens : List Token) : Except Slip Bool := do
  if !(← tokenAt tokens 0).isWord "DIM" then return false
  if tokens.length < 4 then return false
  if !((← tokenAt tokens 1).cls == .literal && (← tokenAt tokens 2).opens .round) then return false
  return (← matchingClose tokens 2) == tokens.length - 1

/-- The declaration of an array by its dimensions, which assigns it. -/
def dim (tokens : List Token) : Tracked Tree := do
  if !(← read (isDeclaration tokens)) then settle (Parse.mismatch "not a DIM declaration")
  else
    let (args, separators) ← hand .arguments (arguments next)
      (slice tokens 3 (tokens.length - 1))
    if args.isEmpty then
      settle (Parse.fault source
        { kind := .syntaxError, message := "DIM needs at least one dimension"
          suggestion := some "DIM A(10)" })
    else
      let name ← read (tokenAt tokens 1)
      return .binary .assign (.ident (Text.upper name.text)) (.call "DIM" args separators)

/-- A computed jump. -/
def select (tokens : List Token) : Tracked Tree := do
  if !(← read (tokenAt tokens 0)).isWord "ON" then settle (Parse.mismatch "not an ON statement")
  else
    let sites := (← read (outside tokens)).filter (·.1 != 0)
    match first? (fun t ↦ t.isWord "GOTO" || t.isWord "GOSUB") sites with
    | none => settle (Parse.fault source
        { kind := .syntaxError, message := "ON without GOTO or GOSUB"
          expected := some "ON expr GOTO target, target, ..." })
    | some (k, jump, _) =>
      let test ← hand .expression (next.expression false) (slice tokens 1 k)
      let (pieces, _) ← read (separated (tokens.drop (k + 1)))
      if test.isNull || pieces.all List.isEmpty then
        settle (Parse.fault source
          { kind := .syntaxError, message := "Malformed ON statement"
            expected := some "ON expr GOTO target, target, ..." })
      else
        let targets ← pieces.mapM (hand .expression (next.expression false))
        return .select (if jump.isWord "GOTO" then .goto else .gosub) test targets

/-- A branch of a conditional. -/
def arm (asStatement : Bool) (run : List Token) : Tracked Tree := do
  if asStatement then return (← hand .statement next.statement run).getD .null
  else hand .expression (next.expression false) run

/-- A conditional. -/
def branch (asStatement : Bool) (tokens : List Token) : Tracked Tree := do
  if !(← read (tokenAt tokens 0)).isWord "IF" then settle (Parse.mismatch "not an IF")
  else
    let sites := (← read (outside tokens)).filter (·.1 != 0)
    match first? (·.isWord "THEN") sites with
    | none => settle (Parse.fault source
        { kind := .syntaxError, message := "IF without THEN"
          expected := some "IF condition THEN statement [ELSE statement]" })
    | some (k, _, sites) =>
      let condition ← hand .expression (next.expression true) (slice tokens 1 k)
      if condition.isNull then
        settle (Parse.fault source { kind := .syntaxError, message := "IF without a condition" })
      else
        match else? 0 sites with
        | none => return .branch condition (← arm next asStatement (tokens.drop (k + 1))) none
        | some j =>
          let yes ← arm next asStatement (slice tokens (k + 1) j)
          let no ← arm next asStatement (tokens.drop (j + 1))
          return .branch condition yes (some no)

/-- The elements of an array, with its brackets. -/
def array (tokens : List Token) : Tracked Tree := do
  if (inner tokens).isEmpty then return .array []
  else
    let (pieces, _) ← read (separated (inner tokens))
    if pieces.any List.isEmpty then
      settle (Parse.fault source
        { kind := .syntaxError, message := "Empty array element", received := some source.text })
    else return .array (← pieces.mapM (hand .expression (next.expression false)))

/-- Whether a run starts with round brackets. -/
def opensRound (tokens : List Token) : Bool :=
  tokens.head?.any (·.opens .round)

/-- The call at the end of a chain. -/
def called : Callee → Tracked Tree
  | .tree t => return t
  | .named _ => read (.error .uncalled)

/-- One argument list after the other, from a position on. -/
def chainFrom (tokens : List Token) : (steps : Nat) → Callee → Nat → Tracked Tree
  | 0, _, _ => read (.error .steps)
  | steps + 1, callee, k => do
    if k < tokens.length then
      if !(← read (tokenAt tokens k)).opens .round then
        settle (Parse.mismatch "unexpected tokens after argument list")
      else
        let close ← read (matchingClose tokens k)
        let (args, separators) ← hand .arguments (arguments next)
          (slice tokens (k + 1) close)
        chainFrom tokens steps (.tree (callee.call args separators)) (close + 1)
    else called callee

/-- Argument lists, each for what the call before it returns. -/
def chain (callee : Callee) (tokens : List Token) : Tracked Tree :=
  chainFrom next tokens (tokens.length + 1) callee 0

/-- A call: of an expression in brackets, or of a name with arguments in brackets or without. -/
def call (tokens : List Token) : Tracked Tree := do
  let head ← read (tokenAt tokens 0)
  if head.opens .round then
    let close ← read (matchingClose tokens 0)
    let callee ← hand .expression (next.expression false) (slice tokens 1 close)
    let rest := tokens.drop (close + 1)
    if opensRound rest then hand .chain (chain next (.tree callee)) rest
    else settle (Parse.mismatch "expected an argument list after a parenthesised callee")
  else if head.cls != .literal then
    settle (Parse.mismatch ("'" ++ head.text ++ "' is not callable"))
  else
    let name := Text.upper head.text
    let rest := tokens.drop 1
    if rest.isEmpty then return .call name [] []
    else if opensRound rest then
      orTry (hand .chain (chain next (.named name)) rest) (plain name rest)
    else plain name rest
where
  plain (name : String) (rest : List Token) : Tracked Tree := do
    let (args, separators) ← hand .arguments (arguments next) rest
    return .call name args separators

/-- An expression split at an operator. -/
def split (inCondition : Bool) (k : Nat) (op : Operator) (tokens : List Token) : Tracked Tree := do
  let left := tokens.take k
  let right := tokens.drop (k + 1)
  if inCondition && op == .assign then
    settle (Parse.fault source
      { kind := .syntaxError, message := "'=' used on IF, did you mean '=='?"
        received := some source.text })
  else if k = 0 then
    match UnaryOperator.ofOperator? op with
    | none => settle (Parse.mismatch ("unknown unary operator '" ++ op.text ++ "'"))
    | some unary =>
      if right.isEmpty then
        settle (Parse.fault source
          { kind := .syntaxError, message := "Missing operand for '" ++ op.text ++ "'" })
      else return .unary unary (← hand .expression (next.expression false) right)
  else if right.isEmpty then
    settle (Parse.fault source
      { kind := .syntaxError, message := "Missing right operand for '" ++ op.text ++ "'" })
  else if op == .lambda then
    let names ← hand .lambdaNames (lambdaNames source) left
    return .lambda names (← hand .expression (next.expression false) right)
  else
    let left ← hand .expression (next.expression false) left
    return .binary op left (← hand .expression (next.expression false) right)

/-- Whether a run starts with the name of a builtin and without brackets behind it. -/
def startsBare (tokens : List Token) : Except Slip Bool := do
  let head ← tokenAt tokens 0
  if head.cls == .literal && isBuiltin (Text.upper head.text) then
    return !(← tokenAt tokens 1).opens .round
  else return false

/-! ## The parser -/

/-- An expression. -/
def expression (inCondition : Bool) (tokens : List Token) : Tracked Tree := do
  match tokens with
  | [] => return .null
  | head :: rest =>
    if rest.isEmpty && !head.isReserved then settle (tokenTree false head)
    else if ← read (isWrapped .square tokens) then hand .tuple (tuple source) tokens
    else if ← read (isWrapped .curly tokens) then
      hand .array (array source next) tokens
    else if ← read (isWrapped .round tokens) then
      hand .expression (next.expression false) (inner tokens)
    else if head.isWord "IF" then hand .branch (branch source next false) tokens
    else if ← read (startsBare isBuiltin tokens) then
      hand .call (call next) tokens
    else match ← read (topOperator? tokens) with
      | none => hand .call (call next) tokens
      | some (k, op) => hand .split (split source next inCondition k op) tokens

/-- A statement; a remark has no tree. -/
def statement (tokens : List Token) : Tracked (Option Tree) := do
  match tokens with
  | [] => return some .null
  | [t] => return some (← settle (tokenTree true t))
  | head :: _ =>
    if head.isWord "REM" then return none
    else
      orTry (do return some (← hand .branch (branch source next true) tokens)) <|
      orTry (do return some (← hand .define (define source next) tokens)) <|
      orTry (do return some (← hand .dim (dim source next) tokens)) <|
      orTry (do return some (← hand .select (select source next) tokens)) do
        if ← read (isWrapped .round tokens) then
          hand .statement next.statement (inner tokens)
        else return some (← hand .expression (next.expression false) tokens)

end

section
variable (isBuiltin : String → Bool) (source : Source)

/-- Parsing with so many statements and expressions inside each other. -/
def parsers : (steps : Nat) → Parsers
  | 0 => ⟨fun _ ↦ read (.error .steps), fun _ _ ↦ read (.error .steps)⟩
  | steps + 1 =>
    ⟨statement source (parsers steps), expression isBuiltin source (parsers steps)⟩

/-- One statement of a line. -/
def topStatement (steps : Nat) (tokens : List Token) : Tracked (Option Tree) :=
  if tokens.isEmpty then
    settle (.error (.stop (.fault
      { kind := .syntaxError, message := "Empty statement", line := source.line
        suggestion := some "Remove the extra ':'", context := some source.text })))
  else
    orStop (fun why ↦ .fault
      { kind := .syntaxError, message := "Statement cannot be parsed", line := source.line
        received := some (joinTexts tokens), context := some why })
      (hand .statement (parsers isBuiltin source steps).statement tokens)

end

/-- The statements of a line of settled tokens. -/
def statements (isBuiltin : String → Bool) (line : Option Int) (steps : Nat)
    (tokens : List Token) : Tracked (List (Option Tree)) :=
  if tokens.head?.all (·.isWord "REM") then return []
  else
    let source : Source := ⟨line, joinTexts tokens⟩
    match unmatched? [] tokens with
    | some bracket => settle (.error (.stop (.fault (Item.unmatched source bracket))))
    | none => do
      let (pieces, _) ← read (cutAt .sequence tokens)
      pieces.mapM (hand .topStatement (topStatement isBuiltin source steps))

/-- The statements of a line of settled tokens, with the runs that were handed on. -/
def parseTokens (isBuiltin : String → Bool) (line : Option Int) (steps : Nat)
    (tokens : List Token) : EStateM.Result (Slip ⊕ Refusal) (List Handing) (List (Option Tree)) :=
  statements isBuiltin line steps tokens ⟨.line, tokens⟩ []

end Positional
end LineBasic
