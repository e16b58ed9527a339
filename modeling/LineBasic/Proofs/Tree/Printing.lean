import LineBasic.Builtin
import LineBasic.Proofs.Token.Reading
import LineBasic.Tree.Line
import LineBasic.Value.Text

/-!
# Reading back the text of an expression

The text of an expression is read back as the same expression.  Every operation is printed in
brackets of its own, so what is printed has no operator outside brackets but the arrow of a
function, which goes to the right end and may not be an operand.

* `IsPlainName`, `Tree.IsReadable` — the names and expressions that this is about.
* `Shows` — what parsing a run as an operand or an argument depends on.
* `Tree.IsReadable.exists_text` — the text of an expression is read as items that show it.
* `Tree.IsReadable.parseExpression_text` — printing and parsing are inverse.
-/

set_option autoImplicit false
namespace LineBasic

/-! ## Names -/

/-- A name that is a literal in upper case and means nothing else. -/
structure IsPlainName (isBuiltin : String → Bool) (name : String) : Prop where
  upper : Text.upper name = name
  scanned : scan none name = .ok [⟨name, .literal, 0⟩]
  notBuiltin : isBuiltin name = false
  notOperator : Operator.ofText? name = none
  notBoolean : name ≠ "TRUE" ∧ name ≠ "FALSE"
  notReserved : isReservedWord name = false

/-- Tokens stand where the text that is scanned starts, or behind. -/
theorem le_column_of_scanFrom {source : Source} : {column : Nat} → {cs : List Char} →
    {tokens : List Token} → scanFrom source column cs = .ok tokens →
    ∀ t ∈ tokens, column ≤ t.column
  | column, [], tokens, h => by
    rw [scanFrom] at h
    cases h
    simp
  | column, c :: cs, tokens, h => by
    rw [scanFrom] at h
    obtain ⟨piece, -, h⟩ := bind_eq_ok.1 h
    obtain ⟨others, hothers, h⟩ := bind_eq_ok.1 h
    cases h
    intro t ht
    rcases List.mem_append.1 ht with ht | ht
    · rw [Piece.tokens] at ht
      split at ht
      · rw [List.mem_singleton.1 ht]
        exact Nat.le_add_right _ _
      · cases ht
    · have := le_column_of_scanFrom hothers t ht
      omega
termination_by _ cs => cs.length
decreasing_by
  simp only [List.length_drop, List.length_cons]
  omega

theorem token?_of_numberPiece {source : Source} {c : Char} {cs : List Char} {piece : Piece}
    (h : numberPiece source c cs = .ok piece) : ∃ text, piece.token? = some (.number, text) := by
  rw [numberPiece] at h
  split at h
  · cases h
    exact ⟨_, rfl⟩
  · split at h
    · split at h
      · cases h
      · split at h <;> cases h
        exact ⟨_, rfl⟩
    · cases h
      exact ⟨_, rfl⟩

/-- A piece that is a literal starts with no character of another class. -/
theorem of_nextPiece_literal {source : Source} {c : Char} {cs text : List Char} {piece : Piece}
    (h : nextPiece source c cs = .ok piece) (htoken : piece.token? = some (.literal, text)) :
    c.isDigit = false ∧ endsLiteral c = false ∧ text = c :: cs.takeWhile (!endsLiteral ·) := by
  rw [nextPiece] at h
  split at h
  · simp only at h
    split at h <;> cases h
    cases htoken
  split at h
  · cases h
    cases htoken
  split at h
  · cases h
    cases htoken
  split at h
  · cases h
    cases htoken
  split at h
  · cases h
    cases htoken
  split at h
  · obtain ⟨digits, hnumber⟩ := token?_of_numberPiece h
    rw [hnumber] at htoken
    cases htoken
  · cases h
    cases htoken
    simp_all [endsLiteral]

/-- What a text consists of that is scanned as one literal. -/
theorem scan_eq_literal_iff {name : String} :
    scan none name = .ok [⟨name, .literal, 0⟩] ↔ IsLiteralText name.toList := by
  refine ⟨fun h ↦ ?_, fun h ↦ ?_⟩
  rotate_left
  · have hscans : Scans ⟨none, name⟩ 0 name.toList [] _ _ := .literal h nofun
    rw [Scans, List.append_nil, String.ofList_toList, scanFrom] at hscans
    exact hscans
  rw [scan] at h
  cases hcs : name.toList with
  | nil =>
    rw [hcs, scanFrom] at h
    cases h
  | cons c cs =>
    rw [hcs, scanFrom] at h
    obtain ⟨piece, hpiece, h⟩ := bind_eq_ok.1 h
    obtain ⟨others, hothers, h⟩ := bind_eq_ok.1 h
    rw [pure_eq_ok, Piece.tokens] at h
    split at h
    · rename_i cls text htoken
      obtain ⟨hfirst, -⟩ := List.cons.inj h
      rw [Token.mk.injEq] at hfirst
      obtain ⟨htext, rfl, -⟩ := hfirst
      obtain ⟨hdigit, hends, heq⟩ := of_nextPiece_literal hpiece htoken
      have hchars : text = c :: cs := by rw [← hcs, ← htext, String.toList_ofList]
      rw [hchars] at heq
      have htake : cs.takeWhile (!endsLiteral ·) = cs := (List.cons.inj heq).2.symm
      refine ⟨hdigit, ?_⟩
      rw [List.any_eq_false]
      intro d hd
      rcases List.mem_cons.1 hd with rfl | hd
      · simp [hends]
      · rw [← htake] at hd
        simpa using List.mem_takeWhile_imp hd
    · -- without a token in the first piece, all tokens stand behind the first column
      rw [List.nil_append] at h
      have := le_column_of_scanFrom hothers ⟨name, .literal, 0⟩ (by simp [h])
      simp at this

namespace IsPlainName

variable {isBuiltin : String → Bool} {name : String} (h : IsPlainName isBuiltin name)

include h

theorem settle (column : Nat) :
    Token.settle ⟨name, .literal, column⟩ = .ok ⟨name, .literal, column⟩ := by
  simp [Token.settle, h.upper, h.notOperator, h.notBoolean]
  rfl

theorem reads : Reads name.toList fun items ↦
    ∃ t, items = [.token t] ∧ t.cls = .literal ∧ t.text = name := by
  refine .single fun source column rest hrest ↦ ?_
  have hscans : Scans source column name.toList rest _ _ :=
    .literal (scan_eq_literal_iff.1 h.scanned) hrest
  rw [String.ofList_toList] at hscans
  exact ⟨_, _, _, hscans, h.settle column, by simp, by simp, rfl, rfl⟩

end IsPlainName

/-! ## Expressions -/

/-- Whether a tree is a function. -/
def Tree.isLambda : Tree → Bool
  | .lambda _ _ => true
  | _ => false

/-- The expressions whose text can be read back: their names are plain, their numbers are natural
and exact, their strings have no quotes in them, all separators are commas, and a function is not
an operand of an operator. -/
inductive Tree.IsReadable (isBuiltin : String → Bool) : Tree → Prop
  | number {n : Nat} (hn : n < 2 ^ 53) : IsReadable isBuiltin (.number (Number.ofNat n))
  | string {s : String} (hs : '"' ∉ s.toList) : IsReadable isBuiltin (.string s)
  | boolean (b : Bool) : IsReadable isBuiltin (.boolean b)
  | ident {name : String} (hname : IsPlainName isBuiltin name) : IsReadable isBuiltin (.ident name)
  | array {elements : List Tree} (helements : ∀ t ∈ elements, IsReadable isBuiltin t) :
      IsReadable isBuiltin (.array elements)
  | call {name : String} {args : List Tree} (hname : IsPlainName isBuiltin name)
      (hargs : ∀ t ∈ args, IsReadable isBuiltin t) :
      IsReadable isBuiltin (.call name args (List.replicate (args.length - 1) .comma))
  | apply {callee : Tree} {args : List Tree} (hcallee : IsReadable isBuiltin callee)
      (hargs : ∀ t ∈ args, IsReadable isBuiltin t) :
      IsReadable isBuiltin (.apply callee args (List.replicate (args.length - 1) .comma))
  | binary {op : Operator} {left right : Tree} (hop : op ≠ .lambda)
      (hleft : IsReadable isBuiltin left) (hleft' : left.isLambda = false)
      (hright : IsReadable isBuiltin right) (hright' : right.isLambda = false) :
      IsReadable isBuiltin (.binary op left right)
  | lambda {names : List String} {body : Tree} (hnames : ∀ name ∈ names, IsPlainName isBuiltin name)
      (hdistinct : names.Nodup) (hbody : IsReadable isBuiltin body) :
      IsReadable isBuiltin (.lambda names body)

/-! ## Runs between separators -/

/-- Cutting at separators, where a run without one is followed by one. -/
theorem Item.cutAt_append {cut : Item → Bool} {piece : List Item}
    (hpiece : ∀ i ∈ piece, cut i = false) {i : Item} (hi : cut i = true) (rest : List Item) :
    cutAt cut (piece ++ i :: rest) = (piece :: (cutAt cut rest).1, i :: (cutAt cut rest).2) := by
  induction piece with
  | nil => simp [cutAt, hi]
  | cons j piece ih =>
    have hj := hpiece j (List.mem_cons_self ..)
    have := ih fun k hk ↦ hpiece k (List.mem_cons_of_mem _ hk)
    simp [cutAt, hj, this]

theorem Item.cutAt_piece {cut : Item → Bool} {piece : List Item}
    (hpiece : ∀ i ∈ piece, cut i = false) : cutAt cut piece = ([piece], []) := by
  induction piece with
  | nil => rfl
  | cons j piece ih =>
    have hj := hpiece j (List.mem_cons_self ..)
    have := ih fun k hk ↦ hpiece k (List.mem_cons_of_mem _ hk)
    simp [cutAt, hj, this]

/-- Texts that are joined by commas are read as runs between comma tokens. -/
theorem Reads.joined {α : Type} {p : α → List Item → Prop}
    (hp : ∀ a items, p a items → ∀ i ∈ items, i.isClass .separator = false) {as : List α}
    {texts : List String} (hne : as ≠ [])
    (h : List.Forall₂ (fun a text ↦ Reads text.toList (p a)) as texts) :
    Reads (", ".intercalate texts).toList fun items ↦ ∃ pieces,
      separated items = (pieces, List.replicate (as.length - 1) .comma) ∧
        List.Forall₂ p as pieces := by
  induction h with
  | nil => exact absurd rfl hne
  | @cons a text as texts hread hrest ih =>
    cases hrest with
    | nil =>
      rw [String.intercalate_singleton]
      refine hread.mono fun items hitems ↦ ⟨[items], ?_, .cons hitems .nil⟩
      rw [separated, Item.cutAt_piece (hp a items hitems)]
      rfl
    | @cons b text' as texts hread' hrest =>
      have hrest := ih (List.cons_ne_nil _ _)
      have hchars : (", ".intercalate (text :: text' :: texts)).toList =
          text.toList ++ ([','] ++ ' ' :: (", ".intercalate (text' :: texts)).toList) := by
        rw [String.intercalate_cons_cons, String.toList_append, String.toList_append,
          List.append_assoc]
        rfl
      rw [hchars]
      have hcomma := Reads.comma.append hrest.blank (List.cons_ne_nil _ _) .blank
      refine (hread.append hcomma (List.cons_ne_nil _ _) (by simp [EndsWord])).mono ?_
      rintro items ⟨piece, tail, rfl, hpiece, between, others, rfl, ⟨t, rfl, hcls, htext⟩, pieces,
        hpieces, hall⟩
      refine ⟨piece :: pieces, ?_, .cons hpiece hall⟩
      have ht : (Item.token t).isClass .separator = true := by simp [Item.isClass, hcls]
      rw [separated] at hpieces ⊢
      rw [List.singleton_append, Item.cutAt_append (hp a piece hpiece) ht]
      simp only [Prod.mk.injEq] at hpieces ⊢
      rw [List.map_cons, hpieces.1, hpieces.2]
      simp [Item.headText, htext, List.replicate_succ]

/-! ## Runs that show an expression -/

/-- A run that may be an operand: it has no operator outside brackets, an operator may follow it,
and it starts with no name of a builtin and no reserved word. -/
structure Item.IsOperand (isBuiltin : String → Bool) (items : List Item) : Prop where
  head : ∀ i ∈ items.head?, i.isReserved = false ∧ i.literal?.any isBuiltin = false
  last : ∀ i ∈ items.getLast?, i.endsOperand = true
  operator : ∀ i ∈ items, i.operator? = none

/-- A run that is parsed as the tree, with what this depends on where the run is part of another
one. -/
structure Shows (isBuiltin : String → Bool) (t : Tree) (items : List Item) : Prop where
  ne_nil : items ≠ []
  separator : ∀ i ∈ items, i.isClass .separator = false
  operator : ∀ i ∈ items, ∀ op ∈ i.operator?, op = .lambda
  operand : t.isLambda = false → Item.IsOperand isBuiltin items
  parse : ∀ source, parseExpression isBuiltin source false items = .ok t

/-! ### The operator that a run is split at -/

theorem operatorSites_eq_nil {items : List Item} (h : ∀ i ∈ items, i.operator? = none) (k : Nat)
    (ready : Bool) : operatorSites k ready items = [] := by
  induction items generalizing k ready with
  | nil => rfl
  | cons i is ih =>
    rw [operatorSites, h i (List.mem_cons_self ..), ih fun j hj ↦ h j (List.mem_cons_of_mem _ hj)]
    cases ready <;> rfl

theorem mem_operator?_of_mem_operatorSites {items : List Item} {k : Nat} {ready : Bool}
    {site : Nat × Operator} (h : site ∈ operatorSites k ready items) :
    ∃ i ∈ items, site.2 ∈ i.operator? := by
  induction items generalizing k ready with
  | nil => cases h
  | cons i is ih =>
    rw [operatorSites] at h
    split at h
    · rename_i op hop
      rcases List.mem_cons.1 h with rfl | h
      · refine ⟨i, List.mem_cons_self .., ?_⟩
        cases ready with
        | true => exact hop
        | false => cases hop
      · obtain ⟨j, hj, hsite⟩ := ih h
        exact ⟨j, List.mem_cons_of_mem _ hj, hsite⟩
    · obtain ⟨j, hj, hsite⟩ := ih h
      exact ⟨j, List.mem_cons_of_mem _ hj, hsite⟩

/-- The sites of an operand, an operator, and what follows. -/
theorem operatorSites_append {left : List Item} (hleft : ∀ i ∈ left, i.operator? = none)
    (hne : left ≠ []) (hlast : ∀ i ∈ left.getLast?, i.endsOperand = true) (op : Operator)
    (column : Nat) (right : List Item) (k : Nat) (ready : Bool) :
    operatorSites k ready (left ++ .token (op.token column) :: right) =
      (k + left.length, op) :: operatorSites (k + left.length + 1) false right := by
  induction left generalizing k ready with
  | nil => exact absurd rfl hne
  | cons i is ih =>
    have hi := hleft i (List.mem_cons_self ..)
    cases is with
    | nil =>
      have hends : i.endsOperand = true := hlast i (by simp)
      rw [List.cons_append, List.nil_append, operatorSites, hi, operatorSites, hends,
        op.operator?_token]
      cases ready <;> rfl
    | cons j is =>
      have := ih (fun l hl ↦ hleft l (List.mem_cons_of_mem _ hl)) (List.cons_ne_nil _ _)
        (fun l hl ↦ hlast l (by rwa [List.getLast?_cons_cons])) (k + 1) i.endsOperand
      rw [List.cons_append, operatorSites, hi, this, List.length_cons (a := i)]
      have hk : k + 1 + (j :: is).length = k + ((j :: is).length + 1) := by omega
      rw [hk]
      cases ready <;> rfl

/-- A run of arrows is split at the first. -/
theorem foldl_looser_lambda {site : Nat × Operator} {sites : List (Nat × Operator)}
    (h : ∀ s ∈ sites, site.2 = .lambda ∧ s.2 = .lambda) : sites.foldl looser site = site := by
  induction sites with
  | nil => rfl
  | cons s sites ih =>
    obtain ⟨hsite, hs⟩ := h s (List.mem_cons_self ..)
    have hkeeps : looser site s = site := by
      rw [looser, if_neg]
      rw [hsite, hs]
      decide
    rw [List.foldl_cons, hkeeps]
    exact ih fun s' hs' ↦ h s' (List.mem_cons_of_mem _ hs')

/-- What the parser splits the run at that an operand, an operator and the rest make up: the
operator, as the rest has no operators, or is the body of a function. -/
theorem topOperator?_append {left right : List Item} {op : Operator} {column : Nat}
    (hleft : ∀ i ∈ left, i.operator? = none) (hne : left ≠ [])
    (hlast : ∀ i ∈ left.getLast?, i.endsOperand = true)
    (hright : ∀ i ∈ right, ∀ o ∈ i.operator?, op = .lambda ∧ o = .lambda) :
    topOperator? (left ++ .token (op.token column) :: right) = some (left.length, op) := by
  rw [topOperator?, operatorSites_append hleft hne hlast, loosest?, foldl_looser_lambda,
    Nat.zero_add]
  intro site hsite
  obtain ⟨i, hi, hop⟩ := mem_operator?_of_mem_operatorSites hsite
  exact hright i hi site.2 hop

/-! ### Parsing -/

section
variable {isBuiltin : String → Bool} {source : Source}

/-- An operation is parsed by parsing its operands. -/
theorem parseExpression_operation {left right : List Item} {op : Operator} {column : Nat}
    {t u : Tree} (hop : op ≠ .lambda) (hleft : Shows isBuiltin t left)
    (hleft' : t.isLambda = false) (hright : Shows isBuiltin u right)
    (hright' : u.isLambda = false) :
    parseExpression isBuiltin source false (left ++ .token (op.token column) :: right) =
      .ok (.binary op t u) := by
  have hoperand := hleft.operand hleft'
  have hothers := (hright.operand hright').operator
  have htop : topOperator? (left ++ .token (op.token column) :: right) = some (left.length, op) :=
    topOperator?_append hoperand.operator hleft.ne_nil hoperand.last fun i hi o ho ↦ by
      rw [hothers i hi] at ho
      cases ho
  have htake : (left ++ .token (op.token column) :: right).take left.length = left :=
    List.take_left
  have hdrop : (left ++ .token (op.token column) :: right).drop (left.length + 1) = right := by
    rw [← List.drop_drop, List.drop_left, List.drop_one, List.tail_cons]
  have hne := hright.ne_nil
  have hlength : left.length ≠ 0 := by simpa using hleft.ne_nil
  have hhead := hoperand.head
  cases hitems : left ++ .token (op.token column) :: right with
  | nil => simp at hitems
  | cons head rest =>
    have hfirst : left.head? = some head := by
      have := congrArg List.head? hitems
      rwa [List.head?_append_of_ne_nil _ hleft.ne_nil, List.head?_cons] at this
    have hrest : rest ≠ [] := by
      rintro rfl
      have := congrArg List.length hitems
      simp only [List.length_append, List.length_cons, List.length_nil] at this
      omega
    obtain ⟨hreserved, hname⟩ := hhead head hfirst
    rw [hitems] at htop htake hdrop
    rw [parseExpression_split source hrest hreserved hname htop hlength (by rwa [hdrop]) hop, htake,
      hdrop, hleft.parse, hright.parse]
    rfl

theorem parseExpression_lambda {inside body : List Item} {column : Nat} {names : List String}
    {t : Tree} (hnames : parameterNames source inside = .ok names)
    (hbody : Shows isBuiltin t body) :
    parseExpression isBuiltin source false
      ([.group .square inside] ++ .token (Operator.lambda.token column) :: body) =
      .ok (.lambda names t) := by
  have htop : topOperator? ([.group .square inside] ++
      .token (Operator.lambda.token column) :: body) = some (1, .lambda) :=
    topOperator?_append (by simp [Item.operator?]) (by simp) (by simp [Item.endsOperand])
      fun i hi o ho ↦ ⟨rfl, hbody.operator i hi o ho⟩
  have hright := hbody.ne_nil
  rw [List.singleton_append] at htop ⊢
  have hlambda : lambdaNames source [.group .square inside] = .ok names := hnames
  rw [parseExpression_eq false (absurd · (List.cons_ne_nil _ _)), if_neg (by simp [Item.isWord]),
    if_neg (by simp [Item.literal?]), htop]
  simp [parseSplit, hright, hlambda, hbody.parse]
  rfl

/-- A run without operators that goes on after its first item is a call. -/
theorem parseExpression_call {head : Item} {rest : List Item} (hrest : rest ≠ [])
    (hreserved : head.isReserved = false) (hname : head.literal?.any isBuiltin = false)
    (hoperator : ∀ i ∈ head :: rest, i.operator? = none) :
    parseExpression isBuiltin source false (head :: rest) =
      parseCall isBuiltin source (head :: rest) := by
  have hword : head.isWord "IF" = false := Item.isWord_of_not_isReserved hreserved (by decide)
  have htop : topOperator? (head :: rest) = none := by
    rw [topOperator?, operatorSites_eq_nil hoperator, loosest?]
  rw [parseExpression_eq false (absurd · hrest), if_neg (by simp [hword]),
    if_neg (by simp [hname]), htop]

theorem parseChain_single {callee : Callee} {inside : List Item} {args : List Tree}
    {separators : List Separator}
    (h : parseArguments isBuiltin source inside = .ok (args, separators)) :
    parseChain isBuiltin source callee [.group .round inside] =
      .ok (callee.call args separators) := by
  rw [parseChain, h]
  rfl

theorem parsePieces_eq (items : List Item) : parsePieces isBuiltin source items =
    (separated items).1.mapM (parseExpression isBuiltin source false) := by
  rw [parsePieces.eq_def, List.mapM_subtype (g := parseExpression isBuiltin source false)
    fun _ _ ↦ rfl, List.unattach_attach]

theorem parsePieces_of_separated {items : List Item} {pieces : List (List Item)} {ts : List Tree}
    (hpieces : (separated items).1 = pieces) (hall : List.Forall₂ (Shows isBuiltin) ts pieces) :
    parsePieces isBuiltin source items = .ok ts := by
  rw [parsePieces_eq, hpieces]
  clear hpieces
  induction hall with
  | nil => rfl
  | cons hshows _ ih =>
    rw [List.mapM_cons, hshows.parse, ih]
    rfl

end

/-- What stands between the brackets of arguments or elements: nothing, or a run for each of them
with commas between them. -/
def ShowsAll (isBuiltin : String → Bool) (ts : List Tree) (inside : List Item) : Prop :=
  (ts = [] ∧ inside = []) ∨ (ts ≠ [] ∧ ∃ pieces,
    separated inside = (pieces, List.replicate (ts.length - 1) .comma) ∧
      List.Forall₂ (Shows isBuiltin) ts pieces)

namespace ShowsAll

variable {isBuiltin : String → Bool} {source : Source} {ts : List Tree} {inside : List Item}

theorem inside_ne_nil {pieces : List (List Item)} {separators : List Separator} (hts : ts ≠ [])
    (hpieces : separated inside = (pieces, separators))
    (hall : List.Forall₂ (Shows isBuiltin) ts pieces) : inside ≠ [] := by
  rintro rfl
  cases hpieces
  cases hall with
  | cons hshows hrest => exact hshows.ne_nil rfl

theorem parseArguments (h : ShowsAll isBuiltin ts inside) :
    parseArguments isBuiltin source inside =
      .ok (ts, List.replicate (ts.length - 1) .comma) := by
  rw [LineBasic.parseArguments.eq_def]
  rcases h with ⟨rfl, rfl⟩ | ⟨hts, pieces, hpieces, hall⟩
  · rfl
  · have hinside : inside.isEmpty = false := by
      simpa using inside_ne_nil hts hpieces hall
    rw [hinside, parsePieces_of_separated (by rw [hpieces]) hall, hpieces]
    rfl

theorem parseArray (h : ShowsAll isBuiltin ts inside) :
    parseArray isBuiltin source inside = .ok (.array ts) := by
  rw [LineBasic.parseArray.eq_def]
  rcases h with ⟨rfl, rfl⟩ | ⟨hts, pieces, hpieces, hall⟩
  · rfl
  · have hinside : inside.isEmpty = false := by
      simpa using inside_ne_nil hts hpieces hall
    have hany : (separated inside).1.any List.isEmpty = false := by
      rw [hpieces]
      clear hpieces hts hinside
      induction hall with
      | nil => rfl
      | @cons t piece ts pieces hshows _ ih =>
        have hpiece : piece.isEmpty = false := by simpa using hshows.ne_nil
        exact (List.any_cons ..).trans (by rw [hpiece, Bool.false_or]; exact ih)
    rw [hinside, hany, parsePieces_of_separated (by rw [hpieces]) hall]
    rfl

end ShowsAll

/-! ### Each form of expression -/

namespace Shows

variable {isBuiltin : String → Bool} {ts : List Tree} {inside : List Item} {t u : Tree}

/-- A token that is a literal or a plain name. -/
theorem single {token : Token} (hcls : token.cls = .number ∨ token.cls = .quoted ∨
      token.cls = .boolean ∨ token.cls = .literal ∧ isBuiltin (Text.upper token.text) = false ∧
        isReservedWord (Text.upper token.text) = false) (ht : tokenTree false token = .ok t) :
    Shows isBuiltin t [.token token] := by
  have hplain : (Term.token token).IsPlain isBuiltin := hcls
  have hoperator := hplain.operator?
  have hends := hplain.endsOperand
  have hreserved := Term.IsPlain.isReserved hplain
  have hname := Term.IsPlain.literal? hplain
  rw [Term.item] at hoperator hends hreserved hname
  have hseparator : (Item.token token).isClass .separator = false := by
    rcases hcls with hcls | hcls | hcls | ⟨hcls, -⟩ <;> simp [Item.isClass, hcls]
  exact {
    ne_nil := by simp
    separator := by simpa using hseparator
    operator := by simp [hoperator]
    operand := fun _ ↦ {
      head := by simpa using ⟨hreserved, hname⟩
      last := by simpa using hends
      operator := by simpa using hoperator }
    parse := fun source ↦ (parseExpression_token source hreserved).trans ht }

/-- Items that are no operators, with something in brackets at the end. -/
theorem bracketed (items : List Item) {bracket : Bracket}
    (hitems : ∀ i ∈ items, i.isClass .separator = false ∧ i.operator? = none ∧
      i.isReserved = false ∧ i.literal?.any isBuiltin = false)
    (h : ∀ source,
      parseExpression isBuiltin source false (items ++ [.group bracket inside]) = .ok t) :
    Shows isBuiltin t (items ++ [.group bracket inside]) := by
  have hall : ∀ i ∈ items ++ [.group bracket inside], i.isClass .separator = false ∧
      i.operator? = none ∧ i.isReserved = false ∧ i.literal?.any isBuiltin = false := by
    intro i hi
    rcases List.mem_append.1 hi with hi | hi
    · exact hitems i hi
    · rw [List.mem_singleton.1 hi]
      exact ⟨rfl, rfl, rfl, rfl⟩
  exact {
    ne_nil := by simp
    separator := fun i hi ↦ (hall i hi).1
    operator := fun i hi op hop ↦ by rw [(hall i hi).2.1] at hop; cases hop
    operand := fun _ ↦ {
      head := fun i hi ↦ (hall i (List.mem_of_mem_head? hi)).2.2
      last := by simp [Item.endsOperand]
      operator := fun i hi ↦ (hall i hi).2.1 }
    parse := h }

theorem array (h : ShowsAll isBuiltin ts inside) :
    Shows isBuiltin (.array ts) [.group .curly inside] :=
  bracketed [] nofun fun source ↦ by
    rw [List.nil_append, parseExpression]
    exact h.parseArray

theorem binary {left right : List Item} {op : Operator} {column : Nat} (hop : op ≠ .lambda)
    (hleft : Shows isBuiltin t left) (hleft' : t.isLambda = false)
    (hright : Shows isBuiltin u right) (hright' : u.isLambda = false) :
    Shows isBuiltin (.binary op t u)
      [.group .round (left ++ .token (op.token column) :: right)] :=
  bracketed [] nofun fun source ↦ by
    rw [List.nil_append, parseExpression]
    exact parseExpression_operation hop hleft hleft' hright hright'

theorem call {token : Token} (hcls : token.cls = .literal)
    (hname : IsPlainName isBuiltin token.text) (h : ShowsAll isBuiltin ts inside) :
    Shows isBuiltin (.call token.text ts (List.replicate (ts.length - 1) .comma))
      [.token token, .group .round inside] := by
  have hliteral : (Item.token token).literal? = some token.text := by
    rw [Item.literal?, if_pos (by simp [hcls]), hname.upper]
  have hreserved : (Item.token token).isReserved = false := by
    rw [Item.isReserved, hliteral]
    exact hname.notReserved
  have hbuiltin : (Item.token token).literal?.any isBuiltin = false := by
    rw [hliteral]
    exact hname.notBuiltin
  have hoperator : (Item.token token).operator? = none := by simp [Item.operator?, hcls]
  refine bracketed [.token token] ?_ fun source ↦ ?_
  · simpa [Item.isClass, hcls] using ⟨hoperator, hreserved, hbuiltin⟩
  · rw [List.singleton_append, parseExpression_call (by simp) hreserved hbuiltin
      (by simpa using ⟨hoperator, rfl⟩), parseCall.eq_3 _ _ _ _ fun _ heq ↦ by cases heq]
    simp only [hliteral, opensRound, if_true, parseChain_single h.parseArguments]
    rfl

theorem apply {calleeItems : List Item} (hcallee : Shows isBuiltin t calleeItems)
    (h : ShowsAll isBuiltin ts inside) :
    Shows isBuiltin (.apply t ts (List.replicate (ts.length - 1) .comma))
      [.group .round calleeItems, .group .round inside] := by
  refine bracketed [.group .round calleeItems] ?_ fun source ↦ ?_
  · simp [Item.isClass, Item.operator?, Item.isReserved, Item.literal?]
  · rw [List.singleton_append, parseExpression_call (by simp) rfl rfl (by simp [Item.operator?]),
      parseCall, hcallee.parse]
    exact parseChain_single h.parseArguments

theorem lambda {names : List String} {body : List Item} {column : Nat}
    (hnames : ∀ source, parameterNames source inside = .ok names)
    (hbody : Shows isBuiltin t body) :
    Shows isBuiltin (.lambda names t)
      ([.group .square inside] ++ .token (Operator.lambda.token column) :: body) where
  ne_nil := by simp
  separator := by
    have hall := hbody.separator
    simpa [Item.isClass, Operator.token] using hall
  operator i hi op hop := by
    rcases List.mem_cons.1 hi with rfl | hi
    · cases hop
    rcases List.mem_cons.1 hi with rfl | hi
    · rw [Operator.operator?_token] at hop
      exact (Option.some.inj hop).symm
    · exact hbody.operator i hi op hop
  operand := nofun
  parse source := parseExpression_lambda (hnames source) hbody

end Shows

/-! ## Reading texts -/

variable {isBuiltin : String → Bool}

theorem reads_number {n : Nat} (hn : n < 2 ^ 53) :
    Reads (toString n).toList (Shows isBuiltin (.number (Number.ofNat n))) := by
  have hread : Reads (toString n).toList fun items ↦
      ∃ t, items = [.token t] ∧ t.cls = .number ∧ t.text = toString n := by
    refine .single fun source column rest hrest ↦ ?_
    have hscans : Scans source column (toString n).toList rest _ _ :=
      .digits (fun _ ↦ Numeral.isDigit_of_mem_digits) (Numeral.digits_ne_nil n) hrest
    rw [String.ofList_toList] at hscans
    have hsettle : Token.settle ⟨toString n, .number, column⟩ =
        .ok ⟨toString n, .number, column⟩ := by
      simp only [Token.settle, Numeral.isNumeral_toString, Numeral.decimalOfBinary?_toString,
        if_true]
      rfl
    exact ⟨_, _, _, hscans, hsettle, by simp, by simp, rfl, rfl⟩
  refine hread.mono ?_
  rintro items ⟨t, rfl, hcls, htext⟩
  refine Shows.single (.inl hcls) ?_
  simp only [tokenTree, hcls, htext, Numeral.value_toString hn]
  rfl

theorem reads_string {s : String} (hs : '"' ∉ s.toList) :
    Reads ("\"" ++ s ++ "\"").toList (Shows isBuiltin (.string s)) := by
  have hchars : ("\"" ++ s ++ "\"").toList = '"' :: s.toList ++ ['"'] := by
    rw [String.toList_append, String.toList_append]
    rfl
  have hread : Reads ('"' :: s.toList ++ ['"']) fun items ↦
      ∃ t, items = [.token t] ∧ t.cls = .quoted ∧ t.text = s :=
    .single fun _ _ _ _ ↦
      ⟨_, _, _, .quoted hs, rfl, by simp, by simp, rfl, String.ofList_toList⟩
  rw [hchars]
  refine hread.mono ?_
  rintro items ⟨t, rfl, hcls, rfl⟩
  exact Shows.single (.inr (.inl hcls)) (by simp only [tokenTree, hcls])

theorem reads_boolean (b : Bool) :
    Reads (if b then "TRUE" else "FALSE").toList (Shows isBuiltin (.boolean b)) := by
  have hread : Reads (if b then "TRUE" else "FALSE").toList fun items ↦
      ∃ t, items = [.token t] ∧ t.cls = .boolean ∧ t.text = if b then "TRUE" else "FALSE" := by
    refine .single fun source column rest hrest ↦ ?_
    have hliteral : IsLiteralText (if b then "TRUE" else "FALSE").toList := by
      cases b <;> exact ⟨rfl, rfl⟩
    have hsettle : Token.settle ⟨if b then "TRUE" else "FALSE", .literal, column⟩ =
        .ok ⟨if b then "TRUE" else "FALSE", .boolean, column⟩ := by
      have hupper : Text.upper (if b then "TRUE" else "FALSE") = if b then "TRUE" else "FALSE" := by
        cases b <;> decide +kernel
      have hword : Operator.ofText? (if b then "TRUE" else "FALSE") = none := by
        cases b <;> decide
      simp only [Token.settle, hupper, hword]
      cases b <;> rfl
    have hscans : Scans source column _ rest _ _ := .literal hliteral hrest
    rw [String.ofList_toList] at hscans
    exact ⟨_, _, _, hscans, hsettle, by simp, by simp, rfl, rfl⟩
  refine hread.mono ?_
  rintro items ⟨t, rfl, hcls, htext⟩
  refine Shows.single (.inr (.inr (.inl hcls))) ?_
  simp only [tokenTree, hcls, htext]
  cases b <;> rfl

theorem reads_ident {name : String} (hname : IsPlainName isBuiltin name) :
    Reads name.toList (Shows isBuiltin (.ident name)) := by
  refine hname.reads.mono ?_
  rintro items ⟨t, rfl, hcls, rfl⟩
  refine Shows.single (.inr (.inr (.inr ⟨hcls, ?_, ?_⟩))) ?_
  · rw [hname.upper]
    exact hname.notBuiltin
  · rw [hname.upper]
    exact hname.notReserved
  · simp only [tokenTree, hcls, hname.upper]
    rfl

/-- Texts of arguments or elements, joined and put in brackets. -/
theorem reads_joined {ts : List Tree} {texts : List String} (bracket : Bracket)
    (h : List.Forall₂ (fun t text ↦ Reads text.toList (Shows isBuiltin t)) ts texts) :
    Reads (bracket.opening ++ ", ".intercalate texts ++ bracket.closing).toList fun items ↦
      ∃ inside, items = [.group bracket inside] ∧ ShowsAll isBuiltin ts inside := by
  rw [String.toList_append, String.toList_append, List.append_assoc]
  by_cases hts : ts = []
  · subst hts
    cases h
    refine (Reads.empty bracket).mono ?_
    rintro items rfl
    exact ⟨[], rfl, .inl ⟨rfl, rfl⟩⟩
  · refine ((Reads.joined (fun _ _ hshows ↦ hshows.separator) hts h).group bracket).mono ?_
    rintro items ⟨inside, rfl, pieces, hpieces, hall⟩
    exact ⟨inside, rfl, .inr ⟨hts, pieces, hpieces, hall⟩⟩

/-- What is called, with the arguments in brackets right after it. -/
theorem Reads.applied {cs : List Char} {p : List Item → Prop} (h : Reads cs p) {ts : List Tree}
    {texts : List String}
    (hall : List.Forall₂ (fun t text ↦ Reads text.toList (Shows isBuiltin t)) ts texts) :
    Reads (cs ++ ("(" ++ ", ".intercalate texts ++ ")").toList) fun items ↦
      ∃ js inside, items = js ++ [.group .round inside] ∧ p js ∧ ShowsAll isBuiltin ts inside := by
  have hchars : ("(" ++ ", ".intercalate texts ++ ")").toList =
      '(' :: ((", ".intercalate texts).toList ++ [')']) := by simp [String.toList_append]
  have hreads := reads_joined .round hall
  rw [Bracket.opening, Bracket.closing, hchars] at hreads
  rw [hchars]
  refine (h.append hreads (List.cons_ne_nil _ _) (by simp [EndsWord, isBracketChar])).mono ?_
  rintro items ⟨js, ks, rfl, hjs, inside, rfl, hshows⟩
  exact ⟨js, inside, rfl, hjs, hshows⟩

theorem Item.isClass_of_literal? {i : Item} {name : String} (h : i.literal? = some name) :
    i.isClass .separator = false := by
  cases i with
  | group bracket inside => rfl
  | token t =>
    rw [Item.literal?] at h
    split at h
    · rename_i hcls
      simp_all [Item.isClass]
    · cases h

/-- Runs that are single names, each of them another one, are read as these names. -/
theorem namesFrom_of_forall₂ {source : Source} {seen names : List String}
    {pieces : List (List Item)}
    (hall : List.Forall₂ (fun name items ↦ ∃ i, items = [i] ∧ i.literal? = some name) names pieces)
    (hdistinct : (seen ++ names).Nodup) : namesFrom source seen pieces = .ok (seen ++ names) := by
  induction hall generalizing seen with
  | nil => rw [namesFrom, List.append_nil]
  | @cons name _ names _ hname _ ih =>
    obtain ⟨i, rfl, hliteral⟩ := hname
    have hnew : seen.contains name = false := by
      rw [List.contains_eq_mem, decide_eq_false_iff_not]
      exact fun hmem ↦ List.disjoint_of_nodup_append hdistinct hmem (List.mem_cons_self ..)
    rw [List.append_cons] at hdistinct ⊢
    rw [namesFrom, hliteral]
    simp only [hnew, Bool.false_eq_true, if_false]
    exact ih hdistinct

/-- Parameter names, joined and put in brackets. -/
theorem reads_parameters {names : List String} (hnames : ∀ name ∈ names, IsPlainName isBuiltin name)
    (hdistinct : names.Nodup) :
    Reads ("[" ++ ", ".intercalate names ++ "]").toList fun items ↦
      ∃ inside, items = [.group .square inside] ∧
        ∀ source, parameterNames source inside = .ok names := by
  rw [String.toList_append, String.toList_append, List.append_assoc]
  by_cases hempty : names = []
  · subst hempty
    refine (Reads.empty .square).mono ?_
    rintro items rfl
    exact ⟨[], rfl, fun _ ↦ rfl⟩
  · have hreads : List.Forall₂ (fun name text ↦ Reads text.toList fun items ↦
        ∃ i, items = [i] ∧ i.literal? = some name) names names := by
      refine List.forall₂_same.2 fun name hname ↦ (hnames name hname).reads.mono ?_
      rintro items ⟨t, rfl, hcls, rfl⟩
      exact ⟨.token t, rfl, by simp [Item.literal?, hcls, (hnames _ hname).upper]⟩
    refine ((Reads.joined ?_ hempty hreads).group .square).mono ?_
    · rintro name items ⟨i, rfl, hliteral⟩ j hj
      rw [List.mem_singleton.1 hj]
      exact Item.isClass_of_literal? hliteral
    rintro items ⟨inside, rfl, pieces, hpieces, hall⟩
    refine ⟨inside, rfl, fun source ↦ ?_⟩
    have hinside : inside.isEmpty = false := by
      rw [List.isEmpty_eq_false_iff]
      rintro rfl
      obtain rfl : [[]] = pieces := (Prod.mk.inj hpieces).1
      cases hall with
      | cons hname _ =>
        obtain ⟨t, heq, -⟩ := hname
        cases heq
    rw [parameterNames, hinside, hpieces]
    exact namesFrom_of_forall₂ hall hdistinct

/-- Texts of trees that can each be read back. -/
theorem exists_texts {array : Nat → Except Stop String} {ts : List Tree}
    (h : ∀ t ∈ ts, ∃ text, treeText array t = .ok text ∧ Reads text.toList (Shows isBuiltin t)) :
    ∃ texts, treeTexts array ts = .ok texts ∧
      List.Forall₂ (fun t text ↦ Reads text.toList (Shows isBuiltin t)) ts texts := by
  induction ts with
  | nil => exact ⟨[], by rw [treeTexts], .nil⟩
  | cons t ts ih =>
    obtain ⟨text, htext, hreads⟩ := h t (List.mem_cons_self ..)
    obtain ⟨texts, htexts, hall⟩ := ih fun u hu ↦ h u (List.mem_cons_of_mem _ hu)
    refine ⟨text :: texts, ?_, .cons hreads hall⟩
    rw [treeTexts, htext, htexts]
    rfl

/-- The text of a readable expression is read as items that show it. -/
theorem Tree.IsReadable.exists_text {t : Tree} (h : t.IsReadable isBuiltin)
    (array : Nat → Except Stop String) :
    ∃ text, treeText array t = .ok text ∧ Reads text.toList (Shows isBuiltin t) := by
  induction h with
  | @number n hn =>
    refine ⟨toString n, ?_, reads_number hn⟩
    rw [treeText, literal, Number.literalText_ofNat hn]
  | @string s hs => exact ⟨_, by rw [treeText], reads_string hs⟩
  | boolean b => exact ⟨_, by rw [treeText], reads_boolean b⟩
  | ident hname => exact ⟨_, by rw [treeText], reads_ident hname⟩
  | @array elements _ ih =>
    obtain ⟨texts, htexts, hall⟩ := exists_texts ih
    refine ⟨_, ?_, (reads_joined .curly hall).mono ?_⟩
    · rw [treeText, htexts]
      rfl
    · rintro items ⟨inside, rfl, hshows⟩
      exact .array hshows
  | @call name args hname _ ih =>
    obtain ⟨texts, htexts, hall⟩ := exists_texts ih
    refine ⟨name ++ "(" ++ ", ".intercalate texts ++ ")", ?_, ?_⟩
    · rw [treeText, htexts]
      rfl
    · rw [String.append_assoc, String.append_assoc, String.toList_append, ← String.append_assoc]
      refine (hname.reads.applied hall).mono ?_
      rintro items ⟨js, inside, rfl, ⟨t, rfl, hcls, rfl⟩, hshows⟩
      exact .call hcls hname hshows
  | @apply callee args _ _ ihcallee ih =>
    obtain ⟨text, htext, hreads⟩ := ihcallee
    obtain ⟨texts, htexts, hall⟩ := exists_texts ih
    refine ⟨"(" ++ text ++ ")(" ++ ", ".intercalate texts ++ ")", ?_, ?_⟩
    · rw [treeText, htext, htexts]
      rfl
    · have hchars : ("(" ++ text ++ ")(" ++ ", ".intercalate texts ++ ")").toList =
          (Bracket.round.opening.toList ++ (text.toList ++ Bracket.round.closing.toList)) ++
            ("(" ++ ", ".intercalate texts ++ ")").toList := by
        simp [String.toList_append, Bracket.opening, Bracket.closing]
      rw [hchars]
      refine ((hreads.group .round).applied hall).mono ?_
      rintro items ⟨js, inside, rfl, ⟨calleeItems, rfl, hcallee⟩, hshows⟩
      exact .apply hcallee hshows
  | @binary op left right hop _ hleft' _ hright' ihleft ihright =>
    obtain ⟨text, htext, hreads⟩ := ihleft
    obtain ⟨text', htext', hreads'⟩ := ihright
    refine ⟨"(" ++ text ++ " " ++ op.text ++ " " ++ text' ++ ")", ?_, ?_⟩
    · rw [treeText, htext, htext']
      rfl
    · have hchars : ("(" ++ text ++ " " ++ op.text ++ " " ++ text' ++ ")").toList =
          Bracket.round.opening.toList ++ ((text.toList ++
            ' ' :: (op.text.toList ++ ' ' :: text'.toList)) ++ Bracket.round.closing.toList) := by
        simp [String.toList_append, Bracket.opening, Bracket.closing]
      rw [hchars]
      refine ((hreads.operation op hreads').group .round).mono ?_
      rintro items ⟨inside, rfl, js, column, ks, rfl, hshows, hshows'⟩
      exact .binary hop hshows hleft' hshows' hright'
  | @lambda names body hnames hdistinct _ ih =>
    obtain ⟨text, htext, hreads⟩ := ih
    refine ⟨"[" ++ ", ".intercalate names ++ "] ~> " ++ text, ?_, ?_⟩
    · rw [treeText, htext]
      rfl
    · have hchars : ("[" ++ ", ".intercalate names ++ "] ~> " ++ text).toList =
          ("[" ++ ", ".intercalate names ++ "]").toList ++
            ' ' :: (Operator.lambda.text.toList ++ ' ' :: text.toList) := by
        simp [String.toList_append, Operator.text]
      rw [hchars]
      refine ((reads_parameters hnames hdistinct).operation .lambda hreads).mono ?_
      rintro items ⟨js, column, ks, rfl, ⟨inside, rfl, hnames⟩, hshows⟩
      exact .lambda hnames hshows

/-- **Printing and parsing expressions are inverse.**  The text of a readable expression is scanned,
settled, gathered and parsed as an expression without a failure, and gives back the expression. -/
theorem Tree.IsReadable.parseExpression_text {t : Tree} (h : t.IsReadable isBuiltin) (heap : Heap)
    (line : Option Int) :
    ∃ text tokens items, heap.describeTree t = .ok text ∧ settledTokens line text = .ok tokens ∧
      ∀ source, Item.gather source tokens = .ok items ∧
        parseExpression isBuiltin source false items = .ok t := by
  obtain ⟨text, htext, hreads⟩ := h.exists_text (heap.arrayText (heap.size + 1))
  obtain ⟨raw, column, settled, items, hscans, ⟨t', ts, hraw, -, hfuse⟩, hgathers, hshows⟩ :=
    hreads ⟨line, text⟩ 0 [] nofun
  have hscan : scan line text = .ok raw := by
    rw [Scans, List.append_nil, scanFrom] at hscans
    exact hscans.trans (congrArg Except.ok (List.append_nil raw))
  have hsettle : Token.settleAll raw = .ok settled := by
    have hall := hfuse []
    rw [List.append_nil, Token.fuse, List.append_nil] at hall
    rw [Token.settleAll, hraw, ← hall]
    rfl
  have hsettled : settledTokens line text = .ok settled := by
    rw [settledTokens, hscan]
    exact congrArg (Except.mapError Stop.mishap) hsettle
  refine ⟨text, settled, items, htext, hsettled, fun source ↦ ⟨?_, hshows.parse source⟩⟩
  have hall := hgathers source [] [] []
  rw [List.append_nil, List.append_nil] at hall
  rw [Item.gather, hall, Item.gatherFrom, List.reverse_reverse]

theorem isPlainName_x : IsPlainName Builtin.isName "X" where
  upper := by decide +kernel
  scanned := scan_eq_literal_iff.2 ⟨rfl, rfl⟩
  notBuiltin := by decide +kernel
  notOperator := by decide
  notBoolean := by decide
  notReserved := by decide

/-- `[X] ~> X(\x7b1, "a"\x7d, (X + TRUE))` is read back. -/
theorem Tree.parseExpression_text_lambda :
    let t : Tree := .lambda ["X"] (.call "X"
      [.array [.number (Number.ofNat 1), .string "a"], .binary .plus (.ident "X") (.boolean true)]
      [.comma])
    t.IsReadable Builtin.isName ∧ ∃ text tokens items, Heap.empty.describeTree t = .ok text ∧
      settledTokens none text = .ok tokens ∧
      ∀ source, Item.gather source tokens = .ok items ∧
        parseExpression Builtin.isName source false items = .ok t := by
  intro t
  have harray : IsReadable Builtin.isName (.array [.number (Number.ofNat 1), .string "a"]) := by
    refine .array fun u hu ↦ ?_
    rcases List.mem_pair.1 hu with rfl | rfl
    · exact .number (by decide)
    · exact .string (by decide)
  have hsum : IsReadable Builtin.isName (.binary .plus (.ident "X") (.boolean true)) :=
    .binary (by decide) (.ident isPlainName_x) rfl (.boolean true) rfl
  have hargs : ∀ u ∈ [Tree.array [.number (Number.ofNat 1), .string "a"],
      .binary .plus (.ident "X") (.boolean true)], u.IsReadable Builtin.isName := by
    intro u hu
    rcases List.mem_pair.1 hu with rfl | rfl
    · exact harray
    · exact hsum
  have ht : t.IsReadable Builtin.isName :=
    .lambda (by simpa using isPlainName_x) (by decide) (.call isPlainName_x hargs)
  exact ⟨ht, ht.parseExpression_text Heap.empty none⟩

end LineBasic
