import LineBasic.Proofs.Numeral
import LineBasic.Proofs.Tree.Grouping
import LineBasic.Token.Scan

/-!
# Texts and the items they are read as

Reading a text takes it through four steps, and each of them looks only a little further than the
piece of text at hand: a name or a number goes on until a character that ends it, and an operator
is fused with the operators right after it.  So texts can be read piece by piece.

* `Scans`, `Settles`, `Gathers` — the steps, for a piece of text inside a longer one.
* `Reads` — all steps: the text is read as items of which a property holds.
* `Reads.name`, `Reads.operation`, `Reads.group` and so on — how texts are put together.
-/

set_option autoImplicit false
namespace LineBasic

/-! ## Scanning -/

/-- Scanning the characters, with the rest of the line behind them, gives the tokens and goes on
with the rest at the other column. -/
def Scans (source : Source) (column : Nat) (cs rest : List Char) (raw : List Token)
    (column' : Nat) : Prop :=
  scanFrom source column (cs ++ rest) = (scanFrom source column' rest).map (raw ++ ·)

/-- Whether a name or a number ends where the text goes on like this. -/
def EndsWord (rest : List Char) : Prop :=
  ∀ c ∈ rest.head?, c = ' ' ∨ c = ',' ∨ isBracketChar c = true

theorem EndsWord.blank {rest : List Char} : EndsWord (' ' :: rest) := by
  simp [EndsWord]

theorem EndsWord.append {cs rest : List Char} (h : EndsWord cs) (hne : cs ≠ []) :
    EndsWord (cs ++ rest) := by
  cases cs with
  | nil => exact absurd rfl hne
  | cons c cs => exact h

section
variable {source : Source} {column column' column'' : Nat} {cs cs' rest : List Char}
  {raw raw' : List Token}

theorem Scans.append (h : Scans source column cs (cs' ++ rest) raw column')
    (h' : Scans source column' cs' rest raw' column'') :
    Scans source column (cs ++ cs') rest (raw ++ raw') column'' := by
  rw [Scans, List.append_assoc, h, h']
  cases scanFrom source column'' rest with
  | error f => rfl
  | ok tokens => exact congrArg Except.ok (List.append_assoc ..).symm

/-- A piece is scanned by itself. -/
theorem Scans.piece {c : Char} {piece : Piece}
    (hpiece : nextPiece source c (cs ++ rest) = .ok piece) (hmore : piece.more = cs.length) :
    Scans source column (c :: cs) rest (piece.tokens column) (column + 1 + piece.more) := by
  rw [Scans, List.cons_append, scanFrom, hpiece]
  have hdrop : (cs ++ rest).drop piece.more = rest := by rw [hmore, List.drop_left]
  change (scanFrom source _ ((cs ++ rest).drop piece.more) >>= _) = _
  rw [hdrop]
  cases scanFrom source (column + 1 + piece.more) rest with
  | error f => rfl
  | ok tokens => rfl

theorem Scans.blank (h : Scans source (column + 1) cs rest raw column') :
    Scans source column (' ' :: cs) rest raw column' := by
  have hblank : Scans source column [' '] (cs ++ rest) [] (column + 1) :=
    Scans.piece (show nextPiece source ' ' ([] ++ (cs ++ rest)) = .ok ⟨none, 0, 0⟩ from rfl) rfl
  exact hblank.append h

/-! ### The first piece of a text -/

theorem nextPiece_bracket {c : Char} (hc : isBracketChar c = true) :
    nextPiece source c cs = .ok (Piece.whole .paren c []) := by
  have hmem : c = '(' ∨ c = ')' ∨ c = '[' ∨ c = ']' ∨ c = '\x7b' ∨ c = '\x7d' := by
    simpa [isBracketChar] using hc
  rcases hmem with rfl | rfl | rfl | rfl | rfl | rfl <;> rfl

theorem nextPiece_comma : nextPiece source ',' cs = .ok (Piece.whole .separator ',' []) := rfl

theorem nextPiece_operator {c : Char} (hc : isOperatorChar c = true) :
    nextPiece source c cs = .ok (Piece.whole .operator c []) := by
  have hmem : c ∈ ['!', '~', '#', '<', '=', '>', '*', '+', '-', '/', '^', ':', '$', '.', '@', '\\',
      '%', '|', '`'] := List.contains_iff_mem.1 hc
  simp only [List.mem_cons, List.not_mem_nil, or_false] at hmem
  rcases hmem with rfl | rfl | rfl | rfl | rfl | rfl | rfl | rfl | rfl | rfl | rfl | rfl | rfl |
    rfl | rfl | rfl | rfl | rfl | rfl <;> rfl

/-- Whether the characters may make up a literal. -/
def IsLiteralText : List Char → Prop
  | [] => False
  | c :: cs => c.isDigit = false ∧ (c :: cs).any endsLiteral = false

theorem IsLiteralText.ne_nil {text : List Char} (h : IsLiteralText text) : text ≠ [] := by
  rintro rfl
  exact h

theorem takeWhile_append_of_stop {p : Char → Bool} (hcs : ∀ c ∈ cs, p c = true)
    (hrest : ∀ c ∈ rest.head?, p c = false) : (cs ++ rest).takeWhile p = cs := by
  rw [List.takeWhile_append_of_pos hcs]
  cases rest with
  | nil => simp
  | cons c rest =>
    rw [List.takeWhile_cons_of_neg (by simpa using hrest c rfl), List.append_nil]

theorem dropWhile_append_of_stop {p : Char → Bool} (hcs : ∀ c ∈ cs, p c = true)
    (hrest : ∀ c ∈ rest.head?, p c = false) : (cs ++ rest).dropWhile p = rest := by
  rw [List.dropWhile_append_of_pos hcs]
  cases rest with
  | nil => rfl
  | cons c rest => exact List.dropWhile_cons_of_neg (by simpa using hrest c rfl)

theorem EndsWord.endsLiteral (h : EndsWord rest) : ∀ c ∈ rest.head?, endsLiteral c = true := by
  intro c hc
  rcases h c hc with rfl | rfl | hbracket
  · rfl
  · rfl
  · simp [LineBasic.endsLiteral, hbracket]

theorem nextPiece_literal {c : Char} (hcs : IsLiteralText (c :: cs))
    (hrest : ∀ d ∈ rest.head?, LineBasic.endsLiteral d = true) :
    nextPiece source c (cs ++ rest) = .ok (Piece.whole .literal c cs) := by
  obtain ⟨hdigit, hany⟩ := hcs
  have hall : ∀ d ∈ c :: cs, LineBasic.endsLiteral d = false := by
    simpa only [List.any_eq_false, Bool.not_eq_true] using hany
  have hc := hall c (List.mem_cons_self ..)
  simp only [LineBasic.endsLiteral, Bool.or_eq_false_iff] at hc
  obtain ⟨⟨⟨⟨hquote, hspace⟩, hbracket⟩, hseparator⟩, hoperator⟩ := hc
  have htake : (cs ++ rest).takeWhile (!LineBasic.endsLiteral ·) = cs := by
    refine takeWhile_append_of_stop (fun d hd ↦ ?_) fun d hd ↦ ?_
    · simp [hall d (List.mem_cons_of_mem _ hd)]
    · simp [hrest d hd]
  simp [nextPiece, hquote, hspace, hbracket, hseparator, hoperator, hdigit, htake]

theorem endsLiteral_of_isDigit {c : Char} (h : c.isDigit = true) : endsLiteral c = false := by
  have hbounds : 48 ≤ c.toNat ∧ c.toNat ≤ 57 := by
    simp only [Char.isDigit, Bool.and_eq_true, decide_eq_true_eq] at h
    exact h
  obtain ⟨hlow, hhigh⟩ := hbounds
  rw [← Char.ofNat_toNat c]
  interval_cases c.toNat <;> rfl

/-- What ends a number neither belongs to it nor leads to a second run of digits. -/
theorem EndsWord.not_number (h : EndsWord rest) :
    ∀ c ∈ rest.head?, isNumberChar c = false ∧ isNumericSeparator c = false := by
  intro c hc
  rcases h c hc with rfl | rfl | hbracket
  · exact ⟨rfl, rfl⟩
  · exact ⟨rfl, rfl⟩
  · have hmem : c = '(' ∨ c = ')' ∨ c = '[' ∨ c = ']' ∨ c = '\x7b' ∨ c = '\x7d' := by
      simpa [isBracketChar] using hbracket
    rcases hmem with rfl | rfl | rfl | rfl | rfl | rfl <;> exact ⟨rfl, rfl⟩

theorem not_isNumberChar_of_isNumericSeparator {c : Char} (h : isNumericSeparator c = true) :
    isNumberChar c = false := by
  have hmem : c ∈ ['.', 'B', 'X', 'b', 'x'] := List.contains_iff_mem.1 h
  simp only [List.mem_cons, List.not_mem_nil, or_false] at hmem
  rcases hmem with rfl | rfl | rfl | rfl | rfl <;> rfl

/-- The text of a number, up to the character after it, which cannot belong to it. -/
inductive NumberText : List Char → Option Char → Prop
  | whole {c : Char} {digits : List Char} {next : Option Char} (hc : c.isDigit = true)
      (hdigits : ∀ d ∈ digits, isNumberChar d = true)
      (hnext : ∀ d ∈ next, isNumberChar d = false ∧ isNumericSeparator d = false) :
      NumberText (c :: digits) next
  | parted {c s : Char} {digits suffix : List Char} {next : Option Char} (hc : c.isDigit = true)
      (hdigits : ∀ d ∈ digits, isNumberChar d = true) (hs : isNumericSeparator s = true)
      (hne : suffix ≠ []) (hsuffix : ∀ d ∈ suffix, isSuffixChar d = true)
      (hnext : ∀ d ∈ next, isSuffixChar d = false) :
      NumberText (c :: (digits ++ s :: suffix)) next

theorem NumberText.ne_nil {text : List Char} {next : Option Char} (h : NumberText text next) :
    text ≠ [] := by
  rintro rfl
  cases h

theorem nextPiece_of_isDigit {c : Char} (hc : c.isDigit = true) :
    nextPiece source c cs = numberPiece source c cs := by
  have hends := endsLiteral_of_isDigit hc
  simp only [LineBasic.endsLiteral, Bool.or_eq_false_iff] at hends
  obtain ⟨⟨⟨⟨hquote, hspace⟩, hbracket⟩, hseparator⟩, hoperator⟩ := hends
  simp [nextPiece, hquote, hspace, hbracket, hseparator, hoperator, hc]

theorem nextPiece_number {c : Char} (h : NumberText (c :: cs) rest.head?) :
    nextPiece source c (cs ++ rest) = .ok (Piece.whole .number c cs) := by
  cases h with
  | whole hc hdigits hnext =>
    have hstop : ∀ d ∈ rest.head?, isNumberChar d = false := fun d hd ↦ (hnext d hd).1
    rw [nextPiece_of_isDigit hc, numberPiece, takeWhile_append_of_stop hdigits hstop,
      dropWhile_append_of_stop hdigits hstop]
    cases rest with
    | nil => rfl
    | cons d rest => simp [(hnext d rfl).2]
  | @parted _ s digits suffix _ hc hdigits hs hne hsuffix hnext =>
    have hstop : ∀ d ∈ (s :: (suffix ++ rest)).head?, isNumberChar d = false := fun d hd ↦
      Option.some.inj hd ▸ not_isNumberChar_of_isNumericSeparator hs
    rw [nextPiece_of_isDigit hc, numberPiece, List.append_assoc, List.cons_append,
      takeWhile_append_of_stop hdigits hstop, dropWhile_append_of_stop hdigits hstop]
    cases suffix with
    | nil => exact absurd rfl hne
    | cons d suffix =>
      have htake : (d :: (suffix ++ rest)).takeWhile isSuffixChar = d :: suffix :=
        takeWhile_append_of_stop hsuffix hnext
      simp [hs, hsuffix d (List.mem_cons_self ..), htake]

theorem nextPiece_digits {c : Char} (hcs : ∀ d ∈ c :: cs, d.isDigit = true)
    (hrest : EndsWord rest) :
    nextPiece source c (cs ++ rest) = .ok (Piece.whole .number c cs) :=
  nextPiece_number <| .whole (hcs c (List.mem_cons_self ..))
    (fun d hd ↦ by simp [isNumberChar, hcs d (List.mem_cons_of_mem _ hd)]) hrest.not_number

theorem nextPiece_quoted (hcs : '"' ∉ cs) :
    nextPiece source '"' (cs ++ '"' :: rest) = .ok ⟨some (.quoted, cs), 1, cs.length + 1⟩ := by
  have htake : (cs ++ '"' :: rest).takeWhile (· != '"') = cs := by
    refine takeWhile_append_of_stop (fun d hd ↦ ?_) fun d hd ↦ ?_
    · rw [bne_iff_ne]
      rintro rfl
      exact hcs hd
    · simpa using (Option.some.inj hd).symm
  simp [nextPiece, htake]

/-! ### Tokens -/

theorem Scans.bracket {c : Char} (hc : isBracketChar c = true) :
    Scans source column [c] rest [⟨String.singleton c, .paren, column⟩] (column + 1) :=
  Scans.piece (nextPiece_bracket hc) rfl

theorem Scans.comma :
    Scans source column [','] rest [⟨",", .separator, column⟩] (column + 1) :=
  Scans.piece nextPiece_comma rfl

theorem Scans.literal (hcs : IsLiteralText cs) (hrest : EndsWord rest) :
    Scans source column cs rest [⟨String.ofList cs, .literal, column⟩] (column + cs.length) := by
  cases cs with
  | nil => exact hcs.elim
  | cons c cs =>
    have : Scans source column (c :: cs) rest _ _ :=
      .piece (nextPiece_literal hcs hrest.endsLiteral) rfl
    rwa [Nat.add_right_comm, Nat.add_assoc] at this

theorem Scans.digits (hcs : ∀ c ∈ cs, c.isDigit = true) (hne : cs ≠ []) (hrest : EndsWord rest) :
    Scans source column cs rest [⟨String.ofList cs, .number, column⟩] (column + cs.length) := by
  cases cs with
  | nil => exact absurd rfl hne
  | cons c cs =>
    have : Scans source column (c :: cs) rest _ _ := .piece (nextPiece_digits hcs hrest) rfl
    rwa [Nat.add_right_comm, Nat.add_assoc] at this

theorem Scans.quoted (hcs : '"' ∉ cs) :
    Scans source column ('"' :: cs ++ ['"']) rest [⟨String.ofList cs, .quoted, column + 1⟩]
      (column + 1 + (cs.length + 1)) := by
  have hpiece : nextPiece source '"' (cs ++ ['"'] ++ rest) =
      .ok ⟨some (.quoted, cs), 1, cs.length + 1⟩ := by
    rw [List.append_assoc]
    exact nextPiece_quoted hcs
  exact Scans.piece hpiece (by simp)

end

theorem Bracket.exists_chars (bracket : Bracket) : ∃ a b,
    bracket.opening = String.singleton a ∧ bracket.closing = String.singleton b ∧
      isBracketChar a = true ∧ isBracketChar b = true := by
  cases bracket with
  | round => exact ⟨'(', ')', rfl, rfl, rfl, rfl⟩
  | square => exact ⟨'[', ']', rfl, rfl, rfl, rfl⟩
  | curly => exact ⟨'\x7b', '\x7d', rfl, rfl, rfl, rfl⟩

theorem Scans.opening (bracket : Bracket) (source : Source) (column : Nat) (rest : List Char) :
    Scans source column bracket.opening.toList rest [⟨bracket.opening, .paren, column⟩]
      (column + 1) := by
  obtain ⟨a, -, hopening, -, ha, -⟩ := bracket.exists_chars
  rw [hopening, String.toList_singleton]
  exact .bracket ha

theorem Scans.closing (bracket : Bracket) (source : Source) (column : Nat) (rest : List Char) :
    Scans source column bracket.closing.toList rest [⟨bracket.closing, .paren, column⟩]
      (column + 1) := by
  obtain ⟨-, b, -, hclosing, -, hb⟩ := bracket.exists_chars
  rw [hclosing, String.toList_singleton]
  exact .bracket hb

theorem EndsWord.closing (bracket : Bracket) (rest : List Char) :
    EndsWord (bracket.closing.toList ++ rest) := by
  obtain ⟨-, b, -, hclosing, -, hb⟩ := bracket.exists_chars
  rw [hclosing, String.toList_singleton]
  intro c hc
  cases hc
  exact .inr (.inr hb)

/-! ## Settling -/

namespace Token

/-- The tokens are settled to the others, whatever follows them.  They do not start with an
operator, which would be fused with one before them. -/
def Settles (raw settled : List Token) : Prop :=
  ∃ t ts, raw.mapM settle = .ok (t :: ts) ∧ t.cls ≠ .operator ∧
    ∀ more, fuse (t :: ts ++ more) = settled ++ fuse more

theorem fused?_eq_none {group : List Token} {t : Token} (ht : t ∈ group)
    (hcls : t.cls ≠ .operator) : fused? group = none := by
  rw [fused?, if_neg]
  simp only [List.all_eq_true, beq_iff_eq, not_forall]
  exact ⟨t, ht, hcls⟩

theorem alone_eq_self {t : Token} (h : t.cls = .operator → t.text ≠ ":") : t.alone = t := by
  rw [alone, if_neg]
  simpa using h

/-- A token that is no operator is not fused with what follows. -/
theorem fuse_cons {t : Token} (hcls : t.cls ≠ .operator) (more : List Token) :
    fuse (t :: more) = t :: fuse more := by
  have halone : t.alone = t := alone_eq_self fun h ↦ absurd h hcls
  cases more with
  | nil => rw [fuse, fuse, halone]
  | cons u more =>
    cases more with
    | nil => rw [fuse, fused?_eq_none (by simp) hcls, fuse, halone]
    | cons v more =>
      have hthree : fused? [t, u, v] = none := fused?_eq_none (by simp) hcls
      have htwo : fused? [t, u] = none := fused?_eq_none (by simp) hcls
      rw [fuse, hthree, htwo, halone]

theorem Settles.single {raw t : Token} (h : raw.settle = .ok t) (hcls : t.cls ≠ .operator) :
    Settles [raw] [t] := by
  refine ⟨t, [], ?_, hcls, fun more ↦ fuse_cons hcls more⟩
  rw [List.mapM_cons, List.mapM_nil, h]
  rfl

theorem mapM_append_eq_ok {raw raw' single single' : List Token}
    (h : raw.mapM settle = .ok single) (h' : raw'.mapM settle = .ok single') :
    (raw ++ raw').mapM settle = .ok (single ++ single') := by
  rw [List.mapM_append, h, h']
  rfl

theorem Settles.append {raw raw' settled settled' : List Token} (h : Settles raw settled)
    (h' : Settles raw' settled') : Settles (raw ++ raw') (settled ++ settled') := by
  obtain ⟨t, ts, hraw, hcls, hfuse⟩ := h
  obtain ⟨t', ts', hraw', -, hfuse'⟩ := h'
  refine ⟨t, ts ++ t' :: ts', mapM_append_eq_ok hraw hraw', hcls, fun more ↦ ?_⟩
  rw [List.append_assoc, ← List.cons_append, List.append_assoc, hfuse, hfuse']

/-- Operator tokens that make up an operator are fused, if none follows them. -/
theorem fuse_operator {t u : Token} (hu : u.cls ≠ .operator) (htext : t.text ≠ ":")
    (more : List Token) : fuse (t :: u :: more) = t :: fuse (u :: more) := by
  have halone : t.alone = t := alone_eq_self fun _ ↦ htext
  cases more with
  | nil => rw [fuse, fused?_eq_none (by simp) hu, fuse, halone, alone_eq_self fun h ↦ absurd h hu]
  | cons v more =>
    have hthree : fused? [t, u, v] = none := fused?_eq_none (by simp) hu
    have htwo : fused? [t, u] = none := fused?_eq_none (by simp) hu
    rw [fuse, hthree, htwo, halone]

theorem fuse_two {a b u : Token} {text : String} (hfused : fused? [a, b] = some text)
    (hu : u.cls ≠ .operator) (more : List Token) :
    fuse (a :: b :: u :: more) = { a with text } :: fuse (u :: more) := by
  have hthree : fused? [a, b, u] = none := fused?_eq_none (by simp) hu
  rw [fuse, hthree, hfused]

theorem fuse_three {a b c : Token} {text : String} (hfused : fused? [a, b, c] = some text)
    (more : List Token) : fuse (a :: b :: c :: more) = { a with text } :: fuse more := by
  rw [fuse, hfused]

/-- Tokens of operator class make up the operator that is written with their texts. -/
theorem fused?_of_text {group : List Token} {op : Operator} (hcls : ∀ t ∈ group, t.cls = .operator)
    (htext : String.join (group.map Token.text) = op.text) : fused? group = some op.text := by
  rw [fused?, if_pos (by simpa using hcls), htext, op.ofText?_text, Option.map_some]

/-- The tokens are settled to the operator, if what follows is none. -/
def SettlesTo (raw : List Token) (op : Operator) (column : Nat) : Prop :=
  ∃ ts, raw.mapM settle = .ok ts ∧ ∀ t more, t.cls ≠ .operator →
    fuse (ts ++ t :: more) = op.token column :: fuse (t :: more)

theorem Settles.operation {raw raw' between settled settled' : List Token} {op : Operator}
    {column : Nat} (h : Settles raw settled) (hop : SettlesTo between op column)
    (h' : Settles raw' settled') :
    Settles (raw ++ (between ++ raw')) (settled ++ op.token column :: settled') := by
  obtain ⟨t, ts, hraw, hcls, hfuse⟩ := h
  obtain ⟨us, hbetween, hop⟩ := hop
  obtain ⟨t', ts', hraw', hcls', hfuse'⟩ := h'
  refine ⟨t, ts ++ (us ++ t' :: ts'),
    mapM_append_eq_ok hraw (mapM_append_eq_ok hbetween hraw'), hcls, fun more ↦ ?_⟩
  have hright := hop t' (ts' ++ more) hcls'
  rw [← List.cons_append, hfuse'] at hright
  rw [← List.cons_append, List.append_assoc, List.append_assoc, hfuse, hright, List.append_assoc,
    List.cons_append]

end Token

theorem Bracket.settles_opening (bracket : Bracket) (column : Nat) :
    Token.Settles [⟨bracket.opening, .paren, column⟩] [⟨bracket.opening, .paren, column⟩] :=
  .single rfl (by simp)

theorem Bracket.settles_closing (bracket : Bracket) (column : Nat) :
    Token.Settles [⟨bracket.closing, .paren, column⟩] [⟨bracket.closing, .paren, column⟩] :=
  .single rfl (by simp)

/-! ### Operators -/

/-- How an operator is written: with one to three operator characters, or as a word. -/
theorem Operator.text_cases (op : Operator) :
    (∃ a, op.text.toList = [a] ∧ isOperatorChar a = true ∧ a ≠ ':') ∨
    (∃ a b, op.text.toList = [a, b] ∧ isOperatorChar a = true ∧ isOperatorChar b = true) ∨
    (∃ a b c, op.text.toList = [a, b, c] ∧ isOperatorChar a = true ∧ isOperatorChar b = true ∧
      isOperatorChar c = true) ∨
    (IsLiteralText op.text.toList ∧ Text.upper op.text = op.text) := by
  cases op
  case join | power | times | divide | quotient | plus | minus | less | greater | cons | snoc |
      concat | compose | apply | ret | assign =>
    exact .inl ⟨_, rfl, rfl, by decide⟩
  case shiftLeft | shiftRight | lessEq | eqLess | greaterEq | eqGreater | equal | unequal | unlike |
      curry | lambda =>
    exact .inr (.inl ⟨_, _, rfl, rfl, rfl⟩)
  case andThen | bind => exact .inr (.inr (.inl ⟨_, _, _, rfl, rfl, rfl, rfl⟩))
  all_goals exact .inr (.inr (.inr ⟨⟨rfl, rfl⟩, by decide +kernel⟩))

theorem Scans.operator {source : Source} {column : Nat} {rest : List Char} {c : Char}
    (hc : isOperatorChar c = true) :
    Scans source column [c] rest [⟨String.singleton c, .operator, column⟩] (column + 1) :=
  Scans.piece (nextPiece_operator hc) rfl


/-- A word that is the text of an operator is settled to it. -/
theorem Token.settle_word {op : Operator} (hupper : Text.upper op.text = op.text) (column : Nat) :
    settle ⟨op.text, .literal, column⟩ = .ok (op.token column) := by
  simp only [settle, hupper, op.ofText?_text, Option.isSome_some, if_true]
  rfl

/-- An operator with a blank after it is scanned and settled. -/
theorem Operator.exists_scans (op : Operator) (source : Source) (column : Nat) (rest : List Char) :
    ∃ raw column', Scans source column op.text.toList (' ' :: rest) raw column' ∧
      Token.SettlesTo raw op column := by
  have htext : String.ofList op.text.toList = op.text := String.ofList_toList
  rcases op.text_cases with ⟨a, hchars, ha, hcolon⟩ | ⟨a, b, hchars, ha, hb⟩ |
    ⟨a, b, c, hchars, ha, hb, hc⟩ | ⟨hliteral, hupper⟩
  · rw [hchars] at htext ⊢
    refine ⟨_, _, .operator ha, _, rfl, fun t more ht ↦ ?_⟩
    have hsingle : String.singleton a = op.text := htext
    have hne : op.text ≠ ":" := by
      intro heq
      rw [heq] at hchars
      exact hcolon (List.cons.inj hchars).1.symm
    rw [hsingle]
    exact Token.fuse_operator ht hne more
  · rw [hchars] at htext ⊢
    have hscans : Scans source column ([a] ++ [b]) (' ' :: rest) _ _ :=
      .append (.operator ha) (.operator hb)
    refine ⟨_, _, hscans, _, rfl, fun t more ht ↦ ?_⟩
    exact Token.fuse_two (Token.fused?_of_text (by simp) (by simpa using htext)) ht more
  · rw [hchars] at htext ⊢
    have hlast : Scans source (column + 1) ([b] ++ [c]) (' ' :: rest) _ _ :=
      .append (.operator hb) (.operator hc)
    have hscans : Scans source column ([a] ++ ([b] ++ [c])) (' ' :: rest) _ _ :=
      .append (.operator ha) hlast
    refine ⟨_, _, hscans, _, rfl, fun t more ht ↦ ?_⟩
    exact Token.fuse_three (Token.fused?_of_text (by simp) (by simpa using htext)) (t :: more)
  · have hscans : Scans source column op.text.toList (' ' :: rest) _ _ :=
      .literal hliteral .blank
    rw [htext] at hscans
    refine ⟨_, _, hscans, [op.token column], ?_, fun t more ht ↦ Token.fuse_operator ht ?_ more⟩
    · rw [List.mapM_cons, List.mapM_nil, Token.settle_word hupper]
      rfl
    · rintro heq
      change op.text = ":" at heq
      rw [heq] at hliteral
      cases hliteral.2

/-! ## Gathering -/

/-- The tokens are gathered into the items, whatever stands before and after them. -/
def Gathers (settled : List Token) (items : List Item) : Prop :=
  ∀ source stack done more, Item.gatherFrom source stack done (settled ++ more) =
    Item.gatherFrom source stack (items.reverse ++ done) more

theorem Gathers.single {t : Token} (h : t.cls ≠ .paren) : Gathers [t] [.token t] :=
  fun source stack done more ↦ Item.gatherFrom_token h source stack done more

theorem Gathers.append {settled settled' : List Token} {items items' : List Item}
    (h : Gathers settled items) (h' : Gathers settled' items') :
    Gathers (settled ++ settled') (items ++ items') := by
  intro source stack done more
  rw [List.append_assoc, h, h', List.reverse_append, List.append_assoc]

theorem Gathers.group {settled : List Token} {inside : List Item} (h : Gathers settled inside)
    (bracket : Bracket) (column column' : Nat) :
    Gathers (⟨bracket.opening, .paren, column⟩ :: (settled ++ [⟨bracket.closing, .paren, column'⟩]))
      [.group bracket inside] := by
  intro source stack done more
  rw [List.cons_append, List.append_assoc, Item.gatherFrom_open, h, List.singleton_append,
    Item.gatherFrom_close, List.append_nil, List.reverse_reverse]
  rfl

/-! ## Reading -/

/-- The text is read as items with the property, whatever follows it that ends a word. -/
def Reads (cs : List Char) (p : List Item → Prop) : Prop :=
  ∀ source column rest, EndsWord rest → ∃ raw column' settled items,
    Scans source column cs rest raw column' ∧ Token.Settles raw settled ∧
      Gathers settled items ∧ p items

namespace Reads

variable {cs cs' : List Char} {p p' : List Item → Prop}

theorem mono (h : Reads cs p) (hp : ∀ items, p items → p' items) : Reads cs p' := by
  intro source column rest hrest
  obtain ⟨raw, column', settled, items, hscans, hsettles, hgathers, hitems⟩ :=
    h source column rest hrest
  exact ⟨raw, column', settled, items, hscans, hsettles, hgathers, hp items hitems⟩

/-- A text that is a single token, which settles by itself. -/
theorem single {q : Token → Prop} (h : ∀ source column rest, EndsWord rest →
      ∃ raw column' t, Scans source column cs rest [raw] column' ∧ raw.settle = .ok t ∧
        t.cls ≠ .operator ∧ t.cls ≠ .paren ∧ q t) :
    Reads cs fun items ↦ ∃ t, items = [.token t] ∧ q t := by
  intro source column rest hrest
  obtain ⟨raw, column', t, hscans, hsettle, hoperator, hparen, ht⟩ := h source column rest hrest
  exact ⟨[raw], column', [t], [.token t], hscans, .single hsettle hoperator, .single hparen, t, rfl,
    ht⟩

theorem comma : Reads [','] fun items ↦
    ∃ t, items = [.token t] ∧ t.cls = .separator ∧ t.text = "," :=
  single fun _ _ _ _ ↦ ⟨_, _, _, .comma, rfl, by simp, by simp, rfl, rfl⟩

theorem blank (h : Reads cs p) : Reads (' ' :: cs) p := by
  intro source column rest hrest
  obtain ⟨raw, column', settled, items, hscans, hothers⟩ := h source (column + 1) rest hrest
  exact ⟨raw, column', settled, items, hscans.blank, hothers⟩

/-- One text right after another. -/
theorem append (h : Reads cs p) (h' : Reads cs' p') (hne : cs' ≠ []) (hends : EndsWord cs') :
    Reads (cs ++ cs') fun items ↦ ∃ js ks, items = js ++ ks ∧ p js ∧ p' ks := by
  intro source column rest hrest
  obtain ⟨raw, column', settled, items, hscans, hsettles, hgathers, hitems⟩ :=
    h source column (cs' ++ rest) (hends.append hne)
  obtain ⟨raw', column'', settled', items', hscans', hsettles', hgathers', hitems'⟩ :=
    h' source column' rest hrest
  exact ⟨raw ++ raw', column'', settled ++ settled', items ++ items', hscans.append hscans',
    hsettles.append hsettles', hgathers.append hgathers', items, items', rfl, hitems, hitems'⟩

/-- Two texts with an operator between them. -/
theorem operation (h : Reads cs p) (op : Operator) (h' : Reads cs' p') :
    Reads (cs ++ ' ' :: (op.text.toList ++ ' ' :: cs')) fun items ↦
      ∃ js column ks, items = js ++ .token (op.token column) :: ks ∧ p js ∧ p' ks := by
  intro source column rest hrest
  obtain ⟨raw, column₁, settled, items, hscans, hsettles, hgathers, hitems⟩ :=
    h source column (' ' :: (op.text.toList ++ ' ' :: cs') ++ rest) .blank
  obtain ⟨between, column₂, hop, hsettlesTo⟩ := op.exists_scans source (column₁ + 1) (cs' ++ rest)
  obtain ⟨raw', column₃, settled', items', hscans', hsettles', hgathers', hitems'⟩ :=
    h' source (column₂ + 1) rest hrest
  refine ⟨raw ++ (between ++ raw'), column₃, settled ++ op.token (column₁ + 1) :: settled',
    items ++ .token (op.token (column₁ + 1)) :: items', ?_, hsettles.operation hsettlesTo hsettles',
    ?_, items, _, items', rfl, hitems, hitems'⟩
  · exact hscans.append (hop.append hscans'.blank).blank
  · have hop : Gathers [op.token (column₁ + 1)] _ := .single (by simp [Operator.token])
    exact hgathers.append (hop.append hgathers')

/-- Brackets with nothing between them. -/
theorem empty (bracket : Bracket) :
    Reads (bracket.opening.toList ++ bracket.closing.toList) (· = [.group bracket []]) := by
  intro source column rest hrest
  have hscans := (Scans.opening bracket source column (bracket.closing.toList ++ rest)).append
    (.closing bracket source (column + 1) rest)
  have hsettles := (bracket.settles_opening column).append (bracket.settles_closing (column + 1))
  have hnothing : Gathers [] [] := fun _ _ _ _ ↦ rfl
  exact ⟨_, _, _, _, hscans, hsettles, hnothing.group bracket column (column + 1), rfl⟩

/-- A text between brackets. -/
theorem group (h : Reads cs p) (bracket : Bracket) :
    Reads (bracket.opening.toList ++ (cs ++ bracket.closing.toList)) fun items ↦
      ∃ inside, items = [.group bracket inside] ∧ p inside := by
  intro source column rest hrest
  obtain ⟨raw, column', settled, inside, hscans, hsettles, hgathers, hinside⟩ :=
    h source (column + 1) (bracket.closing.toList ++ rest) (.closing bracket rest)
  have hscans' := (Scans.opening bracket source column _).append
    (hscans.append (.closing bracket source column' rest))
  have hsettles' := (bracket.settles_opening column).append
    (hsettles.append (bracket.settles_closing column'))
  exact ⟨_, _, _, _, hscans', hsettles', hgathers.group bracket column column', inside, rfl,
    hinside⟩

end Reads

end LineBasic
