import LineBasic.Proofs.Results
import LineBasic.Proofs.Token.Reading

/-!
# The pieces of a source line

A text is scanned into tokens if and only if it is a sequence of pieces, each of which ends where
the text can no longer belong to it.  So what is to be shown of a scanned text can be shown piece by
piece, and a text that is put together of pieces is scanned into their tokens.

* `Mark`, `NumberText`, `IsLiteralText` — the texts of pieces.
* `Pieces` — texts with their tokens.
* `pieces_iff` — these are the tokens that the text is scanned into.
-/

set_option autoImplicit false
namespace LineBasic

/-- A character that is a token of its own, with the class of the token. -/
inductive Mark : Char → TokenClass → Prop
  | bracket {c : Char} (h : isBracketChar c = true) : Mark c .paren
  | separator {c : Char} (h : isSeparatorChar c = true) : Mark c .separator
  | operator {c : Char} (h : isOperatorChar c = true) : Mark c .operator

/-- The text is a sequence of pieces, which starts at the column and has the tokens. -/
inductive Pieces : Nat → List Char → List Token → Prop
  | nil {column : Nat} : Pieces column [] []
  | blank {column : Nat} {c : Char} {rest : List Char} {tokens : List Token}
      (hc : isSpaceChar c = true) (hrest : Pieces (column + 1) rest tokens) :
      Pieces column (c :: rest) tokens
  | mark {column : Nat} {c : Char} {cls : TokenClass} {rest : List Char} {tokens : List Token}
      (hc : Mark c cls) (hrest : Pieces (column + 1) rest tokens) :
      Pieces column (c :: rest) (⟨String.singleton c, cls, column⟩ :: tokens)
  | quoted {column : Nat} {body rest : List Char} {tokens : List Token} (hbody : '"' ∉ body)
      (hrest : Pieces (column + 1 + (body.length + 1)) rest tokens) :
      Pieces column ('"' :: (body ++ '"' :: rest))
        (⟨String.ofList body, .quoted, column + 1⟩ :: tokens)
  | number {column : Nat} {text rest : List Char} {tokens : List Token}
      (htext : NumberText text rest.head?) (hrest : Pieces (column + text.length) rest tokens) :
      Pieces column (text ++ rest) (⟨String.ofList text, .number, column⟩ :: tokens)
  | literal {column : Nat} {text rest : List Char} {tokens : List Token}
      (htext : IsLiteralText text) (hends : ∀ c ∈ rest.head?, endsLiteral c = true)
      (hrest : Pieces (column + text.length) rest tokens) :
      Pieces column (text ++ rest) (⟨String.ofList text, .literal, column⟩ :: tokens)

variable {source : Source} {column : Nat} {c : Char} {cs rest : List Char}
  {tokens tokens' : List Token}

/-! ## From pieces to tokens -/

theorem Scans.scanFrom_eq {column' : Nat} (h : Scans source column cs rest tokens column')
    (hrest : scanFrom source column' rest = .ok tokens') :
    scanFrom source column (cs ++ rest) = .ok (tokens ++ tokens') := by
  rw [h, hrest]
  rfl

theorem nextPiece_separator (hc : isSeparatorChar c = true) :
    nextPiece source c cs = .ok (Piece.whole .separator c []) := by
  have hmem : c = ',' ∨ c = ';' := by simpa [isSeparatorChar] using hc
  rcases hmem with rfl | rfl <;> rfl

theorem nextPiece_space (hc : isSpaceChar c = true) :
    nextPiece source c cs = .ok ⟨none, 0, 0⟩ := by
  have hmem : c = ' ' ∨ c = '\t' := by simpa [isSpaceChar] using hc
  rcases hmem with rfl | rfl <;> rfl

theorem Mark.nextPiece {cls : TokenClass} (hc : Mark c cls) :
    nextPiece source c cs = .ok (Piece.whole cls c []) := by
  cases hc with
  | bracket h => exact nextPiece_bracket h
  | separator h => exact nextPiece_separator h
  | operator h => exact nextPiece_operator h

theorem Mark.ne_quoted {cls : TokenClass} (hc : Mark c cls) : cls ≠ .quoted := by
  cases hc <;> nofun

theorem Pieces.scanFrom (h : Pieces column cs tokens) (source : Source) :
    scanFrom source column cs = .ok tokens := by
  induction h with
  | nil => rw [LineBasic.scanFrom]
  | @blank column c rest tokens hc _ ih =>
    have hscans : Scans source column [c] rest [] _ := .piece (nextPiece_space hc) rfl
    exact hscans.scanFrom_eq ih
  | @mark column c cls rest tokens hc _ ih =>
    have hscans : Scans source column [c] rest [⟨String.singleton c, cls, column⟩] _ :=
      .piece hc.nextPiece rfl
    exact hscans.scanFrom_eq ih
  | @quoted column body rest tokens hbody _ ih =>
    have hscans : Scans source column ('"' :: body ++ ['"']) rest _ _ := .quoted hbody
    simpa using hscans.scanFrom_eq ih
  | @number column text rest tokens htext _ ih =>
    cases text with
    | nil => cases htext
    | cons c more =>
      rw [List.length_cons, Nat.add_comm more.length, ← Nat.add_assoc] at ih
      have hscans : Scans source column (c :: more) rest _ _ := .piece (nextPiece_number htext) rfl
      exact hscans.scanFrom_eq ih
  | @literal column text rest tokens htext hends _ ih =>
    cases text with
    | nil => exact htext.elim
    | cons c more =>
      rw [List.length_cons, Nat.add_comm more.length, ← Nat.add_assoc] at ih
      have hscans : Scans source column (c :: more) rest _ _ :=
        .piece (nextPiece_literal htext hends) rfl
      exact hscans.scanFrom_eq ih

/-! ## From tokens to pieces -/

/-- A text starts with a run of characters that goes on for as long as it can. -/
theorem exists_run (p : Char → Bool) (cs : List Char) : ∃ run rest, cs = run ++ rest ∧
    (∀ c ∈ run, p c = true) ∧ ∀ c ∈ rest.head?, p c = false := by
  refine ⟨cs.takeWhile p, cs.dropWhile p, List.takeWhile_append_dropWhile.symm,
    fun c hc ↦ List.mem_takeWhile_imp hc, fun c hc ↦ ?_⟩
  have hstop := List.head?_dropWhile_not p cs
  rw [Option.mem_def.1 hc] at hstop
  exact hstop

theorem pieces_number {more : List Char} (htext : NumberText (c :: more) rest.head?)
    (hrest : Pieces (column + 1 + more.length) rest tokens) :
    Pieces column (c :: (more ++ rest))
      (⟨String.ofList (c :: more), .number, column⟩ :: tokens) := by
  rw [Nat.add_assoc, Nat.add_comm 1] at hrest
  exact .number htext hrest

theorem pieces_of_numberPiece {piece : Piece} (hc : c.isDigit = true)
    (hpiece : numberPiece source c cs = .ok piece)
    (hrest : Pieces (column + 1 + piece.more) (cs.drop piece.more) tokens) :
    Pieces column (c :: cs) (piece.tokens column ++ tokens) := by
  obtain ⟨digits, rest, rfl, hdigits, hstop⟩ := exists_run isNumberChar cs
  rw [numberPiece, takeWhile_append_of_stop hdigits hstop,
    dropWhile_append_of_stop hdigits hstop] at hpiece
  have hwhole : (∀ d ∈ rest.head?, isNumericSeparator d = false) →
      piece = Piece.whole .number c digits →
      Pieces column (c :: (digits ++ rest)) (piece.tokens column ++ tokens) := by
    rintro hseparator rfl
    have hrest : Pieces _ ((digits ++ rest).drop digits.length) tokens := hrest
    rw [List.drop_left] at hrest
    exact pieces_number (.whole hc hdigits fun d hd ↦ ⟨hstop d hd, hseparator d hd⟩) hrest
  split at hpiece
  · exact hwhole nofun (Except.ok.inj hpiece).symm
  · rename_i s suffix
    split at hpiece
    · rename_i hs
      obtain ⟨run, rest, rfl, hrun, hends⟩ := exists_run isSuffixChar suffix
      rw [takeWhile_append_of_stop hrun hends] at hpiece
      split at hpiece
      · cases hpiece
      · rename_i d _ heq
        split at hpiece
        · rename_i hd
          cases hpiece
          have hne : run ≠ [] := by
            rintro rfl
            rw [List.nil_append] at heq
            rw [heq] at hends
            rw [hends d rfl] at hd
            cases hd
          have hsplit : digits ++ s :: (run ++ rest) = (digits ++ s :: run) ++ rest := by simp
          rw [hsplit] at hrest ⊢
          have hrest : Pieces _ (((digits ++ s :: run) ++ rest).drop (digits ++ s :: run).length)
            tokens := hrest
          rw [List.drop_left] at hrest
          exact pieces_number (.parted hc hdigits hs hne hrun hends) hrest
        · cases hpiece
    · rename_i hs
      exact hwhole (fun d hd ↦ Option.some.inj hd ▸ Bool.eq_false_iff.2 hs)
        (Except.ok.inj hpiece).symm

theorem pieces_of_nextPiece {piece : Piece} (hpiece : nextPiece source c cs = .ok piece)
    (hrest : Pieces (column + 1 + piece.more) (cs.drop piece.more) tokens) :
    Pieces column (c :: cs) (piece.tokens column ++ tokens) := by
  rw [nextPiece] at hpiece
  split at hpiece
  · rename_i hquote
    obtain ⟨body, rest, rfl, hbody, hstop⟩ := exists_run (· != '"') cs
    obtain rfl := beq_iff_eq.1 hquote
    simp only [takeWhile_append_of_stop hbody hstop] at hpiece
    split at hpiece
    · rename_i hlength
      cases hpiece
      cases rest with
      | nil => simp at hlength
      | cons d rest =>
        obtain rfl : d = '"' := by simpa using hstop d rfl
        have hrest : Pieces _ ((body ++ '"' :: rest).drop (body.length + 1)) tokens := hrest
        rw [← List.singleton_append, ← List.append_assoc, List.drop_append_of_le_length (by simp),
          List.drop_of_length_le (by simp), List.nil_append] at hrest
        exact .quoted (fun hmem ↦ by simpa using hbody _ hmem) hrest
    · cases hpiece
  rename_i hquote
  split at hpiece
  · cases hpiece
    exact .blank ‹_› hrest
  rename_i hspace
  split at hpiece
  · cases hpiece
    exact .mark (.bracket ‹_›) hrest
  rename_i hbracket
  split at hpiece
  · cases hpiece
    exact .mark (.separator ‹_›) hrest
  rename_i hseparator
  split at hpiece
  · cases hpiece
    exact .mark (.operator ‹_›) hrest
  rename_i hoperator
  split at hpiece
  · exact pieces_of_numberPiece ‹_› hpiece hrest
  · rename_i hdigit
    obtain ⟨more, rest, rfl, hmore, hstop⟩ := exists_run (!endsLiteral ·) cs
    rw [takeWhile_append_of_stop hmore hstop] at hpiece
    cases hpiece
    have hc : endsLiteral c = false := by
      simp [endsLiteral, hquote, hspace, hbracket, hseparator, hoperator]
    have htext : IsLiteralText (c :: more) :=
      ⟨Bool.eq_false_iff.2 hdigit, by simpa [hc] using hmore⟩
    have hrest : Pieces (column + 1 + more.length) ((more ++ rest).drop more.length) tokens := hrest
    rw [List.drop_left, Nat.add_assoc, Nat.add_comm 1] at hrest
    exact .literal htext (fun d hd ↦ by simpa using hstop d hd) hrest

theorem pieces_of_scanFrom (h : scanFrom source column cs = .ok tokens) :
    Pieces column cs tokens := by
  fun_induction LineBasic.scanFrom source column cs generalizing tokens with
  | case1 column =>
    cases h
    exact .nil
  | case2 column c cs ih =>
    obtain ⟨piece, hpiece, h⟩ := bind_eq_ok.1 h
    obtain ⟨more, hmore, h⟩ := bind_eq_ok.1 h
    cases h
    exact pieces_of_nextPiece hpiece (ih piece hmore)

theorem pieces_iff : Pieces column cs tokens ↔ scanFrom source column cs = .ok tokens :=
  ⟨fun h ↦ h.scanFrom source, pieces_of_scanFrom⟩

end LineBasic
