import LineBasic.Proofs.Token.Pieces

/-!
# Lines put together from tokens

What ends a token is not part of it: a letter may cut a number off, a double quote a name, and two
operators may stand side by side.  But no token needs what ended it.  With single spaces between
them, and with the quoted texts back in double quotes, the tokens of a line make up a line that is
scanned into the same tokens, only at other columns.

* `Token.written`, `rejoined` — tokens as source text.
* `Token.IsScannable` — the tokens that lines are scanned into.
* `scan_rejoined` — the result.
-/

set_option autoImplicit false
namespace LineBasic

/-- How a token is written: a quoted one between its double quotes, any other as it stands. -/
def Token.written (t : Token) : String :=
  if t.cls = .quoted then "\"" ++ t.text ++ "\"" else t.text

/-- The line of the tokens with single spaces between them. -/
def rejoined (tokens : List Token) : String :=
  " ".intercalate (tokens.map Token.written)

/-- A token that some line is scanned into.  Nothing is asked of what follows it in the line. -/
inductive Token.IsScannable : Token → Prop
  | mark {column : Nat} {c : Char} {cls : TokenClass} (hc : Mark c cls) :
      IsScannable ⟨String.singleton c, cls, column⟩
  | quoted {column : Nat} {body : List Char} (hbody : '"' ∉ body) :
      IsScannable ⟨String.ofList body, .quoted, column⟩
  | number {column : Nat} {text : List Char} (htext : NumberText text none) :
      IsScannable ⟨String.ofList text, .number, column⟩
  | literal {column : Nat} {text : List Char} (htext : IsLiteralText text) :
      IsScannable ⟨String.ofList text, .literal, column⟩

section
variable {column : Nat} {c : Char} {cls : TokenClass} {cs rest text : List Char} {t : Token}
  {tokens : List Token} {next next' : Option Char}

/-- Whatever a number is cut off by, it ends at a space, and at the end of a line, as well. -/
theorem NumberText.of_space (h : NumberText text next) (hnext : ∀ d ∈ next', d = ' ') :
    NumberText text next' := by
  cases h with
  | whole hc hdigits _ =>
    refine .whole hc hdigits fun d hd ↦ ?_
    rw [hnext d hd]
    exact ⟨rfl, rfl⟩
  | parted hc hdigits hs hne hsuffix _ =>
    refine .parted hc hdigits hs hne hsuffix fun d hd ↦ ?_
    rw [hnext d hd]
    rfl

theorem Pieces.isScannable (h : Pieces column cs tokens) : ∀ t ∈ tokens, t.IsScannable := by
  induction h with
  | nil => exact List.forall_mem_nil _
  | blank _ _ ih => exact ih
  | mark hc _ ih => exact List.forall_mem_cons.2 ⟨.mark hc, ih⟩
  | quoted hbody _ ih => exact List.forall_mem_cons.2 ⟨.quoted hbody, ih⟩
  | number htext _ ih => exact List.forall_mem_cons.2 ⟨.number (htext.of_space nofun), ih⟩
  | literal htext _ _ ih => exact List.forall_mem_cons.2 ⟨.literal htext, ih⟩

/-- Where a space follows, or nothing, a written token is scanned into that token. -/
theorem Token.IsScannable.pieces (h : t.IsScannable) (column : Nat)
    (hspace : ∀ d ∈ rest.head?, d = ' ')
    (hrest : Pieces (column + t.written.toList.length) rest tokens) :
    ∃ column', Pieces column (t.written.toList ++ rest) ({ t with column := column' } :: tokens) := by
  cases h with
  | mark hc =>
    rw [written, if_neg hc.ne_quoted, String.toList_singleton] at hrest ⊢
    exact ⟨column, .mark hc hrest⟩
  | @quoted start body hbody =>
    have hwritten : (written ⟨String.ofList body, .quoted, start⟩).toList =
        '"' :: (body ++ ['"']) := by
      simp [written, String.toList_append]
    have hlength : column + (written ⟨String.ofList body, .quoted, start⟩).toList.length =
        column + 1 + (body.length + 1) := by
      rw [hwritten, List.length_cons, List.length_append, List.length_singleton]
      omega
    rw [hlength] at hrest
    rw [hwritten, List.cons_append, List.append_assoc]
    exact ⟨column + 1, .quoted hbody hrest⟩
  | number htext =>
    have hcls : TokenClass.number ≠ .quoted := nofun
    rw [written, if_neg hcls, String.toList_ofList] at hrest ⊢
    exact ⟨column, .number (htext.of_space hspace) hrest⟩
  | literal htext =>
    have hcls : TokenClass.literal ≠ .quoted := nofun
    rw [written, if_neg hcls, String.toList_ofList] at hrest ⊢
    refine ⟨column, .literal htext (fun d hd ↦ ?_) hrest⟩
    rw [hspace d hd]
    rfl

theorem rejoined_cons_cons (t u : Token) (tokens : List Token) :
    (rejoined (t :: u :: tokens)).toList =
      t.written.toList ++ ' ' :: (rejoined (u :: tokens)).toList := by
  rw [rejoined, List.map_cons, List.map_cons, String.intercalate_cons_cons, String.toList_append,
    String.toList_append, List.append_assoc]
  rfl

/-- Scannable tokens are scanned again from the line that they make up. -/
theorem pieces_rejoined (h : ∀ t ∈ tokens, t.IsScannable) (column : Nat) :
    ∃ again, Pieces column (rejoined tokens).toList again ∧
      again.map (fun t ↦ (t.text, t.cls)) = tokens.map (fun t ↦ (t.text, t.cls)) := by
  induction tokens generalizing column with
  | nil => exact ⟨[], .nil, rfl⟩
  | cons t tokens ih =>
    obtain ⟨ht, htokens⟩ := List.forall_mem_cons.1 h
    cases tokens with
    | nil =>
      have hspace : ∀ d ∈ ([] : List Char).head?, d = ' ' := nofun
      obtain ⟨column', hpieces⟩ := ht.pieces column hspace .nil
      refine ⟨[{ t with column := column' }], ?_, rfl⟩
      rwa [List.append_nil] at hpieces
    | cons u tokens =>
      obtain ⟨again, hagain, hsame⟩ := ih htokens (column + t.written.toList.length + 1)
      have hspace : ∀ d ∈ (' ' :: (rejoined (u :: tokens)).toList).head?, d = ' ' :=
        fun d hd ↦ (Option.some.inj hd).symm
      obtain ⟨column', hpieces⟩ := ht.pieces column hspace (.blank rfl hagain)
      refine ⟨{ t with column := column' } :: again, ?_, by rw [List.map_cons, hsame]; rfl⟩
      rwa [rejoined_cons_cons]

end

/-! ## The result -/

/-- Scanning is stable: from the tokens of a line, with single spaces between them and the quoted
ones between double quotes, the same tokens are scanned again, by their texts and classes. -/
theorem scan_rejoined {number : Option Int} {line : String} {tokens : List Token}
    (h : scan number line = .ok tokens) (number' : Option Int) :
    ∃ again, scan number' (rejoined tokens) = .ok again ∧
      again.map (fun t ↦ (t.text, t.cls)) = tokens.map (fun t ↦ (t.text, t.cls)) := by
  obtain ⟨again, hpieces, hsame⟩ := pieces_rejoined (pieces_of_scanFrom h).isScannable 0
  exact ⟨again, hpieces.scanFrom _, hsame⟩

/-- Tokens that nothing stands between: an empty quoted text, and a number that a letter cuts
off. -/
theorem scan_rejoined_adjacent :
    scan none "A\"\"12.5E7X=\t\"x  y\"0x_G" = .ok [⟨"A", .literal, 0⟩, ⟨"", .quoted, 2⟩,
      ⟨"12.5E7", .number, 3⟩, ⟨"X", .literal, 9⟩, ⟨"=", .operator, 10⟩, ⟨"x  y", .quoted, 13⟩,
      ⟨"0x_", .number, 18⟩, ⟨"G", .literal, 21⟩] ∧
    ∃ again, scan none "A \"\" 12.5E7 X = \"x  y\" 0x_ G" = .ok again ∧
      again.map (fun t ↦ (t.text, t.cls)) = [("A", .literal), ("", .quoted), ("12.5E7", .number),
        ("X", .literal), ("=", .operator), ("x  y", .quoted), ("0x_", .number),
        ("G", .literal)] := by
  have hscan : scan none "A\"\"12.5E7X=\t\"x  y\"0x_G" = .ok [⟨"A", .literal, 0⟩,
      ⟨"", .quoted, 2⟩, ⟨"12.5E7", .number, 3⟩, ⟨"X", .literal, 9⟩, ⟨"=", .operator, 10⟩,
      ⟨"x  y", .quoted, 13⟩, ⟨"0x_", .number, 18⟩, ⟨"G", .literal, 21⟩] := by
    decide +kernel
  exact ⟨hscan, scan_rejoined hscan none⟩

end LineBasic
