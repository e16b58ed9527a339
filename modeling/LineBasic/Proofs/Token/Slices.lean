import LineBasic.Proofs.Token.Pieces
import Mathlib.Algebra.Group.Nat.Even

/-!
# Where the tokens of a line stand

The tokens of a line are slices of it, in order and without overlap.  What is outside of them is
blanks and the double quotes around quoted tokens: of the double quotes of a line, the first opens a
quoted text, the second closes it, the third opens one again, and so on.

* `OpensAt`, `ClosesAt` — which double quotes open a quoted text, and which close one.
* `Span`, `Spans` — a line as a sequence of pieces of three shapes.
* `Token.StandsIn`, `Accounts` — where a token stands, and what a character is there for.
* `scan_slices` — the result.
-/

set_option autoImplicit false
namespace LineBasic

/-! ## Double quotes -/

/-- The character at a position of a line is a double quote that opens a quoted text: those before
it come in pairs. -/
structure OpensAt (cs : List Char) (i : Nat) : Prop where
  quote : cs[i]? = some '"'
  even : Even ((cs.take i).count '"')

/-- The character at a position of a line is a double quote that closes a quoted text: one of those
before it is left open. -/
structure ClosesAt (cs : List Char) (i : Nat) : Prop where
  quote : cs[i]? = some '"'
  odd : Odd ((cs.take i).count '"')

section
variable {cs rest : List Char} {i : Nat}

theorem OpensAt.append (h : OpensAt cs i) : OpensAt (cs ++ rest) i := by
  have hi : i < cs.length := (List.getElem?_eq_some_iff.1 h.quote).1
  refine ⟨by rw [List.getElem?_append_left hi, h.quote], ?_⟩
  rw [List.take_append_of_le_length (Nat.le_of_lt hi)]
  exact h.even

theorem ClosesAt.append (h : ClosesAt cs i) : ClosesAt (cs ++ rest) i := by
  have hi : i < cs.length := (List.getElem?_eq_some_iff.1 h.quote).1
  refine ⟨by rw [List.getElem?_append_left hi, h.quote], ?_⟩
  rw [List.take_append_of_le_length (Nat.le_of_lt hi)]
  exact h.odd

theorem OpensAt.after (h : OpensAt rest i) (hcs : Even (cs.count '"')) :
    OpensAt (cs ++ rest) (cs.length + i) := by
  refine ⟨by rw [List.getElem?_append_right (Nat.le_add_right _ _), Nat.add_sub_cancel_left,
    h.quote], ?_⟩
  rw [List.take_length_add_append, List.count_append]
  exact hcs.add h.even

theorem ClosesAt.after (h : ClosesAt rest i) (hcs : Even (cs.count '"')) :
    ClosesAt (cs ++ rest) (cs.length + i) := by
  refine ⟨by rw [List.getElem?_append_right (Nat.le_add_right _ _), Nat.add_sub_cancel_left,
    h.quote], ?_⟩
  rw [List.take_length_add_append, List.count_append]
  exact hcs.add_odd h.odd

end

/-! ## Spans -/

/-- The characters of a piece, which starts at the column, with its token, if it has one: a blank, a
token as it stands, or a token between double quotes. -/
inductive Span : Nat → List Char → List Token → Prop
  | blank {column : Nat} {c : Char} (hc : isSpaceChar c = true) : Span column [c] []
  | bare {column : Nat} {text : List Char} {cls : TokenClass} (hcls : cls ≠ .quoted)
      (hne : text ≠ []) (htext : '"' ∉ text) :
      Span column text [⟨String.ofList text, cls, column⟩]
  | quoted {column : Nat} {body : List Char} (hbody : '"' ∉ body) :
      Span column ('"' :: (body ++ ['"'])) [⟨String.ofList body, .quoted, column + 1⟩]

/-- The characters of a sequence of pieces, with all their tokens. -/
inductive Spans : Nat → List Char → List Token → Prop
  | nil {column : Nat} : Spans column [] []
  | append {column : Nat} {cs rest : List Char} {tokens tokens' : List Token}
      (h : Span column cs tokens) (hrest : Spans (column + cs.length) rest tokens') :
      Spans column (cs ++ rest) (tokens ++ tokens')

section
variable {column : Nat} {cs rest text : List Char} {tokens : List Token} {cls : TokenClass}
  {c : Char} {next : Option Char}

theorem Mark.ne_quote (h : Mark c cls) : c ≠ '"' := by
  rintro rfl
  cases h with
  | bracket h | separator h | operator h => exact absurd h (by decide)

theorem NumberText.not_mem_quote (h : NumberText text next) : '"' ∉ text := by
  have hdigits {ds : List Char} (h : ∀ d ∈ ds, isNumberChar d = true) : '"' ∉ ds :=
    fun hmem ↦ absurd (h _ hmem) (by decide)
  have hdigit {d : Char} (h : d.isDigit = true) : '"' ≠ d := by
    rintro rfl
    exact absurd h (by decide)
  cases h with
  | whole hc hmore => simp [hdigit hc, hdigits hmore]
  | @parted c s digits suffix _ hc hmore hs _ hsuffix =>
    have hseparator : '"' ≠ s := by
      rintro rfl
      exact absurd hs (by decide)
    have hrest : '"' ∉ suffix := fun hmem ↦ absurd (hsuffix _ hmem) (by decide)
    simp [hdigit hc, hdigits hmore, hseparator, hrest]

theorem IsLiteralText.not_mem_quote (h : IsLiteralText text) : '"' ∉ text := by
  cases text with
  | nil => exact List.not_mem_nil
  | cons c text =>
    intro hmem
    exact absurd (List.any_eq_false.1 h.2 _ hmem) (by decide)

/-- Marks, numbers and literals are all tokens as they stand. -/
theorem Pieces.spans (h : Pieces column cs tokens) : Spans column cs tokens := by
  induction h with
  | nil => exact .nil
  | blank hc _ ih => exact .append (.blank hc) ih
  | mark hc _ ih =>
    exact .append (.bare hc.ne_quoted (List.cons_ne_nil _ []) (by simpa using hc.ne_quote.symm)) ih
  | @quoted column body rest tokens hbody _ ih =>
    have hlength : column + ('"' :: (body ++ ['"'])).length = column + 1 + (body.length + 1) := by
      simp only [List.length_cons, List.length_append, List.length_nil]
      omega
    rw [← hlength] at ih
    simpa using Spans.append (.quoted hbody) ih
  | number htext _ ih =>
    have hcls : TokenClass.number ≠ .quoted := nofun
    exact .append (.bare hcls htext.ne_nil htext.not_mem_quote) ih
  | literal htext _ _ ih =>
    have hcls : TokenClass.literal ≠ .quoted := nofun
    exact .append (.bare hcls htext.ne_nil htext.not_mem_quote) ih

theorem Span.even_count (h : Span column cs tokens) : Even (cs.count '"') := by
  cases h with
  | blank hc =>
    rw [List.count_eq_zero.2]
    · exact Even.zero
    · rintro hmem
      rw [← List.mem_singleton.1 hmem] at hc
      exact absurd hc (by decide)
  | bare _ _ htext =>
    rw [List.count_eq_zero.2 htext]
    exact Even.zero
  | quoted hbody =>
    rw [List.count_cons_self, List.count_append, List.count_eq_zero.2 hbody,
      List.count_singleton_self]
    exact even_two

end

/-! ## Where a token stands -/

/-- A token stands among characters that start at the column.  If it is quoted, it is between double
quotes, and those before these come in pairs; otherwise all before it come in pairs. -/
structure Token.StandsBetween (t : Token) (column : Nat) (before after : List Char) : Prop where
  column_eq : t.column = column + before.length
  plain : '"' ∉ t.text.toList
  bare : t.cls ≠ .quoted → Even (before.count '"')
  quoted : t.cls = .quoted →
    ∃ front back, before = front ++ ['"'] ∧ Even (front.count '"') ∧ after = '"' :: back

/-- A token is a slice of characters that start at the column. -/
def Token.StandsIn (t : Token) (column : Nat) (cs : List Char) : Prop :=
  ∃ before after, cs = before ++ (t.text.toList ++ after) ∧ t.StandsBetween column before after

section
variable {column : Nat} {cs rest : List Char} {tokens : List Token} {t : Token}

theorem Span.standsIn (h : Span column cs tokens) (ht : t ∈ tokens) : t.StandsIn column cs := by
  cases h with
  | blank => cases ht
  | bare hcls _ htext =>
    cases List.mem_singleton.1 ht
    refine ⟨[], [], by simp, rfl, ?_, fun _ ↦ Even.zero, fun hquoted ↦ absurd hquoted hcls⟩
    rwa [String.toList_ofList]
  | quoted hbody =>
    cases List.mem_singleton.1 ht
    refine ⟨['"'], ['"'], by simp, rfl, ?_, fun hbare ↦ absurd rfl hbare,
      fun _ ↦ ⟨[], [], rfl, Even.zero, rfl⟩⟩
    rwa [String.toList_ofList]

theorem Token.StandsIn.append (h : t.StandsIn column cs) : t.StandsIn column (cs ++ rest) := by
  obtain ⟨before, after, rfl, hbetween⟩ := h
  refine ⟨before, after ++ rest, by simp, hbetween.column_eq, hbetween.plain, hbetween.bare, ?_⟩
  intro hquoted
  obtain ⟨front, back, hfront, heven, rfl⟩ := hbetween.quoted hquoted
  exact ⟨front, back ++ rest, hfront, heven, rfl⟩

theorem Token.StandsIn.after (hcs : Even (cs.count '"'))
    (h : t.StandsIn (column + cs.length) rest) : t.StandsIn column (cs ++ rest) := by
  obtain ⟨before, after, rfl, hbetween⟩ := h
  refine ⟨cs ++ before, after, by simp, ?_, hbetween.plain, fun hbare ↦ ?_, fun hquoted ↦ ?_⟩
  · rw [hbetween.column_eq, List.length_append, Nat.add_assoc]
  · rw [List.count_append]
    exact hcs.add (hbetween.bare hbare)
  · obtain ⟨front, back, rfl, heven, hback⟩ := hbetween.quoted hquoted
    refine ⟨cs ++ front, back, (List.append_assoc ..).symm, ?_, hback⟩
    rw [List.count_append]
    exact hcs.add heven

theorem Spans.standsIn (h : Spans column cs tokens) (ht : t ∈ tokens) : t.StandsIn column cs := by
  induction h with
  | nil => cases ht
  | append hspan _ ih =>
    obtain ht | ht := List.mem_append.1 ht
    · exact (hspan.standsIn ht).append
    · exact .after hspan.even_count (ih ht)

end

/-! ## The order of tokens -/

/-- A token comes before another, and they have no character in common. -/
structure Token.Precedes (t u : Token) : Prop where
  lt : t.column < u.column
  le : t.column + t.text.length ≤ u.column

section
variable {column : Nat} {cs : List Char} {tokens : List Token} {t : Token}

theorem Span.column_lt (h : Span column cs tokens) (ht : t ∈ tokens) :
    t.column < column + cs.length := by
  cases h with
  | blank => cases ht
  | bare _ hne =>
    cases List.mem_singleton.1 ht
    have hlength := List.length_pos_iff.2 hne
    simp only
    omega
  | quoted =>
    cases List.mem_singleton.1 ht
    simp only [List.length_cons, List.length_append, List.length_nil]
    omega

theorem Token.StandsIn.bounds (h : t.StandsIn column cs) :
    column ≤ t.column ∧ t.column + t.text.length ≤ column + cs.length := by
  obtain ⟨before, after, rfl, hbetween⟩ := h
  rw [hbetween.column_eq, List.length_append, List.length_append, String.length_toList]
  omega

theorem Spans.pairwise (h : Spans column cs tokens) : tokens.Pairwise Token.Precedes := by
  induction h with
  | nil => exact .nil
  | append hspan hrest ih =>
    refine List.pairwise_append.2 ⟨?_, ih, fun t ht u hu ↦ ?_⟩
    · cases hspan with
      | blank => exact .nil
      | bare | quoted => exact List.pairwise_singleton _ _
    · have hlt := hspan.column_lt ht
      have hle := (hspan.standsIn ht).bounds.2
      have hstart := (hrest.standsIn hu).bounds.1
      exact ⟨by omega, by omega⟩

end

/-! ## What characters are there for -/

/-- A position is within the text of a token. -/
def Token.Covers (t : Token) (i : Nat) : Prop :=
  t.column ≤ i ∧ i < t.column + t.text.length

/-- What the character at a position is there for, in characters that start at the column. -/
inductive Accounts (tokens : List Token) (column : Nat) (cs : List Char) (i : Nat) : Prop
  | token {t : Token} (ht : t ∈ tokens) (hcovers : t.Covers (column + i))
  | blank {c : Char} (hc : cs[i]? = some c) (hblank : isSpaceChar c = true)
  | opens {t : Token} (ht : t ∈ tokens) (hquoted : t.cls = .quoted) (hopens : OpensAt cs i)
      (hcolumn : t.column = column + i + 1)
  | closes {t : Token} (ht : t ∈ tokens) (hquoted : t.cls = .quoted) (hcloses : ClosesAt cs i)
      (hcolumn : t.column + t.text.length = column + i)

section
variable {column i : Nat} {cs rest : List Char} {tokens tokens' : List Token}

theorem Span.accounts (h : Span column cs tokens) (hi : i < cs.length) :
    Accounts tokens column cs i := by
  cases h with
  | blank hc =>
    obtain rfl : i = 0 := by simpa using hi
    exact .blank rfl hc
  | bare =>
    refine .token (List.mem_singleton_self _) ⟨Nat.le_add_right _ _, ?_⟩
    rw [String.length_ofList]
    exact Nat.add_lt_add_left hi _
  | @quoted body hbody =>
    simp only [List.length_cons, List.length_append, List.length_nil] at hi
    -- The first character opens, the last one closes, and those between are the token's.
    obtain rfl | hpos := Nat.eq_zero_or_pos i
    · exact .opens (List.mem_singleton_self _) rfl ⟨rfl, Even.zero⟩ rfl
    obtain rfl | hlt : i = body.length + 1 ∨ i < body.length + 1 := by omega
    · refine .closes (List.mem_singleton_self _) rfl ⟨?_, ?_⟩ ?_
      · simp
      · rw [List.take_succ_cons, List.take_left, List.count_cons_self, List.count_eq_zero.2 hbody]
        exact odd_one
      · simp only [String.length_ofList]
        omega
    · refine .token (List.mem_singleton_self _) ⟨?_, ?_⟩
      · simp only
        omega
      · simp only [String.length_ofList]
        omega

theorem Accounts.append (h : Accounts tokens column cs i) :
    Accounts (tokens ++ tokens') column (cs ++ rest) i := by
  cases h with
  | token ht hcovers => exact .token (List.mem_append_left _ ht) hcovers
  | blank hc hblank =>
    refine .blank ?_ hblank
    rw [List.getElem?_append_left (List.getElem?_eq_some_iff.1 hc).1, hc]
  | opens ht hquoted hopens hcolumn =>
    exact .opens (List.mem_append_left _ ht) hquoted hopens.append hcolumn
  | closes ht hquoted hcloses hcolumn =>
    exact .closes (List.mem_append_left _ ht) hquoted hcloses.append hcolumn

theorem Accounts.after (hcs : Even (cs.count '"'))
    (h : Accounts tokens' (column + cs.length) rest i) :
    Accounts (tokens ++ tokens') column (cs ++ rest) (cs.length + i) := by
  cases h with
  | token ht hcovers =>
    refine .token (List.mem_append_right _ ht) ?_
    rwa [← Nat.add_assoc]
  | blank hc hblank =>
    refine .blank ?_ hblank
    rw [List.getElem?_append_right (Nat.le_add_right _ _), Nat.add_sub_cancel_left, hc]
  | opens ht hquoted hopens hcolumn =>
    refine .opens (List.mem_append_right _ ht) hquoted (hopens.after hcs) ?_
    rwa [← Nat.add_assoc]
  | closes ht hquoted hcloses hcolumn =>
    refine .closes (List.mem_append_right _ ht) hquoted (hcloses.after hcs) ?_
    rwa [← Nat.add_assoc]

theorem Spans.accounts (h : Spans column cs tokens) (hi : i < cs.length) :
    Accounts tokens column cs i := by
  induction h generalizing i with
  | nil => cases hi
  | @append column cs rest tokens tokens' hspan _ ih =>
    obtain hlt | ⟨j, rfl⟩ : i < cs.length ∨ ∃ j, i = cs.length + j := by
      obtain hlt | hle := Nat.lt_or_ge i cs.length
      · exact .inl hlt
      · exact .inr (Nat.exists_eq_add_of_le hle)
    · exact (hspan.accounts hlt).append
    · refine .after hspan.even_count (ih ?_)
      rw [List.length_append] at hi
      omega

end

/-! ## The result -/

/-- A token of a line whose text stands right between a double quote that opens a quoted text and
one that closes it. -/
def Token.IsEnclosed (t : Token) (line : List Char) : Prop :=
  ∃ i, t.column = i + 1 ∧ OpensAt line i ∧ ClosesAt line (t.column + t.text.length)

theorem Token.StandsIn.isEnclosed_iff {t : Token} {cs : List Char} (h : t.StandsIn 0 cs) :
    t.IsEnclosed cs ↔ t.cls = .quoted := by
  obtain ⟨before, after, rfl, hbetween⟩ := h
  have hcolumn : t.column = before.length := hbetween.column_eq.trans (Nat.zero_add _)
  constructor
  · rintro ⟨i, hi, hopens, -⟩
    by_contra hbare
    -- The double quote right before the token makes the number of those before it odd.
    obtain rfl | ⟨front, c, rfl⟩ := List.eq_nil_or_concat before
    · cases hcolumn.symm.trans hi
    rw [List.concat_eq_append] at hbetween hcolumn hopens
    have hlength : front.length = i := by simpa [hcolumn] using hi
    obtain ⟨hquote, heven⟩ := hopens
    rw [List.append_assoc, ← hlength] at hquote heven
    obtain rfl : c = '"' := by simpa using hquote
    rw [List.take_left] at heven
    have hall := hbetween.bare hbare
    rw [List.count_append, List.count_singleton_self, Nat.even_add_one] at hall
    exact hall heven
  · intro hquoted
    obtain ⟨front, back, rfl, heven, rfl⟩ := hbetween.quoted hquoted
    rw [List.length_append] at hcolumn
    refine ⟨front.length, hcolumn, ⟨by simp, by rwa [List.append_assoc, List.take_left]⟩, ?_⟩
    have hsplit : front ++ ['"'] ++ (t.text.toList ++ '"' :: back) =
        (front ++ ['"'] ++ t.text.toList) ++ '"' :: back := by simp
    have hlength : t.column + t.text.length = (front ++ ['"'] ++ t.text.toList).length := by
      rw [hcolumn, List.length_append, List.length_append, String.length_toList]
    rw [hsplit, hlength]
    refine ⟨by simp, ?_⟩
    rw [List.take_left, List.count_append, List.count_append, List.count_singleton_self,
      List.count_eq_zero.2 hbetween.plain]
    exact heven.add_one

/-- The tokens of a line come in the order of their columns and do not overlap; each of them is a
slice of the line; every character outside of these slices is a space, a tab, or a double quote that
opens or closes a quoted token; and the quoted tokens are those that stand between such a pair. -/
theorem scan_slices {number : Option Int} {line : String} {tokens : List Token}
    (h : scan number line = .ok tokens) :
    tokens.Pairwise (fun t u ↦ t.column < u.column ∧ t.column + t.text.length ≤ u.column) ∧
    (∀ t ∈ tokens, t.column + t.text.length ≤ line.length ∧
      (line.toList.drop t.column).take t.text.length = t.text.toList) ∧
    (∀ i c, line.toList[i]? = some c → (∀ t ∈ tokens, ¬ t.Covers i) →
      c = ' ' ∨ c = '\t' ∨ ∃ t ∈ tokens, t.cls = .quoted ∧
        (OpensAt line.toList i ∧ t.column = i + 1 ∨
          ClosesAt line.toList i ∧ t.column + t.text.length = i)) ∧
    ∀ t ∈ tokens, t.cls = .quoted ↔ t.IsEnclosed line.toList := by
  have hspans : Spans 0 line.toList tokens := (pieces_of_scanFrom h).spans
  refine ⟨hspans.pairwise.imp fun h ↦ ⟨h.lt, h.le⟩, fun t ht ↦ ?_, fun i c hc hfree ↦ ?_,
    fun t ht ↦ (hspans.standsIn ht).isEnclosed_iff.symm⟩
  · have hstands := hspans.standsIn ht
    refine ⟨by simpa [String.length_toList] using hstands.bounds.2, ?_⟩
    obtain ⟨before, after, heq, hbetween⟩ := hstands
    rw [heq, hbetween.column_eq, Nat.zero_add, List.drop_left, ← String.length_toList,
      List.take_left]
  · have haccounts := hspans.accounts (List.getElem?_eq_some_iff.1 hc).1
    cases haccounts with
    | token ht hcovers => exact absurd (Nat.zero_add i ▸ hcovers) (hfree _ ht)
    | blank hc' hblank =>
      cases hc.symm.trans hc'
      have hmem : c = ' ' ∨ c = '\t' := by simpa [isSpaceChar] using hblank
      exact hmem.imp_right .inl
    | opens ht hquoted hopens hcolumn =>
      exact .inr (.inr ⟨_, ht, hquoted, .inl ⟨hopens, by rwa [Nat.zero_add] at hcolumn⟩⟩)
    | closes ht hquoted hcloses hcolumn =>
      exact .inr (.inr ⟨_, ht, hquoted, .inr ⟨hcloses, by rwa [Nat.zero_add] at hcolumn⟩⟩)

/-- Quoted texts with a literal between them, which stands between two double quotes as well. -/
theorem scan_slices_adjacent :
    scan none "A\"B\"C\"\"" = .ok [⟨"A", .literal, 0⟩, ⟨"B", .quoted, 2⟩, ⟨"C", .literal, 4⟩,
      ⟨"", .quoted, 6⟩] ∧
    Token.IsEnclosed ⟨"B", .quoted, 2⟩ "A\"B\"C\"\"".toList ∧
    ¬ Token.IsEnclosed ⟨"C", .literal, 4⟩ "A\"B\"C\"\"".toList ∧
    Token.IsEnclosed ⟨"", .quoted, 6⟩ "A\"B\"C\"\"".toList := by
  have hscan : scan none "A\"B\"C\"\"" = .ok [⟨"A", .literal, 0⟩, ⟨"B", .quoted, 2⟩,
      ⟨"C", .literal, 4⟩, ⟨"", .quoted, 6⟩] := by
    decide +kernel
  obtain ⟨-, -, -, henclosed⟩ := scan_slices hscan
  refine ⟨hscan, (henclosed _ (by simp)).1 rfl, fun h ↦ ?_, (henclosed _ (by simp)).1 rfl⟩
  exact absurd ((henclosed ⟨"C", .literal, 4⟩ (by simp)).2 h) nofun

end LineBasic
