import LineBasic.Proofs.Token.Targets

/-!
# Renumbering and the tokens of lines

Targets are found in the text of a line, while a run goes by its tokens.  In a plain line the two
agree: behind a word that targets come after, the numbers of the list are renumbered, and all other
tokens stay as they are.  Text in quotes and remarks are searched like other text.  A target that is
no line's number is left as it is, so that it can be the new number of a line.

* `Program.Renumbering.Carries` — what becomes of a text has the tokens that become of its tokens;
  there is one lemma for each kind of piece.
* `Pieces.carries` — so it is for all texts.
* `Program.renumber_retargets` — what renumbering a program does to the tokens of its lines.
* `Program.not_forall_renumber` — quoted text may change, and a target may come to name a line.
-/

set_option autoImplicit false
namespace LineBasic

open Program (Awaited Renumbering)

/-! ## The characters of pieces -/

/-- The characters that end a literal. -/
def enders : List Char :=
  ['"', ' ', '\t', '(', ')', '[', ']', '\x7b', '\x7d', ',', ';', '!', '~', '#', '<', '=', '>', '*',
    '+', '-', '/', '^', ':', '$', '.', '@', '\\', '%', '|', '`']

theorem mem_enders {c : Char} (h : endsLiteral c = true) : c ∈ enders := by
  simp only [endsLiteral, isSpaceChar, isBracketChar, isSeparatorChar, isOperatorChar,
    Bool.or_eq_true, beq_iff_eq, List.contains_iff_mem] at h
  simp only [enders, List.mem_cons, List.not_mem_nil, or_false]
  simp at h
  grind

/-- A character that ends a literal belongs to no word and is no digit. -/
theorem of_endsLiteral {c : Char} (h : endsLiteral c = true) :
    Text.isWord c = false ∧ Text.isDecimalDigit c = false := by
  have hall : (enders.all fun d ↦ decide (d.toNat < 170) && !(d.isAlphanum || d == '_') &&
      !Text.isDecimalDigit d) = true := by decide +kernel
  have hc := List.all_eq_true.1 hall c (mem_enders h)
  simp only [Bool.and_eq_true, decide_eq_true_eq, Bool.not_eq_true'] at hc
  obtain ⟨⟨hlow, hascii⟩, hdigit⟩ := hc
  have hwide : Text.inRanges Text.wordRanges c = false := by
    rw [Bool.eq_false_iff, Ne, Text.inRanges_eq_true_iff]
    rintro ⟨r, hr, hle, -⟩
    have := Program.of_mem_wordRanges r hr
    omega
  exact ⟨by rw [Text.isWord, hascii, hwide]; rfl, hdigit⟩

/-- The characters of numbers. -/
def numerics : List Char :=
  ['0', '1', '2', '3', '4', '5', '6', '7', '8', '9', '_', '.', 'X', 'x', 'A', 'B', 'C', 'D', 'E',
    'F', 'a', 'b', 'c', 'd', 'e', 'f']

theorem mem_numerics_of_isNumberChar {c : Char} (h : isNumberChar c = true) : c ∈ numerics := by
  obtain hdigit | hunderscore := Bool.or_eq_true_iff.1 h
  · obtain ⟨hlow, hhigh⟩ := Text.toNat_of_isDigit hdigit
    rw [← Char.ofNat_toNat c]
    interval_cases c.toNat <;> decide
  · rw [beq_iff_eq.1 hunderscore]
    decide

theorem mem_numerics_of_isSuffixChar {c : Char} (h : isSuffixChar c = true) : c ∈ numerics := by
  obtain hnumber | hletter := Bool.or_eq_true_iff.1 h
  · exact mem_numerics_of_isNumberChar hnumber
  · have hsub : "ABCDEFabcdef".toList ⊆ numerics := by decide
    exact hsub (List.contains_iff_mem.1 hletter)

theorem mem_numerics_of_isNumericSeparator {c : Char} (h : isNumericSeparator c = true) :
    c ∈ numerics := by
  have hsub : ".BXbx".toList ⊆ numerics := by decide
  exact hsub (List.contains_iff_mem.1 h)

theorem NumberText.mem_numerics {text : List Char} {next : Option Char} (h : NumberText text next) :
    ∀ c ∈ text, c ∈ numerics := by
  have hdigit : ∀ {c : Char}, c.isDigit = true → c ∈ numerics := fun hc ↦
    mem_numerics_of_isNumberChar (Bool.or_eq_true_iff.2 (.inl hc))
  cases h with
  | whole hc hdigits _ =>
    exact List.forall_mem_cons.2 ⟨hdigit hc, fun d hd ↦ mem_numerics_of_isNumberChar (hdigits d hd)⟩
  | parted hc hdigits hs _ hsuffix _ =>
    refine List.forall_mem_cons.2 ⟨hdigit hc, List.forall_mem_append.2 ⟨fun d hd ↦
      mem_numerics_of_isNumberChar (hdigits d hd), List.forall_mem_cons.2
        ⟨mem_numerics_of_isNumericSeparator hs, fun d hd ↦
          mem_numerics_of_isSuffixChar (hsuffix d hd)⟩⟩⟩

theorem of_mem_numerics {c : Char} (h : c ∈ numerics) :
    Text.isBlank c = false ∧ Program.foldLetter c ≠ 'O' ∧ c ≠ ',' := by
  have hall : (numerics.all fun d ↦
      !Text.isBlank d && (Program.foldLetter d != 'O' && d != ',')) = true := by
    decide +kernel
  simpa using List.all_eq_true.1 hall c h

theorem NumberText.isDigit_head {text : List Char} {next : Option Char} (h : NumberText text next) :
    text.head?.any Char.isDigit = true := by
  cases h with
  | whole hc _ _ => exact hc
  | parted hc _ _ _ _ _ => exact hc

theorem NumberText.isDigit_next {text : List Char} {next : Option Char} (h : NumberText text next) :
    ∀ c ∈ next, c.isDigit = false := by
  intro c hc
  cases h with
  | whole _ _ hnext => exact (Bool.or_eq_false_iff.1 (hnext c hc).1).1
  | parted _ _ _ _ _ hnext =>
    exact (Bool.or_eq_false_iff.1 (Bool.or_eq_false_iff.1 (hnext c hc)).1).1

/-- Digits in place of digits: what comes after these ends those, too. -/
theorem NumberText.of_digits {text new : List Char} {next : Option Char} (h : NumberText text next)
    (htext : ∀ c ∈ text, c.isDigit = true) (hne : new ≠ []) (hnew : ∀ c ∈ new, c.isDigit = true) :
    NumberText new next := by
  cases new with
  | nil => exact absurd rfl hne
  | cons c new =>
    obtain ⟨hc, hnew⟩ := List.forall_mem_cons.1 hnew
    cases h with
    | whole _ _ hnext => exact .whole hc (fun d hd ↦ by simp [isNumberChar, hnew d hd]) hnext
    | parted _ _ hs _ _ _ =>
      have hdigit :=
        htext _ (List.mem_cons_of_mem _ (List.mem_append_right _ (List.mem_cons_self ..)))
      have hother := (Bool.or_eq_false_iff.1 (not_isNumberChar_of_isNumericSeparator hs)).1
      rw [hdigit] at hother
      cases hother

theorem IsLiteralText.ne_comma {text : List Char} (h : IsLiteralText text) :
    ∀ c ∈ text.head?, c ≠ ',' := by
  cases text with
  | nil => exact h.elim
  | cons c text =>
    rintro d hd rfl
    obtain rfl := Option.some.inj hd
    cases h.2

section

variable {m : Renumbering} {awaited : Awaited} {inWord : Bool} {c : Char} {cls : TokenClass}
  {column : Nat} {cs cs' text rest : List Char} {tokens : List Token}

theorem Mark.endsLiteral (hc : Mark c cls) : endsLiteral c = true := by
  cases hc with
  | bracket h => simp [LineBasic.endsLiteral, h]
  | separator h => simp [LineBasic.endsLiteral, h]
  | operator h => simp [LineBasic.endsLiteral, h]

theorem Mark.isBlank (hc : Mark c cls) : Text.isBlank c = false := by
  have hall : (enders.all fun d ↦ !Text.isBlank d || isSpaceChar d) = true := by decide +kernel
  have hspace := List.all_eq_true.1 hall c (mem_enders hc.endsLiteral)
  refine Bool.eq_false_iff.2 fun hblank ↦ ?_
  rw [hblank, Bool.not_true, Bool.false_or, isSpaceChar, Bool.or_eq_true, beq_iff_eq,
    beq_iff_eq] at hspace
  obtain rfl | rfl := hspace <;> cases hc <;> cases ‹_ = true›

theorem Mark.cls_ne (hc : Mark c cls) : cls ≠ .literal ∧ cls ≠ .number := by
  cases hc <;> simp

theorem isBlank_of_isSpaceChar (hc : isSpaceChar c = true) : Text.isBlank c = true := by
  rw [isSpaceChar, Bool.or_eq_true, beq_iff_eq, beq_iff_eq] at hc
  obtain rfl | rfl := hc <;> rfl

/-! ## The steps of rewriting, piece by piece -/

theorem Program.jump?_eq_none_of_ends (h : ∀ c ∈ cs.head?, endsLiteral c = true) :
    jump? cs = none := by
  cases cs with
  | nil => rfl
  | cons c cs => exact jump?_cons_eq_none (isJumpLetter_of_endsLiteral (h c rfl))

namespace Program.Renumbering

/-- A character that is a token of its own is passed over. -/
theorem resume_mark (hc : Mark c cls) (column : Nat) :
    m.resume awaited inWord (c :: cs) = do
      return c :: (← m.resume (awaited.next ⟨String.singleton c, cls, column⟩) false cs) := by
  have hjump : Token.isJump ⟨String.singleton c, cls, column⟩ = false :=
    Token.isJump_of_ne hc.cls_ne.1
  have htarget : awaited.isTarget ⟨String.singleton c, cls, column⟩ = false :=
    Awaited.isTarget_of_ne hc.cls_ne.2
  by_cases hcomma : awaited = .comma ∧ c = ','
  · obtain ⟨rfl, rfl⟩ := hcomma
    cases hc with
    | bracket h => cases h
    | operator h => cases h
    | separator h =>
      have hnext : Awaited.next .comma ⟨String.singleton ',', .separator, column⟩ = .target := by
        rw [Awaited.next, hjump, htarget]
        rfl
      rw [resume_comma, hnext]
  · obtain ⟨hword, hdigit⟩ := of_endsLiteral hc.endsLiteral
    have hnext : awaited.next ⟨String.singleton c, cls, column⟩ = .nothing := by
      have hother : ¬ (awaited = .comma ∧ cls = .separator ∧ String.singleton c = ",") := by
        rintro ⟨hcomma', -, htext⟩
        exact hcomma ⟨hcomma', by simpa using congrArg String.toList htext⟩
      rw [Awaited.next, hjump, htarget]
      simpa [and_assoc] using hother
    rw [resume_other hc.isBlank (fun _ ↦ hdigit) (fun h heq ↦ hcomma ⟨h, heq⟩), hnext,
      rewrite_cons (.inr (jump?_cons_eq_none (isJumpLetter_of_endsLiteral hc.endsLiteral))), hword]
    rfl

end Program.Renumbering

/-- Where no digit comes next, a literal comes next, or what ends one. -/
theorem Pieces.literal_or_ends (h : Pieces column cs tokens)
    (hcs : ∀ c ∈ cs.head?, c.isDigit = false) : (∀ c ∈ cs.head?, endsLiteral c = true) ∨
      ∃ text rest tokens', cs = text ++ rest ∧
        tokens = ⟨String.ofList text, .literal, column⟩ :: tokens' ∧ IsLiteralText text ∧
          ∀ c ∈ rest.head?, endsLiteral c = true := by
  cases h with
  | nil => exact .inl nofun
  | blank hc _ => exact .inl fun d hd ↦ Option.some.inj hd ▸ by simp [endsLiteral, hc]
  | mark hc _ => exact .inl fun d hd ↦ Option.some.inj hd ▸ hc.endsLiteral
  | quoted _ _ => exact .inl fun d hd ↦ Option.some.inj hd ▸ rfl
  | number htext _ =>
    obtain ⟨c, hc, hdigit⟩ := (Option.any_eq_true _ _).1 htext.isDigit_head
    rw [hcs c (by rw [List.head?_append, Option.mem_def.1 hc]; rfl)] at hdigit
    cases hdigit
  | literal htext hends _ => exact .inr ⟨_, _, _, rfl, rfl, htext, hends⟩

theorem Pieces.isDigit_head (h : Pieces column cs tokens) :
    ∀ t ∈ tokens, t.cls = .number → t.text.toList.head?.any Char.isDigit = true := by
  induction h with
  | nil => exact nofun
  | blank _ _ ih => exact ih
  | mark hc _ ih => exact List.forall_mem_cons.2 ⟨fun h ↦ absurd h hc.cls_ne.2, ih⟩
  | quoted _ _ ih => exact List.forall_mem_cons.2 ⟨nofun, ih⟩
  | number htext _ ih =>
    refine List.forall_mem_cons.2 ⟨fun _ ↦ ?_, ih⟩
    rw [String.toList_ofList]
    exact htext.isDigit_head
  | literal _ _ _ ih => exact List.forall_mem_cons.2 ⟨nofun, ih⟩

/-- No jump starts in a number of a plain line. -/
theorem hasReference_number (htext : NumberText text rest.head?)
    (hrest : Pieces (column + text.length) rest tokens)
    (hplain : IsPlain awaited (⟨String.ofList text, .number, column⟩ :: tokens)) :
    Program.hasReference inWord text rest = false := by
  have hplace := htext.isDigit_next
  have hblank : ∀ c ∈ text, Text.isBlank c = false := fun c hc ↦
    (of_mem_numerics (htext.mem_numerics c hc)).1
  refine Bool.eq_false_iff.2 fun hreference ↦ ?_
  obtain hends | ⟨name, rest', tokens', rfl, rfl, hname, hends⟩ := hrest.literal_or_ends hplace
  · obtain ⟨before, word, rfl, hword⟩ := Program.exists_of_endsInJumpWord
      (Program.endsInJumpWord_of_hasReference hblank hends hreference)
    obtain ⟨c, hc, ho⟩ := List.mem_map.1 hword.mem_o
    exact (of_mem_numerics (htext.mem_numerics c (List.mem_append_right _ hc))).2.1 ho
  · obtain ⟨hnameBlank, -, -⟩ := Token.isPlainName_iff.1 (hplain.tail.isPlainName rfl)
    rw [String.toList_ofList] at hnameBlank
    have hword := Program.endsInJumpWord_of_hasReference
      (List.forall_mem_append.2 ⟨hblank, hnameBlank⟩) hends (Program.hasReference_append hreference)
    have hnone := (hplain.of_adjacent rfl rfl (by simp)).2
    rw [String.toList_ofList, String.toList_ofList, Program.endsInJumpWord_false hword] at hnone
    cases hnone

/-- If a word runs into the place, no jump word stands there. -/
def StartsApart (inWord : Bool) (column : Nat) (tokens : List Token) : Prop :=
  inWord = true → ∀ t ∈ tokens.head?, t.cls = .literal → t.column = column → t.isJump = false

theorem StartsApart.of_false : StartsApart false column tokens :=
  fun h ↦ absurd h Bool.false_ne_true

theorem IsPlain.startsApart {number : List Char}
    (h : IsPlain awaited (⟨String.ofList number, .number, column⟩ :: tokens)) :
    StartsApart inWord (column + number.length) tokens := by
  intro _ t ht hcls hcolumn
  cases tokens with
  | nil => cases ht
  | cons u tokens =>
    obtain rfl := Option.some.inj ht
    exact (h.of_adjacent rfl hcls (by simpa using hcolumn)).1

/-- What becomes of a text in whatever place it stands has the tokens that become of the tokens, if
the line is plain. -/
def Program.Renumbering.Carries (m : Renumbering) (column : Nat) (cs : List Char)
    (tokens : List Token) : Prop :=
  ∀ ⦃awaited inWord cs'⦄ (column' : Nat), IsPlain awaited tokens →
    StartsApart inWord column tokens → m.resume awaited inWord cs = .ok cs' →
      ∃ tokens', Pieces column' cs' tokens' ∧ m.Retargets awaited tokens tokens'

namespace Program.Renumbering

theorem carries_nil : m.Carries column [] [] := by
  intro awaited inWord cs' column' _ _ hcs'
  rw [resume_nil] at hcs'
  cases hcs'
  exact ⟨[], .nil, .nil⟩

theorem Carries.blank (h : m.Carries (column + 1) rest tokens) (hc : isSpaceChar c = true) :
    m.Carries column (c :: rest) tokens := by
  intro awaited inWord cs' column' hplain _ hcs'
  rw [resume_blank (isBlank_of_isSpaceChar hc)] at hcs'
  obtain ⟨rest', hrest', hcs'⟩ := bind_eq_ok.1 hcs'
  cases hcs'
  obtain ⟨tokens', hpieces, hretargets⟩ := h (column' + 1) hplain .of_false hrest'
  exact ⟨tokens', .blank hc hpieces, hretargets⟩

theorem Carries.mark (h : m.Carries (column + 1) rest tokens) (hc : Mark c cls) :
    m.Carries column (c :: rest) (⟨String.singleton c, cls, column⟩ :: tokens) := by
  intro awaited inWord cs' column' hplain _ hcs'
  rw [resume_mark hc column] at hcs'
  obtain ⟨rest', hrest', hcs'⟩ := bind_eq_ok.1 hcs'
  cases hcs'
  obtain ⟨tokens', hpieces, hretargets⟩ := h (column' + 1) hplain.tail .of_false hrest'
  exact ⟨_, .mark hc hpieces, .cons (.of_ne rfl hc.cls_ne.2 rfl) hretargets⟩

theorem text_ofList (h : m.rewrite false cs = .ok cs') :
    m.text (String.ofList cs) = .ok (String.ofList cs') := by
  rw [text, String.length_ofList, String.toList_ofList]
  have h : m.within cs.length false cs = .ok cs' := h
  rw [h]
  rfl

theorem Carries.quoted {body : List Char}
    (h : m.Carries (column + 1 + (body.length + 1)) rest tokens) (hbody : '"' ∉ body) :
    m.Carries column ('"' :: (body ++ '"' :: rest))
      (⟨String.ofList body, .quoted, column + 1⟩ :: tokens) := by
  intro awaited inWord cs' column' hplain _ hcs'
  have hquote : Text.isWord '"' = false := by decide +kernel
  rw [resume_other rfl (fun _ ↦ rfl) (fun _ ↦ by decide),
    rewrite_cons (.inr (jump?_cons_eq_none rfl)), hquote] at hcs'
  obtain ⟨after, hafter, hcs'⟩ := bind_eq_ok.1 hcs'
  cases hcs'
  obtain ⟨body', rest', rfl, hbody', hrest', hrewrite, hsame⟩ :=
    exists_of_rewrite_quoted hbody hafter
  have hnext : awaited.next ⟨String.ofList body, .quoted, column + 1⟩ = .nothing :=
    Awaited.next_eq_nothing (Token.isJump_of_ne (by simp)) (Awaited.isTarget_of_ne (by simp))
      (by simp)
  have hplain := hplain.tail
  rw [hnext] at hplain
  obtain ⟨tokens', hpieces, hretargets⟩ :=
    h (column' + 1 + (body'.length + 1)) hplain .of_false hrest'
  refine ⟨_, .quoted hbody' hpieces, .cons ⟨rfl, fun htarget ↦ ?_, fun _ ↦ ?_⟩ (hnext ▸ hretargets)⟩
  · rw [Awaited.isTarget_of_ne (by simp)] at htarget
    cases htarget
  · rw [String.toList_ofList]
    cases hreference : hasReference false body [] with
    | true => exact .inr ⟨rfl, rfl, text_ofList hrewrite⟩
    | false => exact .inl (congrArg String.ofList (hsame hreference))

theorem Carries.target (h : m.Carries (column + text.length) rest tokens)
    (htext : NumberText text rest.head?) (hrest : Pieces (column + text.length) rest tokens)
    (hplain : IsPlain .target (⟨String.ofList text, .number, column⟩ :: tokens))
    (hcs' : m.resume .target inWord (text ++ rest) = .ok cs') (column' : Nat) :
    ∃ tokens', Pieces column' cs' tokens' ∧
      m.Retargets .target (⟨String.ofList text, .number, column⟩ :: tokens) tokens' := by
  have hdigits : ∀ c ∈ text, c.isDigit = true := by
    have hwhole := (Bool.and_eq_true_iff.1 hplain.targets).1
    rw [String.toList_ofList] at hwhole
    exact List.all_eq_true.1 hwhole
  have hstop : ∀ c ∈ rest.head?, Text.isDecimalDigit c = false := by
    obtain hends | ⟨name, rest', tokens', rfl, rfl, hname, -⟩ :=
      hrest.literal_or_ends htext.isDigit_next
    · exact fun c hc ↦ (of_endsLiteral (hends c hc)).2
    · have hplainName := (Token.isPlainName_iff.1 (hplain.tail.isPlainName rfl)).2.1
      rw [String.toList_ofList] at hplainName
      cases name with
      | nil => exact hname.elim
      | cons c name => exact hplainName
  have hnext : Awaited.next .target ⟨String.ofList text, .number, column⟩ = .comma := by
    rw [Awaited.next, Token.isJump_of_ne (by simp)]
    rfl
  have hafter := hplain.tail
  rw [hnext] at hafter
  rw [resume_target htext.ne_nil (fun c hc ↦ Text.isDecimalDigit_of_isDigit (hdigits c hc))
    hstop] at hcs'
  obtain ⟨new, hnew, hcs'⟩ := bind_eq_ok.1 hcs'
  obtain ⟨rest', hrest', hcs'⟩ := bind_eq_ok.1 hcs'
  cases hcs'
  have htarget := target_of_part hnew
  obtain ⟨hne, hnew⟩ : new ≠ [] ∧ ∀ c ∈ new, c.isDigit = true := by
    have htoList : (String.ofList text).toList = text := String.toList_ofList
    have hdigit := target_isDigit (m := m) (htoList.symm ▸ htext.ne_nil) (htoList.symm ▸ hdigits)
    rwa [htarget, String.toList_ofList] at hdigit
  obtain ⟨tokens', hpieces, hretargets⟩ := h (column' + new.length) hafter hplain.startsApart hrest'
  have htext' := htext.of_digits hdigits hne hnew
  rw [← head?_resume hrest' (by simp)] at htext'
  refine ⟨_, .number htext' hpieces,
    .cons ⟨rfl, fun _ ↦ htarget.symm, fun hother ↦ ?_⟩ (hnext ▸ hretargets)⟩
  cases hother

theorem Carries.number (h : m.Carries (column + text.length) rest tokens)
    (htext : NumberText text rest.head?) (hrest : Pieces (column + text.length) rest tokens) :
    m.Carries column (text ++ rest) (⟨String.ofList text, .number, column⟩ :: tokens) := by
  intro awaited inWord cs' column' hplain _ hcs'
  by_cases hawaited : awaited = .target
  · subst hawaited
    exact h.target htext hrest hplain hcs' column'
  · have hother : awaited.isTarget ⟨String.ofList text, .number, column⟩ = false := by
      simp [Awaited.isTarget, hawaited]
    have hnext : awaited.next ⟨String.ofList text, .number, column⟩ = .nothing :=
      Awaited.next_eq_nothing (Token.isJump_of_ne (by simp)) hother (by simp)
    have hafter := hplain.tail
    rw [hnext] at hafter
    have hnumeric : ∀ c ∈ text.head?, c ∈ numerics := fun c hc ↦
      htext.mem_numerics c (List.mem_of_mem_head? hc)
    have hreference : Program.hasReference inWord text rest = false :=
      hasReference_number htext hrest hplain
    obtain ⟨inWord', hrewrite⟩ := rewrite_append (m := m) hreference
    rw [resume_append htext.ne_nil (fun c hc ↦ (of_mem_numerics (hnumeric c hc)).1)
      (fun htarget ↦ absurd htarget hawaited) (fun _ c hc ↦ (of_mem_numerics (hnumeric c hc)).2.2),
      hrewrite] at hcs'
    obtain ⟨rest', hrest', hcs'⟩ := bind_eq_ok.1 hcs'
    cases hcs'
    have hrest' : m.resume .nothing inWord' rest = .ok rest' := hrest'
    obtain ⟨tokens', hpieces, hretargets⟩ :=
      h (column' + text.length) hafter hplain.startsApart hrest'
    rw [← head?_resume hrest' (by simp)] at htext
    refine ⟨_, .number htext hpieces,
      .cons ⟨rfl, fun htarget ↦ ?_, fun _ ↦ .inl rfl⟩ (hnext ▸ hretargets)⟩
    rw [hother] at htarget
    cases htarget

/-- What becomes of a text behind a literal. -/
theorem Carries.behind_literal {rest' : List Char}
    (h : m.Carries (column + text.length) rest tokens) (htext : IsLiteralText text)
    (hends : ∀ c ∈ rest.head?, endsLiteral c = true)
    (hplain : IsPlain awaited (⟨String.ofList text, .literal, column⟩ :: tokens))
    (hrest' :
      m.resume (awaited.next ⟨String.ofList text, .literal, column⟩) inWord rest = .ok rest')
    (column' : Nat) : ∃ tokens', Pieces column' (text ++ rest') tokens' ∧
      m.Retargets awaited (⟨String.ofList text, .literal, column⟩ :: tokens) tokens' := by
  rw [resume_congr (jump?_eq_none_of_ends hends) _ inWord false] at hrest'
  obtain ⟨tokens', hpieces, hretargets⟩ :=
    h (column' + text.length) hplain.tail .of_false hrest'
  have hhead := head?_resume hrest' fun _ c hc ↦ (of_endsLiteral (hends c hc)).2
  exact ⟨_, .literal htext (hhead ▸ hends) hpieces, .cons (.of_ne rfl (by simp) rfl) hretargets⟩

theorem Carries.literal (h : m.Carries (column + text.length) rest tokens)
    (htext : IsLiteralText text) (hends : ∀ c ∈ rest.head?, endsLiteral c = true) :
    m.Carries column (text ++ rest) (⟨String.ofList text, .literal, column⟩ :: tokens) := by
  intro awaited inWord cs' column' hplain hapart hcs'
  obtain ⟨hblank, hdigit, hjumpWord⟩ := Token.isPlainName_iff.1 (hplain.isPlainName rfl)
  rw [String.toList_ofList] at hblank hdigit hjumpWord
  rw [resume_append htext.ne_nil (fun c hc ↦ hblank c (List.mem_of_mem_head? hc)) (fun _ ↦ hdigit)
    (fun _ ↦ htext.ne_comma)] at hcs'
  by_cases hjump : Token.isJump ⟨String.ofList text, .literal, column⟩ = true
  · have hinWord : inWord = false := Bool.eq_false_iff.2 fun hinWord ↦ by
      rw [hapart hinWord _ rfl rfl rfl] at hjump
      cases hjump
    have hword := Token.isJumpWord_of_isJump hjump
    rw [String.toList_ofList] at hword
    rw [hinWord, rewrite_jumpWord hword fun c hc ↦ (of_endsLiteral (hends c hc)).2] at hcs'
    obtain ⟨rest', hrest', hcs'⟩ := bind_eq_ok.1 hcs'
    cases hcs'
    have hnext : awaited.next ⟨String.ofList text, .literal, column⟩ = .target := by
      rw [Awaited.next, if_pos hjump]
    exact h.behind_literal htext hends hplain (hnext ▸ hrest') column'
  · have hnone : hasReference inWord text rest = false := Bool.eq_false_iff.2 fun hreference ↦
      hjump (hjumpWord (endsInJumpWord_false
        (endsInJumpWord_of_hasReference hblank hends hreference)))
    obtain ⟨inWord', hrewrite⟩ := rewrite_append (m := m) hnone
    rw [hrewrite] at hcs'
    obtain ⟨rest', hrest', hcs'⟩ := bind_eq_ok.1 hcs'
    cases hcs'
    have hnext : awaited.next ⟨String.ofList text, .literal, column⟩ = .nothing :=
      Awaited.next_eq_nothing (Bool.eq_false_iff.2 hjump) (Awaited.isTarget_of_ne (by simp))
        (by simp)
    have hrest' : m.resume .nothing inWord' rest = .ok rest' := hrest'
    exact h.behind_literal htext hends hplain (hnext ▸ hrest') column'

end Program.Renumbering

theorem Pieces.carries (h : Pieces column cs tokens) (m : Renumbering) :
    m.Carries column cs tokens := by
  induction h with
  | nil => exact Renumbering.carries_nil
  | blank hc _ ih => exact ih.blank hc
  | mark hc _ ih => exact ih.mark hc
  | quoted hbody _ ih => exact ih.quoted hbody
  | number htext hrest ih => exact ih.number htext hrest
  | literal htext hends _ ih => exact ih.literal htext hends

end

/-! ## Renumbering a line -/

/-- A line of which the text shows what its tokens are. -/
def IsPlainLine (text : String) : Prop :=
  ∀ tokens, scan none text = .ok tokens → IsPlain .nothing tokens

instance (text : String) : Decidable (IsPlainLine text) :=
  decidable_of_iff (∀ tokens ∈ (scan none text).toOption, IsPlain .nothing tokens) <| by
    rw [IsPlainLine]
    cases scan none text with
    | ok tokens => simp [Except.toOption]
    | error fault => simp [Except.toOption]

/-- The tokens of a plain line after renumbering. -/
theorem exists_settledTokens {m : Renumbering} {line line' : Option Int} {text text' : String}
    {tokens : List Token} (hplain : IsPlainLine text) (htext : m.text text = .ok text')
    (htokens : settledTokens line text = .ok tokens) :
    ∃ tokens', settledTokens line' text' = .ok tokens' ∧ m.Retargets .nothing tokens tokens' := by
  obtain ⟨raw, hraw, htokens⟩ := bind_eq_ok.1 htokens
  have hpieces := pieces_iff.2 (mapError_eq_ok.1 hraw)
  obtain ⟨cs', hcs', htext⟩ := bind_eq_ok.1 htext
  cases htext
  have hplain := hplain raw (hpieces.scanFrom ⟨none, text⟩)
  obtain ⟨raw', hpieces', hretargets⟩ :=
    hpieces.carries m 0 hplain .of_false hcs'
  obtain ⟨tokens', htokens', hretargets⟩ := hretargets.settleAll (mapError_eq_ok.1 htokens)
    hpieces.isDigit_head hplain.targets
  refine ⟨tokens', ?_, hretargets⟩
  have hraw' : scan line' (String.ofList cs') = .ok raw' := by
    rw [scan, String.toList_ofList]
    exact hpieces'.scanFrom _
  rw [settledTokens, hraw']
  exact mapError_eq_ok.2 htokens'

/-! ## When renumbering succeeds -/

/-- A text without a run of digits that is too long to be read. -/
def HasShortNumbers (cs : List Char) : Prop :=
  ∀ run, run <:+: cs → (∀ c ∈ run, Text.isDecimalDigit c = true) → run.length ≤ Numeral.digitLimit

theorem HasShortNumbers.of_length {cs : List Char} (h : cs.length ≤ Numeral.digitLimit) :
    HasShortNumbers cs := fun _ hrun _ ↦ hrun.length_le.trans h

theorem HasShortNumbers.of_infix {cs ds : List Char} (h : HasShortNumbers cs) (hds : ds <:+: cs) :
    HasShortNumbers ds := fun run hrun ↦ h run (hrun.trans hds)

namespace Program

theorem exists_lineNumber {digits : List Char}
    (hdigits : ∀ c ∈ digits, Text.isDecimalDigit c = true)
    (hlength : digits.length ≤ Numeral.digitLimit) : ∃ n, lineNumber digits = .ok n := by
  have hvalue : ∀ (cs : List Char) (acc : Nat), (∀ c ∈ cs, Text.isDecimalDigit c = true) → ∃ n,
      cs.foldl (fun acc c ↦ do return (← acc) * 10 + (← Text.digitValue? c)) (some acc) =
        some n := by
    intro cs
    induction cs with
    | nil => exact fun acc _ ↦ ⟨acc, rfl⟩
    | cons c cs ih =>
      intro acc hcs
      obtain ⟨hc, hcs⟩ := List.forall_mem_cons.1 hcs
      obtain ⟨d, hd⟩ := Option.isSome_iff_exists.1 hc
      rw [List.foldl_cons, hd]
      exact ih (acc * 10 + d) hcs
  obtain ⟨n, hn⟩ := hvalue digits 0 hdigits
  refine ⟨n, ?_⟩
  rw [lineNumber, if_neg (Nat.not_lt.2 hlength), Text.digitsValue?, hn]

theorem isDecimalDigit_of_targetsWithin {rounds : Nat} {cs digits : List Char}
    (h : .numeral digits ∈ (targetsWithin rounds cs).1) :
    ∀ c ∈ digits, Text.isDecimalDigit c = true := by
  induction rounds generalizing cs with
  | zero => cases h
  | succ rounds ih =>
    obtain ⟨run, rest, rfl, hrun, hstop⟩ := exists_run Text.isDecimalDigit cs
    rw [targetsWithin_succ rounds hrun hstop] at h
    split at h
    · obtain rfl : digits = run := by simpa using h
      exact hrun
    · obtain hfirst | h := List.mem_cons.1 h
      · cases hfirst
        exact hrun
      · obtain hgap | h := List.mem_cons.1 h
        · cases hgap
        · exact ih h

theorem exists_targetsWithin_of_jump? {cs lead rest : List Char} {parts : List TargetPart}
    (h : jump? cs = some (lead, parts, rest)) :
    ∃ more, targetsWithin more.length more = (parts, rest) := by
  obtain ⟨length, -, h⟩ := Option.bind_eq_some_iff.1 h
  simp only at h
  split at h
  · cases h
  · cases h
    exact ⟨_, rfl⟩

theorem TargetPart.text_isInfix {part : TargetPart} {parts : List TargetPart} (h : part ∈ parts) :
    part.text <:+: parts.flatMap text := by
  obtain ⟨before, after, rfl⟩ := List.append_of_mem h
  exact ⟨before.flatMap text, after.flatMap text, by simp⟩

/-- A target is renumbered if it is short enough to be read. -/
theorem Renumbering.exists_part (m : Renumbering) {cs lead rest : List Char}
    {parts : List TargetPart} {part : TargetPart} (h : HasShortNumbers cs)
    (hjump : jump? cs = some (lead, parts, rest)) (hpart : part ∈ parts) :
    ∃ text, m.part part = .ok text := by
  cases part with
  | between text => exact ⟨text, rfl⟩
  | numeral digits =>
    obtain ⟨more, hmore⟩ := exists_targetsWithin_of_jump? hjump
    have hpart' : .numeral digits ∈ (targetsWithin more.length more).1 := by
      rw [hmore]
      exact hpart
    have hdigits := isDecimalDigit_of_targetsWithin hpart'
    have hinfix : digits <:+: cs := by
      rw [← (append_of_jump? hjump).2, ← List.append_assoc]
      exact (TargetPart.text_isInfix hpart).trans (List.infix_append lead _ rest)
    obtain ⟨n, hn⟩ := exists_lineNumber hdigits (h digits hinfix hdigits)
    simp only [Renumbering.part, hn, bind, Except.bind]
    cases m.find? n with
    | none => exact ⟨digits, rfl⟩
    | some new => exact ⟨(toString new).toList, rfl⟩

theorem Renumbering.exists_within (m : Renumbering) {rounds : Nat} {inWord : Bool} {cs : List Char}
    (h : HasShortNumbers cs) : ∃ cs', m.within rounds inWord cs = .ok cs' := by
  induction rounds generalizing inWord cs with
  | zero => exact ⟨cs, rfl⟩
  | succ rounds ih =>
    cases cs with
    | nil => exact ⟨[], rfl⟩
    | cons c cs =>
      rw [within]
      split
      · rename_i lead parts rest hjump
        have hjump : jump? (c :: cs) = some (lead, parts, rest) := by
          split at hjump
          · cases hjump
          · exact hjump
        have happend := (append_of_jump? hjump).2
        have hrest : rest <:+: c :: cs := by
          rw [← happend, ← List.append_assoc]
          exact (List.suffix_append ..).isInfix
        obtain ⟨targets, htargets⟩ := exists_mapM fun part hpart ↦
          m.exists_part h hjump hpart
        obtain ⟨rest', hrest'⟩ : ∃ rest', m.within rounds true rest = .ok rest' :=
          ih (h.of_infix hrest)
        exact ⟨lead ++ targets.flatten ++ rest', by rw [htargets, hrest']; rfl⟩
      · obtain ⟨cs', hcs'⟩ : ∃ cs', m.within rounds (Text.isWord c) cs = .ok cs' :=
          ih (h.of_infix (List.suffix_cons c cs).isInfix)
        exact ⟨c :: cs', by rw [hcs']; rfl⟩

/-! ## Renumbering a program -/

theorem map_fst_renumbering (p : Program) :
    p.renumbering.map Prod.fst = p.lines.map Prod.fst := by
  rw [renumbering, List.mapIdx_eq_zipIdx_map, List.map_map]
  conv_rhs => rw [← List.zipIdx_map_fst 0 p.lines, List.map_map]
  rfl

theorem find?_fst_eq_none {α : Type} {es : List (Nat × α)} {n : Nat} :
    es.find? (fun e ↦ e.1 == n) = none ↔ n ∉ es.map Prod.fst := by
  simp only [List.find?_eq_none, beq_iff_eq, List.mem_map, not_exists, not_and]

/-- The lines of the program have new numbers, and no others. -/
theorem find?_renumbering_eq_none {p : Program} {n : Nat} :
    p.renumbering.find? n = none ↔ p.get? n = none := by
  rw [Renumbering.find?, get?, Option.map_eq_none_iff, Option.map_eq_none_iff, find?_fst_eq_none,
    find?_fst_eq_none, map_fst_renumbering]

theorem find?_of_mem_renumbering {p : Program} {e : Nat × Nat} (h : e ∈ p.renumbering) :
    p.renumbering.find? e.1 = some e.2 := by
  have hkeys : (p.renumbering.map Prod.fst).Pairwise (· < ·) := by
    rw [map_fst_renumbering, List.pairwise_map]
    exact p.ascending
  obtain ⟨before, after, hsplit⟩ := List.append_of_mem h
  rw [hsplit, List.map_append, List.pairwise_append] at hkeys
  have hbefore : before.find? (fun d ↦ d.1 == e.1) = none := find?_fst_eq_none.2 fun hmem ↦
    Nat.lt_irrefl _ (hkeys.2.2 _ hmem _ (List.mem_cons_self ..))
  rw [Renumbering.find?, hsplit, List.find?_append, hbefore]
  simp

/-- Lines come out in their order, each with its new number. -/
theorem forall₂_numbered {r : Nat × String → String → Prop} {lines : List (Nat × String)}
    {texts : List String} (h : List.Forall₂ r lines texts) (k : Nat) :
    List.Forall₂ (fun l l' ↦
      (l.1, l'.1) ∈ lines.mapIdx (fun i l ↦ (l.1, step + (i + k) * step)) ∧ r l l'.2)
      lines (numbered k texts) := by
  induction h generalizing k with
  | nil => exact .nil
  | @cons l text lines texts hr _ ih =>
    rw [List.mapIdx_cons, numbered]
    refine .cons ⟨by simp, hr⟩ ((ih (k + 1)).imp fun l l' h ↦ ⟨List.mem_cons_of_mem _ ?_, h.2⟩)
    simpa only [Nat.add_right_comm _ 1 k, Nat.add_assoc, Nat.add_comm 1 k] using h.1

/-- Renumbering succeeds if all runs of digits can be read. -/
theorem exists_renumber {p : Program} (h : ∀ l ∈ p.lines, HasShortNumbers l.2.toList) :
    ∃ q, p.renumber = .ok (p.renumbering, q) := by
  have htext : ∀ l ∈ p.lines, ∃ text, p.renumbering.text l.2 = .ok text := fun l hl ↦ by
    obtain ⟨cs, hcs⟩ := p.renumbering.exists_within (h l hl)
    exact ⟨String.ofList cs, by rw [Renumbering.text, hcs]; rfl⟩
  obtain ⟨texts, htexts⟩ := exists_mapM htext
  exact ⟨_, by rw [renumber, htexts]; rfl⟩

/-- What renumbering makes of the lines. -/
theorem forall₂_of_renumber {p q : Program} {m : Renumbering} (h : p.renumber = .ok (m, q)) :
    m = p.renumbering ∧ List.Forall₂ (fun l l' ↦ m.find? l.1 = some l'.1 ∧ m.text l.2 = .ok l'.2)
      p.lines q.lines := by
  obtain ⟨texts, htexts, h⟩ := bind_eq_ok.1 h
  cases h
  refine ⟨rfl, (forall₂_numbered (forall₂_of_mapM htexts) 0).imp fun l l' h ↦ ⟨?_, h.2⟩⟩
  exact find?_of_mem_renumbering h.1

/-- Renumbering succeeds if all runs of digits can be read.  It gives each line its new number and
does one thing to the tokens of a plain line: targets that are numbers of lines get the new numbers
of these lines.  Quoted text with a reference in it is renumbered like the text of a line. -/
theorem renumber_retargets (p : Program) :
    ((∀ l ∈ p.lines, HasShortNumbers l.2.toList) → ∃ q, p.renumber = .ok (p.renumbering, q)) ∧
    ∀ m q, p.renumber = .ok (m, q) →
      (∀ n, m.find? n = none ↔ p.get? n = none) ∧
      List.Forall₂ (fun l l' ↦ m.find? l.1 = some l'.1 ∧
        (IsPlainLine l.2 → ∀ tokens, settledTokens (some l.1) l.2 = .ok tokens →
          ∃ tokens', settledTokens (some l'.1) l'.2 = .ok tokens' ∧
            m.Retargets .nothing tokens tokens')) p.lines q.lines := by
  refine ⟨exists_renumber, fun m q h ↦ ?_⟩
  obtain ⟨rfl, hlines⟩ := forall₂_of_renumber h
  exact ⟨fun n ↦ find?_renumbering_eq_none, hlines.imp fun l l' hl ↦
    ⟨hl.1, fun hplain tokens htokens ↦ exists_settledTokens hplain hl.2 htokens⟩⟩

/-- A list of targets one of which names no line, and a quoted reference. -/
theorem renumber_retargets_list :
    ∃ p q : Program, p.lines = [(5, "ON X GOTO 7, 99 : PRINT \"GOTO 7\""), (7, "END")] ∧
      (∀ l ∈ p.lines, HasShortNumbers l.2.toList ∧ IsPlainLine l.2) ∧
      p.renumber = .ok (p.renumbering, q) ∧
      List.Forall₂ (fun l l' ↦ p.renumbering.find? l.1 = some l'.1 ∧
        ∃ tokens tokens', settledTokens (some l.1) l.2 = .ok tokens ∧
          settledTokens (some l'.1) l'.2 = .ok tokens' ∧
            p.renumbering.Retargets .nothing tokens tokens') p.lines q.lines := by
  let p : Program := ⟨[(5, "ON X GOTO 7, 99 : PRINT \"GOTO 7\""), (7, "END")], by decide⟩
  have hplain : ∀ l ∈ p.lines, IsPlainLine l.2 := by decide +kernel
  have hshort : ∀ l ∈ p.lines, HasShortNumbers l.2.toList := fun l hl ↦
    .of_length ((by decide +kernel : ∀ l ∈ p.lines, l.2.toList.length ≤ Numeral.digitLimit) l hl)
  have htokens : ∀ l ∈ p.lines, (settledTokens (some l.1) l.2).toOption.isSome = true := by
    decide +kernel
  obtain ⟨q, hq⟩ := (renumber_retargets p).1 hshort
  refine ⟨p, q, rfl, fun l hl ↦ ⟨hshort l hl, hplain l hl⟩, hq, ?_⟩
  have hlines := (List.forall₂_and_left _ _).2
    ⟨fun l hl ↦ And.intro (hplain l hl) (htokens l hl), ((renumber_retargets p).2 _ q hq).2⟩
  refine hlines.imp fun l l' ⟨⟨hplain, htokens⟩, hnumber, hretargets⟩ ↦ ⟨hnumber, ?_⟩
  cases hscanned : settledTokens (some l.1) l.2 with
  | error stop =>
    rw [hscanned] at htokens
    cases htokens
  | ok tokens =>
    obtain ⟨tokens', htokens', hretargets⟩ := hretargets hplain tokens hscanned
    exact ⟨tokens, tokens', rfl, htokens', hretargets⟩

/-- Text in quotes is not always left as it is, and a target that names no line may name one
afterwards. -/
theorem not_forall_renumber :
    (¬ ∀ (p q : Program) (m : Renumbering), p.renumber = .ok (m, q) →
      List.Forall₂ (fun l l' ↦ ∀ tokens tokens', settledTokens (some l.1) l.2 = .ok tokens →
        settledTokens (some l'.1) l'.2 = .ok tokens' →
          List.Forall₂ (fun t t' ↦ t.cls = .quoted → t'.text = t.text) tokens tokens')
        p.lines q.lines) ∧
    ¬ ∀ (p q : Program) (m : Renumbering), p.renumber = .ok (m, q) →
      List.Forall₂ (fun l l' ↦ ∀ tokens tokens', settledTokens (some l.1) l.2 = .ok tokens →
        settledTokens (some l'.1) l'.2 = .ok tokens' →
          List.Forall₂ (fun t t' ↦ ∀ n n', lineNumber t.text.toList = .ok n →
            lineNumber t'.text.toList = .ok n' → p.get? n = none → q.get? n' = none)
            tokens tokens') p.lines q.lines := by
  let p : Program := ⟨[(5, "GOTO 20"), (7, "PRINT \"GOTO 5\"")], by decide⟩
  have hlines : p.renumber.map (·.2.lines) =
      .ok [(10, "GOTO 20"), (20, "PRINT \"GOTO 10\"")] := by decide +kernel
  obtain ⟨m, q, hq⟩ : ∃ m q, p.renumber = .ok (m, q) := by
    cases hrun : p.renumber with
    | error mishap =>
      rw [hrun] at hlines
      cases hlines
    | ok result => exact ⟨result.1, result.2, rfl⟩
  rw [hq] at hlines
  have hlines : q.lines = [(10, "GOTO 20"), (20, "PRINT \"GOTO 10\"")] := Except.ok.inj hlines
  have hquoted : settledTokens (some 7) "PRINT \"GOTO 5\"" =
      .ok [⟨"PRINT", .literal, 0⟩, ⟨"GOTO 5", .quoted, 7⟩] := by decide +kernel
  have hquoted' : settledTokens (some 20) "PRINT \"GOTO 10\"" =
      .ok [⟨"PRINT", .literal, 0⟩, ⟨"GOTO 10", .quoted, 7⟩] := by decide +kernel
  have hjump : settledTokens (some 5) "GOTO 20" =
      .ok [⟨"GOTO", .literal, 0⟩, ⟨"20", .number, 5⟩] := by decide +kernel
  have hjump' : settledTokens (some 10) "GOTO 20" =
      .ok [⟨"GOTO", .literal, 0⟩, ⟨"20", .number, 5⟩] := by decide +kernel
  constructor
  · intro hall
    have hsame := hall p q m hq
    rw [hlines] at hsame
    cases hsame with
    | cons _ hsame =>
      cases hsame with
      | cons hsame _ =>
        have hsame := hsame _ _ hquoted hquoted'
        simp at hsame
  · intro hall
    have hdangling := hall p q m hq
    rw [hlines] at hdangling
    cases hdangling with
    | cons hdangling _ =>
      have hdangling := hdangling _ _ hjump hjump'
      simp only [List.forall₂_cons, List.forall₂_nil_right_iff, and_true] at hdangling
      have hnone := hdangling.2 20 20 (by decide +kernel) (by decide +kernel) (by decide)
      rw [get?, hlines] at hnone
      simp at hnone

end Program

end LineBasic
