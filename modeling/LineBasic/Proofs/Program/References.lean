import LineBasic.Proofs.Program.Tidiness
import LineBasic.Proofs.Text.Upper
import LineBasic.Proofs.Token.Pieces

/-!
# References to lines in a text

A reference is a jump word, blanks and a list of targets.  Here it is said where a text has one,
without looking at what the rewriting of texts makes of it.

* `IsJumpWord`, `jumpWord?_eq_some`, `IsJumpWord.jumpWord?_append` — jump words.
* `IsJumpWord.of_upper` — a text is one if its upper case is.
* `leadsToTarget`, `isSome_jump?_iff` — a jump is a jump word, a blank, and what leads to a target.
* `hasReference`, `endsInJumpWord` — where a text has references, and whether its end can be the
  word of one.
-/

set_option autoImplicit false
namespace LineBasic.Program

/-! ## Jump words -/

/-- The numbers of the blanks. -/
def blanks : List Nat :=
  [0x09, 0x0A, 0x0B, 0x0C, 0x0D, 0x1C, 0x1D, 0x1E, 0x1F, 0x20, 0x85, 0xA0, 0x1680, 0x2000, 0x2001,
    0x2002, 0x2003, 0x2004, 0x2005, 0x2006, 0x2007, 0x2008, 0x2009, 0x200A, 0x2028, 0x2029, 0x202F,
    0x205F, 0x3000]

theorem of_mem_blanks : ∀ n ∈ blanks, ((Char.ofNat n).isAlphanum || Char.ofNat n == '_') = false ∧
    Text.isDecimalDigit (Char.ofNat n) = false := by decide +kernel

/-- Where the blanks are among the word characters beyond ASCII. -/
theorem of_mem_wordRanges : ∀ r ∈ Text.wordRanges, 170 ≤ r.1 ∧ (r.2 < 0x1680 ∨ 0x1680 < r.1) ∧
    (r.2 < 0x2000 ∨ 0x205F < r.1) ∧ (r.2 < 0x3000 ∨ 0x3000 < r.1) := by decide +kernel

theorem toNat_mem_blanks {b : Char} (h : Text.isBlank b = true) : b.toNat ∈ blanks := by
  simp only [Text.isBlank, Bool.or_eq_true, Bool.and_eq_true, decide_eq_true_eq,
    beq_iff_eq] at h
  simp only [blanks, List.mem_cons, List.not_mem_nil, or_false]
  omega

/-- A blank belongs to no word and is no digit. -/
theorem of_isBlank {b : Char} (h : Text.isBlank b = true) :
    Text.isWord b = false ∧ Text.isDecimalDigit b = false := by
  have hmem := toNat_mem_blanks h
  have hwide : Text.inRanges Text.wordRanges b = false := by
    rw [Bool.eq_false_iff, Ne, Text.inRanges_eq_true_iff]
    rintro ⟨r, hr, hlow, hhigh⟩
    have := of_mem_wordRanges r hr
    simp only [blanks, List.mem_cons, List.not_mem_nil, or_false] at hmem
    omega
  have hb := of_mem_blanks b.toNat hmem
  rw [Char.ofNat_toNat] at hb
  exact ⟨by rw [Text.isWord, hb.1, hwide]; rfl, hb.2⟩

/-- The words that targets come after, by their letters. -/
def jumpWords : List (List Char) :=
  [['G', 'O', 'T', 'O'], ['G', 'O', 'S', 'U', 'B'], ['B', 'R', 'E', 'A', 'K', 'T', 'O']]

/-- A text that the rewriting of texts takes for a jump word. -/
def IsJumpWord (word : List Char) : Prop :=
  word.map foldLetter ∈ jumpWords

/-- Whether the character can stand in a jump word. -/
def isJumpLetter (c : Char) : Bool :=
  jumpWords.flatten.contains (foldLetter c)

theorem of_isJumpLetter_ascii : ∀ n < 128, isJumpLetter (Char.ofNat n) = true →
    Text.isWord (Char.ofNat n) = true ∧ Text.isBlank (Char.ofNat n) = false ∧
      endsLiteral (Char.ofNat n) = false := by
  decide +kernel

/-- Only the long s and the Kelvin sign count as other letters than they are. -/
theorem foldLetter_eq_self {c : Char} (h : 128 ≤ c.toNat) (hs : c ≠ Char.ofNat 0x17F)
    (hk : c ≠ Char.ofNat 0x212A) : foldLetter c = c := by
  have hs : c.toNat ≠ 0x17F := fun heq ↦ hs (heq ▸ (Char.ofNat_toNat c).symm)
  have hk : c.toNat ≠ 0x212A := fun heq ↦ hk (heq ▸ (Char.ofNat_toNat c).symm)
  have hupper : c.toUpper = c := by
    rw [Char.toUpper, dif_neg]
    rintro ⟨-, hlast⟩
    have : c.toNat ≤ 122 := hlast
    omega
  simp [foldLetter, hs, hk, hupper]

/-- A letter of a jump word belongs to words and literals, and is no blank. -/
theorem of_isJumpLetter {c : Char} (h : isJumpLetter c = true) :
    Text.isWord c = true ∧ Text.isBlank c = false ∧ endsLiteral c = false := by
  by_cases hc : c.toNat < 128
  · have hascii := of_isJumpLetter_ascii c.toNat hc
    rw [Char.ofNat_toNat] at hascii
    exact hascii h
  · by_cases hs : c = Char.ofNat 0x17F
    · exact hs ▸ by decide +kernel
    · by_cases hk : c = Char.ofNat 0x212A
      · exact hk ▸ by decide +kernel
      · rw [isJumpLetter, foldLetter_eq_self (Nat.le_of_not_lt hc) hs hk] at h
        have hascii : ∀ d ∈ jumpWords.flatten, d.toNat < 128 := by
          simp [jumpWords]
        exact absurd (hascii c (List.contains_iff_mem.1 h)) hc

theorem isJumpLetter_of_endsLiteral {c : Char} (hc : endsLiteral c = true) :
    isJumpLetter c = false := Bool.eq_false_iff.2 fun h ↦ by
  rw [(of_isJumpLetter h).2.2] at hc
  cases hc

theorem isJumpLetter_of_isBlank {c : Char} (hc : Text.isBlank c = true) :
    isJumpLetter c = false := Bool.eq_false_iff.2 fun h ↦ by
  rw [(of_isJumpLetter h).2.1] at hc
  cases hc

theorem isJumpLetter_of_isDigit {c : Char} (hc : c.isDigit = true) : isJumpLetter c = false := by
  obtain ⟨hlow, hhigh⟩ := Text.toNat_of_isDigit hc
  rw [← Char.ofNat_toNat c]
  interval_cases c.toNat <;> rfl

namespace IsJumpWord

variable {word rest : List Char}

theorem isJumpLetter (h : IsJumpWord word) : ∀ c ∈ word, isJumpLetter c = true := by
  intro c hc
  exact List.contains_iff_mem.2 (List.mem_flatten.2 ⟨_, h, List.mem_map_of_mem hc⟩)

theorem mem_o (h : IsJumpWord word) : 'O' ∈ word.map foldLetter := by
  have ho : ∀ w ∈ jumpWords, 'O' ∈ w := by decide
  exact ho _ h

theorem ne_nil (h : IsJumpWord word) : word ≠ [] := by
  rintro rfl
  cases h.mem_o

theorem not_isDigit (h : IsJumpWord word) : ∀ c ∈ word, c.isDigit = false := fun c hc ↦
  Bool.eq_false_iff.2 fun hdigit ↦ by
    have hletter := h.isJumpLetter c hc
    rw [isJumpLetter_of_isDigit hdigit] at hletter
    cases hletter

/-- A jump word at the start of two texts is all in the first one, if the second one starts with no
letter of it. -/
theorem exists_of_append_eq {text after : List Char} (h : IsJumpWord word)
    (heq : text ++ rest = word ++ after) (hrest : ∀ c ∈ rest.head?, endsLiteral c = true) :
    ∃ more, text = word ++ more ∧ after = more ++ rest := by
  obtain ⟨more, hmore, hafter⟩ | ⟨more, hmore, hafter⟩ := List.append_eq_append_iff.1 heq
  · cases more with
    | nil => exact ⟨[], by simpa using hmore.symm, by simpa using hafter.symm⟩
    | cons c more =>
      have hletter := h.isJumpLetter c (by simp [hmore])
      rw [isJumpLetter_of_endsLiteral (hrest c (hafter ▸ rfl))] at hletter
      cases hletter
  · exact ⟨more, hmore, hafter⟩

end IsJumpWord

theorem jumpWord?_eq_some {cs : List Char} {length : Nat} (h : jumpWord? cs = some length) :
    ∃ word rest, cs = word ++ rest ∧ word.length = length ∧ IsJumpWord word := by
  obtain ⟨w, hfind, rfl⟩ := Option.map_eq_some_iff.1 h
  have hmem := List.mem_of_find?_eq_some hfind
  have hword := List.find?_some hfind
  rw [beq_iff_eq] at hword
  refine ⟨cs.take w.length, cs.drop w.length, (List.take_append_drop ..).symm, ?_, ?_⟩
  · rw [← List.length_map foldLetter, hword, String.length_toList]
  · rw [IsJumpWord, hword]
    exact List.mem_map_of_mem hmem

/-- The jump words are told apart by their starts. -/
theorem IsJumpWord.jumpWord?_append {word : List Char} (h : IsJumpWord word) (rest : List Char) :
    jumpWord? (word ++ rest) = some word.length := by
  have hlength : word.length = (word.map foldLetter).length := (List.length_map _).symm
  have htake : ∀ n, ((word ++ rest).take n).map foldLetter =
      (word.map foldLetter ++ rest.map foldLetter).take n := fun n ↦ by
    rw [List.map_take, List.map_append]
  simp only [jumpWord?, htake, hlength]
  simp only [IsJumpWord, jumpWords, List.mem_cons, List.not_mem_nil, or_false] at h
  obtain h | h | h := h <;> rw [h] <;> rfl

/-! ### Jump words in upper case -/

/-- No jump word has a part that is the upper case of one character and longer than that. -/
theorem not_isInfix_of_mem_upperExpansions : ∀ e ∈ Text.upperExpansions, ∀ w ∈ jumpWords,
    ¬ e.2.map Char.ofNat <:+: w := by decide +kernel

/-- The dotless i and the long s are the characters beyond ASCII whose upper case is a letter of
ASCII. -/
theorem eq_of_mem_upperRuns : ∀ r ∈ Text.upperRuns, r.2.2.2 ≤ 90 →
    r = (305, 305, 1, 73) ∨ r = (383, 383, 1, 83) := by decide +kernel

theorem toNat_of_mem_jumpWords : ∀ w ∈ jumpWords, ∀ d ∈ w,
    65 ≤ d.toNat ∧ d.toNat ≤ 90 ∧ d ≠ 'I' := by simp [jumpWords]

/-- A character whose upper case is a part of a jump word counts as that part. -/
theorem upperChar_eq_of_isInfix {c : Char} {w : List Char} (hw : w ∈ jumpWords)
    (h : Text.upperChar c <:+: w) : Text.upperChar c = [foldLetter c] := by
  rw [Text.upperChar] at h ⊢
  split
  · have hs : c.toNat ≠ 0x17F := by omega
    have hk : c.toNat ≠ 0x212A := by omega
    simp [foldLetter, hs, hk]
  · rename_i hascii
    rw [if_neg hascii] at h
    rw [Text.upperWide] at h ⊢
    split at h
    · rename_i key image hfind
      exact absurd h
        (not_isInfix_of_mem_upperExpansions _ (List.mem_of_find?_eq_some hfind) w hw)
    · simp only at h ⊢
      split at h
      · rename_i first last step image hfind
        obtain ⟨hlow, hhigh, hi⟩ := toNat_of_mem_jumpWords w hw _ (h.mem (List.mem_singleton_self _))
        have hin := List.find?_some hfind
        simp only [Bool.and_eq_true, decide_eq_true_eq, beq_iff_eq] at hin
        obtain hvalid | hzero := Text.toNat_ofNat (image + (c.toNat - first))
        · have himage : image ≤ 90 := by omega
          obtain heq | heq := eq_of_mem_upperRuns _ (List.mem_of_find?_eq_some hfind) himage
          · cases heq
            have hc : c.toNat = 305 := by omega
            rw [hc] at hi
            exact absurd rfl hi
          · cases heq
            have hc : c.toNat = 0x17F := by omega
            simp [foldLetter, hc]
        · rw [hzero] at hlow
          exact absurd hlow (by decide)
      · obtain ⟨hlow, hhigh, -⟩ := toNat_of_mem_jumpWords w hw _ (h.mem (List.mem_singleton_self _))
        omega

theorem IsJumpWord.of_upper {cs : List Char} (h : cs.flatMap Text.upperChar ∈ jumpWords) :
    IsJumpWord cs := by
  have hchars : ∀ c ∈ cs, Text.upperChar c = [foldLetter c] := fun c hc ↦
    upperChar_eq_of_isInfix h (List.infix_flatMap_of_mem hc _)
  have hmap : cs.flatMap Text.upperChar = cs.map foldLetter := by
    rw [List.map_eq_flatMap]
    exact List.flatMap_congr fun c hc ↦ hchars c hc
  rwa [hmap] at h
/-! ## Targets -/

/-- Whether a target comes next in the text, with nothing but blanks before it. -/
def leadsToTarget (cs : List Char) : Bool :=
  (cs.dropWhile Text.isBlank).head?.any Text.isDecimalDigit

theorem leadsToTarget_cons_blank {b : Char} {cs : List Char} (hb : Text.isBlank b = true) :
    leadsToTarget (b :: cs) = leadsToTarget cs := by
  rw [leadsToTarget, List.dropWhile_cons_of_pos hb, leadsToTarget]

/-- What a jump word at the start of a text makes of it. -/
theorem jump?_append {word : List Char} (h : IsJumpWord word) (rest : List Char) :
    jump? (word ++ rest) = if rest.head?.any Text.isBlank && leadsToTarget rest then
      some (word ++ rest.takeWhile Text.isBlank,
        targetsWithin (rest.dropWhile Text.isBlank).length (rest.dropWhile Text.isBlank))
    else none := by
  have hblanks : (rest.takeWhile Text.isBlank).isEmpty = !rest.head?.any Text.isBlank := by
    cases rest with
    | nil => rfl
    | cons b rest => cases hb : Text.isBlank b <;> simp [hb]
  have hleads : (rest.dropWhile Text.isBlank).head?.any Text.isDecimalDigit =
      leadsToTarget rest := rfl
  simp only [jump?, h.jumpWord?_append, Option.bind_eq_bind, Option.bind_some, List.drop_left,
    List.take_left, hblanks, hleads, ← Bool.not_and, Bool.not_eq_true']
  split
  · rename_i hnone
    rw [if_neg (Bool.eq_false_iff.1 hnone)]
  · rename_i hsome
    rw [if_pos (Bool.eq_true_of_not_eq_false hsome)]
    rfl

theorem isSome_jump?_iff {cs : List Char} : (jump? cs).isSome = true ↔ ∃ word b rest,
    cs = word ++ b :: rest ∧ IsJumpWord word ∧ Text.isBlank b = true ∧
      leadsToTarget rest = true := by
  constructor
  · intro h
    obtain ⟨found, hfound⟩ := Option.isSome_iff_exists.1 h
    obtain ⟨length, hlength, -⟩ := Option.bind_eq_some_iff.1 hfound
    obtain ⟨word, rest, rfl, -, hword⟩ := jumpWord?_eq_some hlength
    rw [jump?_append hword] at hfound
    split at hfound
    · rename_i hleads
      cases rest with
      | nil => cases hleads
      | cons b rest =>
        obtain ⟨hb, hleads⟩ := Bool.and_eq_true_iff.1 hleads
        have hb : Text.isBlank b = true := hb
        rw [leadsToTarget_cons_blank hb] at hleads
        exact ⟨word, b, rest, rfl, hword, hb, hleads⟩
    · cases hfound
  · rintro ⟨word, b, rest, rfl, hword, hb, hrest⟩
    have hleads : leadsToTarget (b :: rest) = true := (leadsToTarget_cons_blank hb).trans hrest
    rw [jump?_append hword, if_pos (by simp [hb, hleads])]
    rfl

theorem jump?_cons_eq_none {c : Char} {cs : List Char} (hc : isJumpLetter c = false) :
    jump? (c :: cs) = none := by
  refine Option.not_isSome_iff_eq_none.1 fun hsome ↦ ?_
  obtain ⟨word, b, rest, heq, hword, -⟩ := isSome_jump?_iff.1 hsome
  cases word with
  | nil => exact hword.ne_nil rfl
  | cons d word =>
    obtain rfl := (List.cons.inj heq).1
    rw [hword.isJumpLetter c (List.mem_cons_self ..)] at hc
    cases hc

theorem leadsToTarget_quote (body cs : List Char) :
    leadsToTarget (body ++ '"' :: cs) = leadsToTarget body := by
  induction body with
  | nil => rfl
  | cons b body ih =>
    by_cases hb : Text.isBlank b = true
    · rw [List.cons_append, leadsToTarget_cons_blank hb, leadsToTarget_cons_blank hb, ih]
    · rw [List.cons_append, leadsToTarget, leadsToTarget, List.dropWhile_cons_of_neg hb,
        List.dropWhile_cons_of_neg hb]
      rfl

/-- A jump does not go beyond a quote. -/
theorem isSome_jump?_quote (body cs : List Char) :
    (jump? (body ++ '"' :: cs)).isSome = (jump? body).isSome := by
  rw [Bool.eq_iff_iff, isSome_jump?_iff, isSome_jump?_iff]
  constructor
  · rintro ⟨word, b, rest, heq, hword, hb, hrest⟩
    obtain ⟨more, rfl, hmore⟩ := hword.exists_of_append_eq heq (by simp [endsLiteral])
    cases more with
    | nil =>
      obtain rfl := (List.cons.inj hmore).1
      cases hb
    | cons d more =>
      obtain ⟨rfl, rfl⟩ := List.cons.inj hmore
      exact ⟨word, b, more, rfl, hword, hb, (leadsToTarget_quote more cs).symm.trans hrest⟩
  · rintro ⟨word, b, rest, rfl, hword, hb, hrest⟩
    exact ⟨word, b, rest ++ '"' :: cs, by simp, hword, hb,
      (leadsToTarget_quote rest cs).trans hrest⟩

theorem isSome_jump?_append {body tail : List Char} (htail : ∀ d ∈ tail.head?, d = '"') :
    (jump? (body ++ tail)).isSome = (jump? body).isSome := by
  cases tail with
  | nil => rw [List.append_nil]
  | cons d tail =>
    obtain rfl := htail d rfl
    exact isSome_jump?_quote body tail

/-! ## References -/

/-- Whether a jump starts in a text that the rest follows.  A jump word counts only where no word
runs into it, which `inWord` tells of the start. -/
def hasReference : Bool → List Char → List Char → Bool
  | _, [], _ => false
  | inWord, c :: text, rest =>
    !inWord && (jump? (c :: (text ++ rest))).isSome || hasReference (Text.isWord c) text rest

/-- Whether a text ends with a jump word that no word runs into. -/
def endsInJumpWord : Bool → List Char → Bool
  | _, [] => false
  | inWord, c :: cs =>
    !inWord && jumpWord? (c :: cs) == some (c :: cs).length || endsInJumpWord (Text.isWord c) cs

theorem hasReference_append {inWord : Bool} {text more rest : List Char}
    (h : hasReference inWord text (more ++ rest) = true) :
    hasReference inWord (text ++ more) rest = true := by
  induction text generalizing inWord with
  | nil => cases h
  | cons c text ih =>
    rw [List.cons_append, hasReference, List.append_assoc, Bool.or_eq_true]
    exact (Bool.or_eq_true_iff.1 h).imp_right ih

theorem endsInJumpWord_false {inWord : Bool} {cs : List Char}
    (h : endsInJumpWord inWord cs = true) : endsInJumpWord false cs = true := by
  cases cs with
  | nil => cases h
  | cons c cs =>
    cases inWord with
    | true => exact Bool.or_eq_true_iff.2 (.inr (by simpa [endsInJumpWord] using h))
    | false => exact h

theorem exists_of_endsInJumpWord {inWord : Bool} {cs : List Char}
    (h : endsInJumpWord inWord cs = true) :
    ∃ before word, cs = before ++ word ∧ IsJumpWord word := by
  induction cs generalizing inWord with
  | nil => cases h
  | cons c cs ih =>
    obtain hhere | hlater := Bool.or_eq_true_iff.1 h
    · obtain ⟨word, rest, heq, hlength, hword⟩ :=
        jumpWord?_eq_some (beq_iff_eq.1 (Bool.and_eq_true_iff.1 hhere).2)
      have hrest : rest = [] := by
        rw [heq, List.length_append] at hlength
        exact List.eq_nil_of_length_eq_zero (by omega)
      exact ⟨[], word, by rw [heq, hrest, List.append_nil, List.nil_append], hword⟩
    · obtain ⟨before, word, heq, hword⟩ := ih hlater
      exact ⟨c :: before, word, by rw [heq, List.cons_append], hword⟩

/-- A jump that starts in a text without blanks has the end of the text as its word. -/
theorem endsInJumpWord_of_hasReference {inWord : Bool} {text rest : List Char}
    (htext : ∀ c ∈ text, Text.isBlank c = false) (hrest : ∀ c ∈ rest.head?, endsLiteral c = true)
    (h : hasReference inWord text rest = true) : endsInJumpWord inWord text = true := by
  induction text generalizing inWord with
  | nil => cases h
  | cons c text ih =>
    refine Bool.or_eq_true_iff.2 ((Bool.or_eq_true_iff.1 h).imp (fun hjump ↦ ?_)
      (ih (List.forall_mem_cons.1 htext).2))
    obtain ⟨hinWord, hjump⟩ := Bool.and_eq_true_iff.1 hjump
    obtain ⟨word, b, after, heq, hword, hb, -⟩ := isSome_jump?_iff.1 hjump
    rw [← List.cons_append] at heq
    obtain ⟨more, htexts, hmore⟩ := hword.exists_of_append_eq heq hrest
    cases more with
    | nil =>
      rw [List.append_nil] at htexts
      have hlength := hword.jumpWord?_append []
      rw [List.append_nil, ← htexts] at hlength
      rw [hinWord, hlength, beq_self_eq_true, Bool.and_true]
    | cons d more =>
      obtain rfl := (List.cons.inj hmore).1
      rw [htext b (by simp [htexts])] at hb
      cases hb

end LineBasic.Program
