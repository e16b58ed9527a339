import LineBasic.Proofs.Program.References
import LineBasic.Proofs.Program.Renumbering
import LineBasic.Proofs.Token.Remarks

/-!
# Lines that are remarks

Whether a line is a remark is seen twice: from its text before it is scanned, and from its first
token afterwards.  The text decides: a line whose first token is the remark word, in any case of
letters, has been recognised before.  What follows a line does not make it a remark.

* `isRemarkLine_withRemark` — a remark behind a line does not matter.
* `isRemarkLine_of_isWord` — the first token does not, either.
* `settledTokens_eq_nil_iff` — the lines without tokens.
-/

set_option autoImplicit false
namespace LineBasic

section
variable {cs rest : List Char} {s : String}

/-! ## The start of the text -/

/-- What comes after a space does not matter for the word that a text starts with. -/
theorem startsWithWord_append_space (cs rest : List Char) :
    startsWithWord "REM" (cs ++ ' ' :: rest) = startsWithWord "REM" cs := by
  have hword : Text.isWord ' ' = false := (Program.of_isBlank rfl).1
  match cs with
  | [] => simp [startsWithWord]
  | [a] => simp [startsWithWord]
  | [a, b] => simp [startsWithWord]
  | [a, b, c] => simp [startsWithWord, Text.endsWord, hword]
  | a :: b :: c :: d :: cs => simp [startsWithWord, Text.endsWord]

theorem isRemarkLine_withRemark (s t : String) :
    isRemarkLine (withRemark s t) = isRemarkLine s := by
  rw [isRemarkLine, isRemarkLine, toList_withRemark, List.dropWhile_append]
  split
  · rename_i hblank
    rw [List.isEmpty_iff.1 hblank]
    simp [startsWithWord, Text.isBlank]
  · exact startsWithWord_append_space _ _

/-- Letters that the remark word is the upper case of are of ASCII. -/
theorem toNat_lt_of_upperChar {c : Char} (h : Text.upperChar c <:+: ['R', 'E', 'M']) :
    c.toNat < 128 := by
  by_contra hwide
  rw [Text.upperChar, if_neg hwide, Text.upperWide] at h
  have hletter {d : Char} (hd : d ∈ ['R', 'E', 'M']) :
      65 ≤ d.toNat ∧ d.toNat ≤ 90 ∧ d ≠ 'I' ∧ d ≠ 'S' := by
    simp only [List.mem_cons, List.not_mem_nil, or_false] at hd
    rcases hd with rfl | rfl | rfl <;> decide
  split at h
  · rename_i key image hfind
    have hnone : ∀ e ∈ Text.upperExpansions, ¬ e.2.map Char.ofNat <:+: ['R', 'E', 'M'] := by
      decide +kernel
    exact hnone _ (List.mem_of_find?_eq_some hfind) h
  · simp only at h
    split at h
    · rename_i first last step image hfind
      have hmem := hletter (h.mem (List.mem_singleton_self _))
      obtain ⟨hlow, hhigh, hi, hs⟩ := hmem
      have hin := List.find?_some hfind
      simp only [Bool.and_eq_true, decide_eq_true_eq, beq_iff_eq] at hin
      obtain hvalid | hzero := Text.toNat_ofNat (image + (c.toNat - first))
      · have himage : image ≤ 90 := by omega
        obtain heq | heq :=
          Program.eq_of_mem_upperRuns _ (List.mem_of_find?_eq_some hfind) himage
        · cases heq
          have hc : c.toNat = 305 := by omega
          rw [hc] at hi
          exact absurd rfl hi
        · cases heq
          have hc : c.toNat = 383 := by omega
          rw [hc] at hs
          exact absurd rfl hs
      · rw [hzero] at hlow
        exact absurd hlow (by decide)
    · obtain ⟨-, hhigh, -⟩ := hletter (h.mem (List.mem_singleton_self _))
      omega

/-- The texts that the remark word is the upper case of. -/
theorem of_upper_remark (h : Text.upper s = "REM") : ∃ a b c, s.toList = [a, b, c] ∧
    [a, b, c].map Char.toUpper = ['R', 'E', 'M'] ∧ 82 ≤ a.toNat ∧ a.toNat ≤ 122 := by
  have hflat : s.toList.flatMap Text.upperChar = ['R', 'E', 'M'] := by
    have := congrArg String.toList h
    rwa [Text.upper, String.toList_ofList] at this
  have hascii : ∀ c ∈ s.toList, c.toNat < 128 := fun c hc ↦
    toNat_lt_of_upperChar (hflat ▸ List.infix_flatMap_of_mem hc Text.upperChar)
  have hmap : s.toList.map Char.toUpper = ['R', 'E', 'M'] := by
    rw [← hflat, List.map_eq_flatMap]
    exact List.flatMap_congr fun c hc ↦ by rw [Text.upperChar, if_pos (hascii c hc)]
  obtain ⟨a, b, c, hs⟩ : ∃ a b c, s.toList = [a, b, c] :=
    List.length_eq_three.1 (by rw [← List.length_map Char.toUpper, hmap]; rfl)
  rw [hs] at hmap hascii
  have hr : a.toUpper = 'R' := (List.cons.inj hmap).1
  refine ⟨a, b, c, hs, hmap, ?_⟩
  obtain hself | ⟨hlower, -⟩ := Text.toUpper_ascii (hascii a (List.mem_cons_self ..))
  · rw [← hself, hr]
    decide
  · omega

/-! ## The first token -/

/-- Where the first token of a text stands, if it is a word or a number. -/
theorem Pieces.head {column : Nat} {t : Token} {tokens : List Token}
    (h : Pieces column cs (t :: tokens)) (hcls : t.cls = .literal ∨ t.cls = .number) :
    ∃ blanks rest, cs = blanks ++ (t.text.toList ++ rest) ∧ (∀ c ∈ blanks, isSpaceChar c = true) ∧
      (t.cls = .number → ∃ c more, t.text.toList = c :: more ∧ c.isDigit = true) ∧
      (t.cls = .literal → ∀ c ∈ rest.head?, endsLiteral c = true) := by
  generalize hall : t :: tokens = all at h
  induction h with
  | nil => cases hall
  | @blank column c rest tokens hc _ ih =>
    obtain ⟨blanks, rest, rfl, hblanks, hrest⟩ := ih hall
    exact ⟨c :: blanks, rest, rfl, List.forall_mem_cons.2 ⟨hc, hblanks⟩, hrest⟩
  | mark hc _ _ =>
    cases hall
    cases hc <;> simp at hcls
  | quoted _ _ _ =>
    cases hall
    simp at hcls
  | @number column text rest tokens htext _ _ =>
    cases hall
    refine ⟨[], rest, by simp, nofun, fun _ ↦ ?_, nofun⟩
    rw [String.toList_ofList]
    cases htext with
    | whole hc => exact ⟨_, _, rfl, hc⟩
    | parted hc => exact ⟨_, _, rfl, hc⟩
  | @literal column text rest tokens _ hends _ _ =>
    cases hall
    exact ⟨[], rest, by simp, nofun, nofun, fun _ ↦ hends⟩

namespace Token

theorem alone_eq_of_literal {a t : Token} (h : a.alone = t) (hcls : t.cls = .literal) : a = t := by
  rw [alone] at h
  split at h
  · rw [← h] at hcls
    cases hcls
  · exact h

/-- A word is not fused with anything. -/
theorem eq_cons_of_fuse {tokens ts : List Token} {t : Token} (h : fuse tokens = t :: ts)
    (hcls : t.cls = .literal) : ∃ rest, tokens = t :: rest := by
  have hfused {a : Token} {group : List Token} {text : String}
      (hgroup : fused? (a :: group) = some text) (heq : { a with text } = t) : False := by
    have hliteral : a.cls = .literal := by
      rw [← heq] at hcls
      exact hcls
    rw [fused?_eq_none (List.mem_cons_self ..) (by simp [hliteral])] at hgroup
    cases hgroup
  fun_cases fuse tokens with
  | case1 a b c rest text hthree =>
    rw [fuse, hthree] at h
    exact (hfused hthree (List.cons.inj h).1).elim
  | case2 a b c rest hthree text htwo =>
    rw [fuse, hthree, htwo] at h
    exact (hfused htwo (List.cons.inj h).1).elim
  | case3 a b c rest hthree htwo =>
    rw [fuse, hthree, htwo] at h
    exact ⟨_, congrArg (· :: _) (alone_eq_of_literal (List.cons.inj h).1 hcls)⟩
  | case4 a b text htwo =>
    rw [fuse, htwo] at h
    exact (hfused htwo (List.cons.inj h).1).elim
  | case5 a b htwo =>
    rw [fuse, htwo] at h
    exact ⟨_, congrArg (· :: _) (alone_eq_of_literal (List.cons.inj h).1 hcls)⟩
  | case6 a => exact ⟨_, congrArg (· :: _) (alone_eq_of_literal (List.cons.inj h).1 hcls)⟩
  | case7 => cases h

/-- A word is settled from a word, or from a number token that is no numeral. -/
theorem of_settle_literal {t u : Token} (h : t.settle = .ok u) (hcls : u.cls = .literal) :
    u.text = t.text ∧ (t.cls = .literal ∨ t.cls = .number) := by
  obtain ⟨text, cls, column⟩ := t
  cases cls with
  | number =>
    simp only [settle] at h
    split at h
    · obtain ⟨decimal, -, h⟩ := bind_eq_ok.1 h
      cases decimal <;> cases h <;> cases hcls
    · cases h
      exact ⟨rfl, .inr rfl⟩
  | literal =>
    simp only [settle] at h
    split at h
    · cases h
      cases hcls
    · split at h
      · cases h
        cases hcls
      · cases h
        exact ⟨rfl, .inl rfl⟩
  | _ =>
    cases h
    cases hcls

end Token

variable {line : Option Int} {t : Token} {ts statements : List Token}

/-- A line whose first token is the remark word is a remark. -/
theorem isRemarkLine_of_isWord (h : settledTokens line s = .ok (t :: ts))
    (hword : t.isWord "REM" = true) : isRemarkLine s = true := by
  obtain ⟨hcls, hupper⟩ := Token.isWord_iff.1 hword
  obtain ⟨a, b, c, hchars, hmap, hlow, hhigh⟩ := of_upper_remark hupper
  obtain ⟨raw, single, hraw, hsingle, hfuse⟩ := settledTokens_eq_ok_iff.1 h
  obtain ⟨rest, rfl⟩ := Token.eq_cons_of_fuse hfuse.symm hcls
  cases raw with
  | nil => cases hsingle
  | cons u raw =>
    rw [List.mapM_cons] at hsingle
    obtain ⟨t', ht, hsingle⟩ := bind_eq_ok.1 hsingle
    obtain ⟨settled, -, hsingle⟩ := bind_eq_ok.1 hsingle
    cases hsingle
    obtain ⟨htext, hu⟩ := Token.of_settle_literal ht hcls
    obtain ⟨blanks, rest, hs, hblanks, hdigit, hends⟩ := hraw.head hu
    rw [← htext, hchars] at hs hdigit
    have hliteral : u.cls = .literal := by
      refine hu.resolve_right fun hnumber ↦ ?_
      obtain ⟨d, more, hd, hdigit⟩ := hdigit hnumber
      cases hd
      have := (Text.toNat_of_isDigit hdigit).2
      omega
    have hnotBlank : Text.isBlank a = false := by
      simp [Text.isBlank]
      omega
    have hword : Text.endsWord rest = true := by
      cases rest with
      | nil => rfl
      | cons d rest => simp [Text.endsWord, (of_endsLiteral (hends hliteral d rfl)).1]
    rw [isRemarkLine, hs, List.dropWhile_append_of_pos fun d hd ↦ isBlank_of_isSpaceChar
      (hblanks d hd), List.cons_append, List.dropWhile_cons_of_neg (by simp [hnotBlank])]
    simp only [startsWithWord, Bool.and_eq_true, beq_iff_eq]
    exact ⟨hmap, hword⟩

/-- The texts without tokens are the blank ones. -/
theorem Pieces.eq_nil_iff {column : Nat} (h : Pieces column cs ts) :
    ts = [] ↔ ∀ c ∈ cs, isSpaceChar c = true := by
  have hends {c : Char} (hc : isSpaceChar c = true) : endsLiteral c = true := by
    simp [endsLiteral, hc]
  induction h with
  | nil => simp
  | blank hc _ ih => exact ih.trans (by rw [List.forall_mem_cons, and_iff_right hc])
  | mark hc _ _ =>
    refine iff_of_false (List.cons_ne_nil _ _) fun hall ↦ ?_
    have hspace := hall _ (List.mem_cons_self ..)
    rw [isSpaceChar, Bool.or_eq_true, beq_iff_eq, beq_iff_eq] at hspace
    obtain rfl | rfl := hspace <;> cases hc <;> cases ‹_ = true›
  | quoted _ _ _ =>
    refine iff_of_false (List.cons_ne_nil _ _) fun hall ↦ ?_
    cases hall _ (List.mem_cons_self ..)
  | number htext _ _ =>
    refine iff_of_false (List.cons_ne_nil _ _) fun hall ↦ ?_
    cases htext with
    | whole hc | parted hc =>
      have := hends (hall _ (List.mem_cons_self ..))
      rw [endsLiteral_of_isDigit hc] at this
      cases this
  | @literal _ text _ _ htext _ _ _ =>
    refine iff_of_false (List.cons_ne_nil _ _) fun hall ↦ ?_
    cases text with
    | nil => exact htext
    | cons c more =>
      have := hends (hall c (List.mem_cons_self ..))
      simp [IsLiteralText, this] at htext

theorem settledTokens_eq_nil_iff (h : settledTokens line s = .ok statements) :
    statements = [] ↔ ∀ c ∈ s.toList, isSpaceChar c = true := by
  obtain ⟨raw, single, hraw, hsingle, rfl⟩ := settledTokens_eq_ok_iff.1 h
  rw [← hraw.eq_nil_iff]
  constructor
  · intro hfuse
    rw [Token.eq_nil_of_fuse hfuse] at hsingle
    exact List.length_eq_zero_iff.1 (forall₂_of_mapM hsingle).length_eq
  · rintro rfl
    cases hsingle
    rfl

theorem settledTokens_ne_nil_iff (h : settledTokens line s = .ok statements) :
    statements ≠ [] ↔ ∃ c ∈ s.toList, isSpaceChar c = false := by
  rw [Ne, settledTokens_eq_nil_iff h]
  simp

theorem settledTokens_of_blank (h : ∀ c ∈ s.toList, isSpaceChar c = true) :
    settledTokens line s = .ok [] := by
  have hpieces {cs : List Char} (h : ∀ c ∈ cs, isSpaceChar c = true) (column : Nat) :
      Pieces column cs [] := by
    induction cs generalizing column with
    | nil => exact .nil
    | cons c cs ih =>
      obtain ⟨hc, hcs⟩ := List.forall_mem_cons.1 h
      exact .blank hc (ih hcs _)
  exact settledTokens_eq_ok_iff.2 ⟨[], [], hpieces h 0, rfl, rfl⟩

end

end LineBasic
