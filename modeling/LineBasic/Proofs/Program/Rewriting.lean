import LineBasic.Proofs.Program.References

/-!
# Rewriting the targets of a text, step by step

Renumbering looks for jumps and rewrites all targets of a jump at once.  The same comes about in
small steps: of a list of targets it is enough to remember whether a target or a comma may come
next.

* `Awaited` — what may come next.
* `Renumbering.rewrite`, `Renumbering.resume` — rewriting a text from the start and from within a
  list of targets.
* `Renumbering.resume_blank`, `Renumbering.resume_comma`, `Renumbering.resume_target` and so on —
  the steps.
* `Renumbering.resume_quote` — quoted text is rewritten by itself.
* `Renumbering.rewrite_append`, `Renumbering.head?_resume` — what is left as it is.
-/

set_option autoImplicit false
namespace LineBasic.Program

/-- What a list of targets may go on with. -/
inductive Awaited where
  | nothing
  | target
  | comma
deriving DecidableEq

/-! ## Lists of targets -/

theorem targetGap_of_comma {cs rest : List Char} (h : cs.dropWhile Text.isBlank = ',' :: rest) :
    targetGap cs = if leadsToTarget rest then
      cs.takeWhile Text.isBlank ++ ',' :: rest.takeWhile Text.isBlank else [] := by
  simp only [targetGap, h, leadsToTarget]
  split <;> simp [*]

theorem targetGap_of_ne_comma {cs : List Char}
    (h : ∀ c ∈ (cs.dropWhile Text.isBlank).head?, c ≠ ',') : targetGap cs = [] := by
  rw [targetGap]
  split
  · rename_i heq
    exact absurd rfl (h ',' (heq ▸ rfl))
  · rfl

theorem targetGap_blank {b : Char} {cs : List Char} (hb : Text.isBlank b = true) :
    targetGap (b :: cs) = if targetGap cs = [] then [] else b :: targetGap cs := by
  have hdrop : (b :: cs).dropWhile Text.isBlank = cs.dropWhile Text.isBlank :=
    List.dropWhile_cons_of_pos hb
  by_cases hcomma : (cs.dropWhile Text.isBlank).head? = some ','
  · obtain ⟨rest, hrest⟩ := List.head?_eq_some_iff.1 hcomma
    rw [targetGap_of_comma hrest, targetGap_of_comma (hdrop.trans hrest),
      List.takeWhile_cons_of_pos hb]
    split <;> simp
  · have hother : ∀ c ∈ (cs.dropWhile Text.isBlank).head?, c ≠ ',' := fun c hc heq ↦
      hcomma (heq ▸ hc)
    rw [targetGap_of_ne_comma hother, targetGap_of_ne_comma (hdrop ▸ hother), if_pos rfl]

theorem targetGap_comma (cs : List Char) :
    targetGap (',' :: cs) = if leadsToTarget cs then ',' :: cs.takeWhile Text.isBlank else [] :=
  targetGap_of_comma rfl

theorem targetGap_other {c : Char} {cs : List Char} (hc : Text.isBlank c = false)
    (hcomma : c ≠ ',') : targetGap (c :: cs) = [] := by
  have hc : ¬ Text.isBlank c = true := by simp [hc]
  refine targetGap_of_ne_comma ?_
  simpa [List.dropWhile_cons_of_neg hc] using hcomma

theorem drop_length_takeWhile (p : Char → Bool) (cs : List Char) :
    cs.drop (cs.takeWhile p).length = cs.dropWhile p := by
  have h : (cs.takeWhile p ++ cs.dropWhile p).drop (cs.takeWhile p).length = cs.dropWhile p :=
    List.drop_left
  rwa [List.takeWhile_append_dropWhile] at h

/-- Behind a gap there is a target. -/
theorem head?_drop_targetGap {cs : List Char} (h : targetGap cs ≠ []) :
    (cs.drop (targetGap cs).length).head?.any Text.isDecimalDigit = true := by
  induction cs with
  | nil => exact absurd rfl h
  | cons c cs ih =>
    cases hc : Text.isBlank c with
    | true =>
      rw [targetGap_blank hc] at h ⊢
      by_cases hgap : targetGap cs = []
      · exact absurd (if_pos hgap) h
      · rw [if_neg hgap]
        exact ih hgap
    | false =>
      by_cases hcomma : c = ','
      · subst hcomma
        rw [targetGap_comma] at h ⊢
        by_cases hleads : leadsToTarget cs = true
        · rw [if_pos hleads, List.length_cons, List.drop_succ_cons, drop_length_takeWhile]
          exact hleads
        · exact absurd (if_neg hleads) h
      · exact absurd (targetGap_other hc hcomma) h

theorem targetsWithin_succ (rounds : Nat) {digits rest : List Char}
    (hdigits : ∀ c ∈ digits, Text.isDecimalDigit c = true)
    (hrest : ∀ c ∈ rest.head?, Text.isDecimalDigit c = false) :
    targetsWithin (rounds + 1) (digits ++ rest) = if targetGap rest = [] then
        ([.numeral digits], rest)
      else
        let found := targetsWithin rounds (rest.drop (targetGap rest).length)
        (.numeral digits :: .between (targetGap rest) :: found.1, found.2) := by
  rw [targetsWithin, takeWhile_append_of_stop hdigits hrest, dropWhile_append_of_stop hdigits hrest]
  split
  · rename_i hgap
    rw [if_pos hgap]
  · rename_i hgap
    rw [if_neg hgap]

/-- Every target takes a character at least, so that further rounds make no difference. -/
theorem targetsWithin_congr {rounds rounds' : Nat} {cs : List Char}
    (hcs : cs.head?.any Text.isDecimalDigit = true) (h : cs.length ≤ rounds)
    (h' : cs.length ≤ rounds') : targetsWithin rounds cs = targetsWithin rounds' cs := by
  induction rounds generalizing rounds' cs with
  | zero =>
    cases cs with
    | nil => cases hcs
    | cons c cs => cases h
  | succ rounds ih =>
    obtain ⟨digits, rest, rfl, hdigits, hrest⟩ := exists_run Text.isDecimalDigit cs
    cases digits with
    | nil =>
      obtain ⟨d, hd, hdigit⟩ := (Option.any_eq_true _ _).1 hcs
      rw [hrest d hd] at hdigit
      cases hdigit
    | cons d digits =>
      cases rounds' with
      | zero => cases h'
      | succ rounds' =>
        rw [targetsWithin_succ rounds hdigits hrest, targetsWithin_succ rounds' hdigits hrest]
        by_cases hgap : targetGap rest = []
        · rw [if_pos hgap, if_pos hgap]
        · rw [if_neg hgap, if_neg hgap]
          have hlength : (rest.drop (targetGap rest).length).length ≤ rest.length :=
            (List.drop_sublist ..).length_le
          simp only [List.cons_append, List.length_cons, List.length_append] at h h'
          have hafter : targetsWithin rounds (rest.drop (targetGap rest).length) =
              targetsWithin rounds' (rest.drop (targetGap rest).length) :=
            ih (head?_drop_targetGap hgap) (by omega) (by omega)
          rw [hafter]

namespace Renumbering

variable {m : Renumbering} {inWord : Bool} {cs : List Char}

/-! ## Rewriting -/

/-- A text with all targets renumbered, in as many rounds as it takes. -/
def rewrite (m : Renumbering) (inWord : Bool) (cs : List Char) :
    Except Number.Mishap (List Char) :=
  m.within cs.length inWord cs

theorem length_lt_of_jump? {lead rest : List Char} {parts : List TargetPart}
    (h : jump? cs = some (lead, parts, rest)) : rest.length < cs.length := by
  obtain ⟨hlead, rfl⟩ := append_of_jump? h
  have := List.length_pos_of_ne_nil hlead
  simp only [List.length_append]
  omega

theorem within_congr {rounds rounds' : Nat} (h : cs.length ≤ rounds) (h' : cs.length ≤ rounds') :
    m.within rounds inWord cs = m.within rounds' inWord cs := by
  induction rounds generalizing rounds' inWord cs with
  | zero =>
    cases cs with
    | nil => cases rounds' <;> rfl
    | cons c cs => cases h
  | succ rounds ih =>
    cases cs with
    | nil => cases rounds' <;> rfl
    | cons c cs =>
      cases rounds' with
      | zero => cases h'
      | succ rounds' =>
        rw [within, within]
        split
        · rename_i lead parts rest hjump
          have hjump : jump? (c :: cs) = some (lead, parts, rest) := by
            split at hjump
            · cases hjump
            · exact hjump
          have hlength := length_lt_of_jump? hjump
          have hrest : m.within rounds true rest = m.within rounds' true rest :=
            ih (by omega) (by omega)
          rw [hrest]
        · rw [ih (Nat.le_of_succ_le_succ h) (Nat.le_of_succ_le_succ h')]

theorem rewrite_nil : m.rewrite inWord [] = .ok [] := rfl

theorem rewrite_cons {c : Char} (h : inWord = true ∨ jump? (c :: cs) = none) :
    m.rewrite inWord (c :: cs) = do return c :: (← m.rewrite (Text.isWord c) cs) := by
  have hnone : (if inWord then none else jump? (c :: cs)) = none := by
    obtain rfl | h := h
    · rfl
    · rw [h, ite_self]
  rw [rewrite, List.length_cons, within, hnone]
  rfl

theorem rewrite_jump {lead rest : List Char} {parts : List TargetPart}
    (h : jump? cs = some (lead, parts, rest)) : m.rewrite false cs = do
      let targets ← parts.mapM m.part
      return lead ++ targets.flatten ++ (← m.rewrite true rest) := by
  cases cs with
  | nil => cases h
  | cons c cs =>
    have hlength := length_lt_of_jump? h
    simp only [rewrite, List.length_cons, within, Bool.false_eq_true, if_false, h]
    rw [within_congr (Nat.lt_succ_iff.1 hlength) (Nat.le_refl _)]

/-- A text that starts with a target, with all targets renumbered. -/
def rewriteTargets (m : Renumbering) (cs : List Char) : Except Number.Mishap (List Char) := do
  let found := targetsWithin cs.length cs
  let targets ← found.1.mapM m.part
  return targets.flatten ++ (← m.rewrite true found.2)

/-- The rest of a text with all targets renumbered, by what is awaited where it starts. -/
def resume (m : Renumbering) (awaited : Awaited) (inWord : Bool) (cs : List Char) :
    Except Number.Mishap (List Char) :=
  match awaited with
  | .nothing => m.rewrite inWord cs
  | .target =>
    if leadsToTarget cs then do
      return cs.takeWhile Text.isBlank ++ (← m.rewriteTargets (cs.dropWhile Text.isBlank))
    else m.rewrite inWord cs
  | .comma =>
    if targetGap cs = [] then m.rewrite inWord cs
    else do return targetGap cs ++ (← m.rewriteTargets (cs.drop (targetGap cs).length))

theorem resume_nil (awaited : Awaited) : m.resume awaited inWord [] = .ok [] := by
  cases awaited <;> rfl

/-- What is awaited is still awaited behind a blank. -/
theorem resume_blank {b : Char} (hb : Text.isBlank b = true) (awaited : Awaited) :
    m.resume awaited inWord (b :: cs) = do return b :: (← m.resume awaited false cs) := by
  obtain ⟨hword, -⟩ := of_isBlank hb
  have hrewrite : m.rewrite inWord (b :: cs) = do return b :: (← m.rewrite false cs) := by
    rw [rewrite_cons (.inr (jump?_cons_eq_none (isJumpLetter_of_isBlank hb))), hword]
  cases awaited with
  | nothing => exact hrewrite
  | target =>
    rw [resume, resume, leadsToTarget_cons_blank hb, List.takeWhile_cons_of_pos hb,
      List.dropWhile_cons_of_pos hb]
    split
    · simp
    · exact hrewrite
  | comma =>
    rw [resume, resume, targetGap_blank hb]
    by_cases hgap : targetGap cs = []
    · simp only [hgap, if_true, hrewrite]
    · simp [hgap]

/-- A comma after a target lets one expect another target. -/
theorem resume_comma : m.resume .comma inWord (',' :: cs) = do
    return ',' :: (← m.resume .target false cs) := by
  by_cases hleads : leadsToTarget cs = true
  · have hgap : targetGap (',' :: cs) = ',' :: cs.takeWhile Text.isBlank := by
      rw [targetGap_comma, if_pos hleads]
    rw [resume, resume, hgap, if_pos hleads, if_neg (List.cons_ne_nil _ _)]
    simp [drop_length_takeWhile]
  · have hgap : targetGap (',' :: cs) = [] := by rw [targetGap_comma, if_neg hleads]
    have hword : Text.isWord ',' = false := by decide +kernel
    rw [resume, resume, if_pos hgap, if_neg hleads, rewrite_cons (.inr (jump?_cons_eq_none rfl)),
      hword]

/-- Other characters let one expect nothing. -/
theorem resume_other {c : Char} {awaited : Awaited} (hblank : Text.isBlank c = false)
    (hdigit : awaited = .target → Text.isDecimalDigit c = false)
    (hcomma : awaited = .comma → c ≠ ',') :
    m.resume awaited inWord (c :: cs) = m.rewrite inWord (c :: cs) := by
  have hc : ¬ Text.isBlank c = true := by simp [hblank]
  cases awaited with
  | nothing => rfl
  | target =>
    have hleads : ¬ leadsToTarget (c :: cs) = true := by
      simp [leadsToTarget, List.dropWhile_cons_of_neg hc, hdigit rfl]
    rw [resume, if_neg hleads]
  | comma => rw [resume, if_pos (targetGap_other hblank (hcomma rfl))]

/-- A text that starts with another character lets one expect nothing. -/
theorem resume_append {awaited : Awaited} {text : List Char} (hne : text ≠ [])
    (hblank : ∀ c ∈ text.head?, Text.isBlank c = false)
    (hdigit : awaited = .target → ∀ c ∈ text.head?, Text.isDecimalDigit c = false)
    (hcomma : awaited = .comma → ∀ c ∈ text.head?, c ≠ ',') (rest : List Char) :
    m.resume awaited inWord (text ++ rest) = m.rewrite inWord (text ++ rest) := by
  cases text with
  | nil => exact absurd rfl hne
  | cons c text => exact resume_other (hblank c rfl) (hdigit · c rfl) (hcomma · c rfl)

/-- A target is renumbered, and lets one expect a comma. -/
theorem resume_target {digits rest : List Char} (hne : digits ≠ [])
    (hdigits : ∀ c ∈ digits, Text.isDecimalDigit c = true)
    (hrest : ∀ c ∈ rest.head?, Text.isDecimalDigit c = false) :
    m.resume .target inWord (digits ++ rest) = do
      let new ← m.part (.numeral digits)
      return new ++ (← m.resume .comma true rest) := by
  cases digits with
  | nil => exact absurd rfl hne
  | cons d digits =>
    have hd := hdigits d (List.mem_cons_self ..)
    have hblank : ¬ Text.isBlank d = true := fun hb ↦ by
      rw [(of_isBlank hb).2] at hd
      cases hd
    have hleads : leadsToTarget (d :: digits ++ rest) = true := by
      simp [leadsToTarget, List.dropWhile_cons_of_neg hblank, hd]
    rw [resume, if_pos hleads, List.cons_append, List.takeWhile_cons_of_neg hblank,
      List.dropWhile_cons_of_neg hblank, rewriteTargets, List.length_cons, ← List.cons_append,
      targetsWithin_succ _ hdigits hrest]
    by_cases hgap : targetGap rest = []
    · simp [hgap, resume]
    · have hlength : (rest.drop (targetGap rest).length).length ≤ (digits ++ rest).length := by
        simp only [List.length_drop, List.length_append]
        omega
      have hbetween : m.part (.between (targetGap rest)) = pure (targetGap rest) := rfl
      rw [targetsWithin_congr (head?_drop_targetGap hgap) hlength (Nat.le_refl _)]
      simp [hgap, hbetween, resume, rewriteTargets, ← List.append_assoc]

/-- No jump word starts inside a word. -/
theorem rewrite_word {word : List Char} (h : ∀ c ∈ word, Text.isWord c = true) (rest : List Char) :
    m.rewrite true (word ++ rest) = do return word ++ (← m.rewrite true rest) := by
  induction word with
  | nil => simp
  | cons c word ih =>
    rw [List.forall_mem_cons] at h
    rw [List.cons_append, rewrite_cons (.inl rfl), h.1, ih h.2]
    simp

/-- A jump word lets one expect a target. -/
theorem rewrite_jumpWord {word rest : List Char} (hword : IsJumpWord word)
    (hrest : ∀ c ∈ rest.head?, Text.isDecimalDigit c = false) :
    m.rewrite false (word ++ rest) = do return word ++ (← m.resume .target true rest) := by
  by_cases hleads : leadsToTarget rest = true
  · have hblank : rest.head?.any Text.isBlank = true := by
      cases rest with
      | nil => cases hleads
      | cons b rest =>
        refine Bool.eq_true_of_not_eq_false fun hb ↦ ?_
        have hb : ¬ Text.isBlank b = true := Bool.eq_false_iff.1 hb
        rw [leadsToTarget, List.dropWhile_cons_of_neg hb] at hleads
        have hb : Text.isDecimalDigit b = true := hleads
        rw [hrest b rfl] at hb
        cases hb
    have hjump := jump?_append hword rest
    rw [hblank, hleads, Bool.and_true, if_pos rfl] at hjump
    rw [rewrite_jump hjump, resume, if_pos hleads]
    simp [rewriteTargets]
  · have hjump := jump?_append hword rest
    rw [Bool.eq_false_iff.2 hleads, Bool.and_false, if_neg Bool.false_ne_true] at hjump
    rw [resume, if_neg hleads]
    cases word with
    | nil => exact absurd rfl hword.ne_nil
    | cons c word =>
      have hletters := fun d hd ↦ (of_isJumpLetter (hword.isJumpLetter d hd)).1
      have hjump : jump? (c :: (word ++ rest)) = none := hjump
      rw [List.forall_mem_cons] at hletters
      rw [List.cons_append, rewrite_cons (.inr hjump), hletters.1, rewrite_word hletters.2]
      simp

/-- Rewriting takes a part off the start of a text, which it leaves alone unless it is a target.  It
does so in the same way if the text ends here or goes on with a quote. -/
theorem exists_resume_step (awaited : Awaited) (inWord : Bool) (c : Char) (cs : List Char) :
    ∃ front rest awaited' inWord' new, c :: cs = front ++ rest ∧ front ≠ [] ∧
      (new = .ok front ∨
        awaited = .target ∧ Text.isDecimalDigit c = true ∧ new = m.part (.numeral front)) ∧
      ∀ tail : List Char, (∀ d ∈ tail.head?, d = '"') →
        m.resume awaited inWord (c :: (cs ++ tail)) = do
          let new ← new
          return new ++ (← m.resume awaited' inWord' (rest ++ tail)) := by
  by_cases hblank : Text.isBlank c = true
  · exact ⟨[c], cs, awaited, false, _, rfl, by simp, .inl rfl, fun _ _ ↦ resume_blank hblank _⟩
  by_cases hcomma : awaited = .comma ∧ c = ','
  · obtain ⟨rfl, rfl⟩ := hcomma
    exact ⟨[','], cs, .target, false, _, rfl, by simp, .inl rfl, fun _ _ ↦ resume_comma⟩
  by_cases htarget : awaited = .target ∧ Text.isDecimalDigit c = true
  · obtain ⟨rfl, hdigit⟩ := htarget
    obtain ⟨digits, rest, hsplit, hdigits, hstop⟩ := exists_run Text.isDecimalDigit (c :: cs)
    have hne : digits ≠ [] := by
      rintro rfl
      rw [List.nil_append] at hsplit
      rw [hstop c (by rw [← hsplit, List.head?_cons, Option.mem_def])] at hdigit
      cases hdigit
    refine ⟨digits, rest, .comma, true, _, hsplit, hne, .inr ⟨rfl, hdigit, rfl⟩,
      fun tail htail ↦ ?_⟩
    have hstop : ∀ d ∈ (rest ++ tail).head?, Text.isDecimalDigit d = false := by
      cases rest with
      | nil => exact fun d hd ↦ htail d hd ▸ rfl
      | cons e rest => exact hstop
    rw [← List.cons_append, hsplit, List.append_assoc, resume_target hne hdigits hstop]
  have hother : ∀ tail, m.resume awaited inWord (c :: (cs ++ tail)) =
      m.rewrite inWord (c :: (cs ++ tail)) := fun tail ↦
    resume_other (Bool.eq_false_iff.2 hblank)
      (fun h ↦ Bool.eq_false_iff.2 fun hdigit ↦ htarget ⟨h, hdigit⟩)
      (fun h heq ↦ hcomma ⟨h, heq⟩)
  by_cases hjump : inWord = false ∧ (jump? (c :: cs)).isSome = true
  · obtain ⟨rfl, hjump⟩ := hjump
    obtain ⟨word, b, more, hsplit, hword, hb, -⟩ := isSome_jump?_iff.1 hjump
    refine ⟨word, b :: more, .target, true, _, hsplit, hword.ne_nil, .inl rfl, fun tail _ ↦ ?_⟩
    have hdigit : ∀ d ∈ (b :: more ++ tail).head?, Text.isDecimalDigit d = false :=
      fun d hd ↦ Option.some.inj hd ▸ (of_isBlank hb).2
    rw [hother, ← List.cons_append, hsplit, List.append_assoc, rewrite_jumpWord hword hdigit]
    rfl
  · refine ⟨[c], cs, .nothing, Text.isWord c, _, rfl, by simp, .inl rfl, fun tail htail ↦ ?_⟩
    have hnone : inWord = true ∨ jump? (c :: (cs ++ tail)) = none := by
      cases inWord with
      | true => exact .inl rfl
      | false =>
        refine .inr (Option.not_isSome_iff_eq_none.1 fun hsome ↦ hjump ⟨rfl, ?_⟩)
        rwa [← List.cons_append, isSome_jump?_append htail] at hsome
    rw [hother, rewrite_cons hnone]
    rfl

/-- What becomes of a text is what becomes of a part of it, and of the rest. -/
theorem exists_of_resume_cons {awaited : Awaited} {c : Char} {ds : List Char}
    (h : m.resume awaited inWord (c :: cs) = .ok ds) :
    ∃ front rest awaited' inWord' new after, c :: cs = front ++ rest ∧ front ≠ [] ∧
      ds = new ++ after ∧ m.resume awaited' inWord' rest = .ok after ∧
      (new = front ∨ awaited = .target ∧ Text.isDecimalDigit c = true ∧
        m.part (.numeral front) = .ok new) := by
  obtain ⟨front, rest, awaited', inWord', turn, hsplit, hne, hturn, hstep⟩ :=
    exists_resume_step (m := m) awaited inWord c cs
  have hstep := hstep [] nofun
  rw [List.append_nil, List.append_nil, h] at hstep
  obtain ⟨new, hnew, hstep⟩ := bind_eq_ok.1 hstep.symm
  obtain ⟨after, hafter, hstep⟩ := bind_eq_ok.1 hstep
  cases hstep
  refine ⟨front, rest, _, _, new, after, hsplit, hne, rfl, hafter, hturn.imp (fun hturn ↦ ?_) ?_⟩
  · rw [hturn] at hnew
    exact (Except.ok.inj hnew).symm
  · rintro ⟨htarget, hdigit, rfl⟩
    exact ⟨htarget, hdigit, hnew⟩

theorem length_lt_of_eq_append {front rest : List Char} (hne : front ≠ []) (h : cs = front ++ rest) :
    rest.length < cs.length := by
  have := List.length_pos_of_ne_nil hne
  simp only [h, List.length_append]
  omega

/-! ## What is left alone -/

/-- Without a reference that starts in it, a text is left as it is. -/
theorem rewrite_append {text rest : List Char} (h : hasReference inWord text rest = false) :
    ∃ inWord', m.rewrite inWord (text ++ rest) = do return text ++ (← m.rewrite inWord' rest) := by
  induction text generalizing inWord with
  | nil => exact ⟨inWord, by simp⟩
  | cons c text ih =>
    obtain ⟨hc, htext⟩ := Bool.or_eq_false_iff.1 h
    obtain ⟨inWord', hrewrite⟩ := ih htext
    have hnone : inWord = true ∨ jump? (c :: (text ++ rest)) = none := by
      cases inWord with
      | true => exact .inl rfl
      | false => exact .inr (Option.not_isSome_iff_eq_none.1 (Bool.eq_false_iff.1 hc))
    refine ⟨inWord', ?_⟩
    rw [List.cons_append, rewrite_cons hnone, hrewrite]
    simp

theorem quote_notMem_part {part : TargetPart} {new : List Char} (h : m.part part = .ok new)
    (hpart : '"' ∉ part.text) : '"' ∉ new := by
  cases part with
  | between text => exact Except.ok.inj h ▸ hpart
  | numeral digits =>
    obtain ⟨n, -, h⟩ := bind_eq_ok.1 h
    split at h
    · cases h
      intro hmem
      cases Numeral.isDigit_of_mem_digits hmem
    · cases h
      exact hpart

/-- What becomes of a text without quotes has none. -/
theorem quote_notMem_resume {awaited : Awaited} {body ds : List Char} (hbody : '"' ∉ body)
    (h : m.resume awaited inWord body = .ok ds) : '"' ∉ ds := by
  induction hn : body.length using Nat.strong_induction_on generalizing awaited inWord body ds with
  | h n ih =>
    subst hn
    cases body with
    | nil =>
      rw [resume_nil] at h
      exact Except.ok.inj h ▸ hbody
    | cons c body =>
      obtain ⟨front, rest, awaited', inWord', new, after, hsplit, hne, rfl, hafter, hnew⟩ :=
        exists_of_resume_cons h
      have hlt := length_lt_of_eq_append hne hsplit
      rw [hsplit, List.mem_append, not_or] at hbody
      rw [List.mem_append, not_or]
      refine ⟨?_, ih _ hlt hbody.2 hafter rfl⟩
      obtain rfl | ⟨-, -, hnew⟩ := hnew
      · exact hbody.1
      · exact quote_notMem_part hnew hbody.1

/-- A text is rewritten up to a quote as if it ended there, and from there on anew. -/
theorem resume_quote (awaited : Awaited) (inWord : Bool) (body cs : List Char) :
    m.resume awaited inWord (body ++ '"' :: cs) = do
      let new ← m.resume awaited inWord body
      return new ++ '"' :: (← m.rewrite false cs) := by
  induction hn : body.length using Nat.strong_induction_on generalizing awaited inWord body with
  | h n ih =>
    subst hn
    cases body with
    | nil =>
      have hquote : Text.isWord '"' = false := by decide +kernel
      rw [List.nil_append, resume_other rfl (fun _ ↦ rfl) (fun _ ↦ by decide),
        rewrite_cons (.inr (jump?_cons_eq_none rfl)), hquote, resume_nil]
      rfl
    | cons c body =>
      obtain ⟨front, rest, awaited', inWord', turn, hsplit, hne, -, hstep⟩ :=
        exists_resume_step (m := m) awaited inWord c body
      have hhere := hstep [] nofun
      rw [List.append_nil, List.append_nil] at hhere
      have hthere := hstep ('"' :: cs) fun d hd ↦ (Option.some.inj hd).symm
      rw [ih _ (length_lt_of_eq_append hne hsplit) _ _ _ rfl] at hthere
      rw [List.cons_append, hthere, hhere]
      simp

/-- What becomes of a quoted text: it is rewritten like a text of its own, and stays the same if it
has no reference. -/
theorem exists_of_rewrite_quoted {body ds : List Char} (hbody : '"' ∉ body)
    (h : m.rewrite false (body ++ '"' :: cs) = .ok ds) :
    ∃ body' ds', ds = body' ++ '"' :: ds' ∧ '"' ∉ body' ∧ m.rewrite false cs = .ok ds' ∧
      m.rewrite false body = .ok body' ∧ (hasReference false body [] = false → body' = body) := by
  have h : m.resume .nothing false (body ++ '"' :: cs) = .ok ds := h
  rw [resume_quote] at h
  obtain ⟨body', hbody', h⟩ := bind_eq_ok.1 h
  obtain ⟨ds', hds', h⟩ := bind_eq_ok.1 h
  cases h
  refine ⟨body', ds', rfl, quote_notMem_resume hbody hbody', hds', hbody', fun hnone ↦ ?_⟩
  obtain ⟨inWord', hrewrite⟩ := rewrite_append (m := m) hnone
  have hbody' : m.rewrite false body = .ok body' := hbody'
  rw [List.append_nil, hbody', rewrite_nil] at hrewrite
  cases hrewrite
  exact List.append_nil _

/-- Whether a word runs into a text makes no difference if no jump starts it. -/
theorem resume_congr (h : jump? cs = none) (awaited : Awaited) (inWord inWord' : Bool) :
    m.resume awaited inWord cs = m.resume awaited inWord' cs := by
  have hrewrite : m.rewrite inWord cs = m.rewrite inWord' cs := by
    cases cs with
    | nil => rfl
    | cons c cs => rw [rewrite_cons (.inr h), rewrite_cons (.inr h)]
  cases awaited with
  | nothing => exact hrewrite
  | target => rw [resume, resume, hrewrite]
  | comma => rw [resume, resume, hrewrite]

/-- What becomes of a text has its first character, unless that starts a target. -/
theorem head?_resume {awaited : Awaited} {ds : List Char} (h : m.resume awaited inWord cs = .ok ds)
    (hdigit : awaited = .target → ∀ c ∈ cs.head?, Text.isDecimalDigit c = false) :
    ds.head? = cs.head? := by
  cases cs with
  | nil =>
    rw [resume_nil] at h
    exact Except.ok.inj h ▸ rfl
  | cons c cs =>
    obtain ⟨front, rest, awaited', inWord', new, after, heq, hne, rfl, -, rfl | hnew⟩ :=
      exists_of_resume_cons h
    · rw [heq, List.head?_append_of_ne_nil _ hne, List.head?_append_of_ne_nil _ hne]
    · obtain ⟨htarget, hc, -⟩ := hnew
      rw [hdigit htarget c rfl] at hc
      cases hc

end Renumbering

end LineBasic.Program
