import LineBasic.Proofs.Program.Renumbering

/-!
# Renumbering as a renaming

A text is divided into references and single characters: a reference is found as far to the left as
there is one, has as many targets as there are, and no word runs into it.  Renumbering renames all
targets of the references at once and leaves everything else as it is, so that what comes of it is
divided in the same way.  A target that names no line stays as it is written.

A target that is too long to be read makes renumbering fail, also if it names no line.

* `IsTargetList`, `StartsReference`, `Passage`, `Divides` — how a text is divided.
* `exists_divides`, `Divides.unique` — there is one way to divide a text.
* `Passage.rename` — what becomes of the targets.
* `Divides.rename` — a text with other targets is divided as before.
* `renumber_renames` — what renumbering does to a program.
-/

set_option autoImplicit false
namespace LineBasic.Program

/-! ## Lists of targets -/

/-- What may stand between two targets. -/
def IsGap (cs : List Char) : Prop :=
  ∃ before after, cs = before ++ ',' :: after ∧ (∀ c ∈ before, Text.isBlank c = true) ∧
    ∀ c ∈ after, Text.isBlank c = true

/-- A list of targets goes on if another target follows. -/
def GoesOn (cs : List Char) : Prop :=
  ∃ gap d rest, cs = gap ++ d :: rest ∧ IsGap gap ∧ Text.isDecimalDigit d = true

/-- All targets that stand in a list, and the text behind them. -/
inductive IsTargetList : List TargetPart → List Char → Prop
  | last {digits rest : List Char} (hne : digits ≠ [])
      (hdigits : ∀ c ∈ digits, Text.isDecimalDigit c = true)
      (hstop : ∀ c ∈ rest.head?, Text.isDecimalDigit c = false) (hend : ¬ GoesOn rest) :
      IsTargetList [.numeral digits] rest
  | more {digits gap rest : List Char} {parts : List TargetPart} (hne : digits ≠ [])
      (hdigits : ∀ c ∈ digits, Text.isDecimalDigit c = true) (hgap : IsGap gap)
      (h : IsTargetList parts rest) :
      IsTargetList (.numeral digits :: .between gap :: parts) rest

section
variable {cs digits gap rest : List Char} {parts : List TargetPart}

theorem IsGap.ne_nil (h : IsGap gap) : gap ≠ [] := by
  obtain ⟨before, after, rfl, -, -⟩ := h
  simp

theorem IsGap.not_isJumpLetter (h : IsGap gap) : ∀ c ∈ gap, isJumpLetter c = false := by
  obtain ⟨before, after, rfl, hbefore, hafter⟩ := h
  refine List.forall_mem_append.2 ⟨fun c hc ↦ isJumpLetter_of_isBlank (hbefore c hc),
    List.forall_mem_cons.2 ⟨rfl, fun c hc ↦ isJumpLetter_of_isBlank (hafter c hc)⟩⟩

theorem IsGap.not_isDecimalDigit (h : IsGap gap) : ∀ c ∈ gap, Text.isDecimalDigit c = false := by
  obtain ⟨before, after, rfl, hbefore, hafter⟩ := h
  refine List.forall_mem_append.2 ⟨fun c hc ↦ (of_isBlank (hbefore c hc)).2,
    List.forall_mem_cons.2 ⟨rfl, fun c hc ↦ (of_isBlank (hafter c hc)).2⟩⟩

theorem not_isBlank_of_isDecimalDigit {d : Char} (h : Text.isDecimalDigit d = true) :
    Text.isBlank d = false := Bool.eq_false_iff.2 fun hblank ↦ by
  rw [(of_isBlank hblank).2] at h
  cases h

theorem targetGap_append (hgap : IsGap gap) {d : Char} (hd : Text.isDecimalDigit d = true) :
    targetGap (gap ++ d :: rest) = gap := by
  obtain ⟨before, after, rfl, hbefore, hafter⟩ := hgap
  have hstop : ∀ c ∈ (',' :: (after ++ d :: rest)).head?, Text.isBlank c = false := by
    simp [Text.isBlank]
  have hstop' : ∀ c ∈ (d :: rest).head?, Text.isBlank c = false := by
    simpa using not_isBlank_of_isDecimalDigit hd
  have hsplit : before ++ ',' :: after ++ d :: rest = before ++ ',' :: (after ++ d :: rest) := by
    simp
  have hdrop := dropWhile_append_of_stop hbefore hstop
  have hleads : leadsToTarget (after ++ d :: rest) = true := by
    rw [leadsToTarget, dropWhile_append_of_stop hafter hstop']
    exact hd
  rw [hsplit, targetGap_of_comma hdrop, if_pos hleads, takeWhile_append_of_stop hbefore hstop,
    takeWhile_append_of_stop hafter hstop']

theorem isGap_targetGap (h : targetGap cs ≠ []) : IsGap (targetGap cs) := by
  by_cases hcomma : ∃ rest, cs.dropWhile Text.isBlank = ',' :: rest
  · obtain ⟨rest, hrest⟩ := hcomma
    rw [targetGap_of_comma hrest] at h ⊢
    split
    · exact ⟨_, _, rfl, fun c ↦ List.mem_takeWhile_imp, fun c ↦ List.mem_takeWhile_imp⟩
    · rename_i hleads
      exact absurd (if_neg hleads) h
  · refine absurd (targetGap_of_ne_comma fun c hc heq ↦ hcomma ?_) h
    obtain ⟨rest, hrest⟩ := List.head?_eq_some_iff.1 hc
    exact ⟨rest, heq ▸ hrest⟩

theorem targetGap_eq_nil_iff : targetGap cs = [] ↔ ¬ GoesOn cs := by
  constructor
  · rintro hnil ⟨gap, d, rest, rfl, hgap, hd⟩
    exact hgap.ne_nil ((targetGap_append hgap hd).symm.trans hnil)
  · intro hend
    by_contra hne
    have happend := List.prefix_iff_eq_append.1 (isPrefix_targetGap cs)
    have hdigit := head?_drop_targetGap hne
    obtain ⟨d, hd, hdigit⟩ := (Option.any_eq_true _ _).1 hdigit
    obtain ⟨rest, hrest⟩ := List.head?_eq_some_iff.1 hd
    exact hend ⟨targetGap cs, d, rest, hrest ▸ happend.symm, isGap_targetGap hne, hdigit⟩

/-- A list of targets starts with a digit. -/
theorem IsTargetList.exists_digit (h : IsTargetList parts rest) : ∃ d after,
    parts.flatMap TargetPart.text ++ rest = d :: after ∧ Text.isDecimalDigit d = true := by
  have hfirst {digits more : List Char} (hne : digits ≠ [])
      (hdigits : ∀ c ∈ digits, Text.isDecimalDigit c = true) : ∃ d after,
      digits ++ more = d :: after ∧ Text.isDecimalDigit d = true := by
    obtain ⟨d, after, rfl⟩ := List.exists_cons_of_ne_nil hne
    exact ⟨d, after ++ more, rfl, hdigits d (List.mem_cons_self ..)⟩
  cases h with
  | last hne hdigits =>
    rw [List.flatMap_cons, List.append_assoc]
    exact hfirst hne hdigits
  | more hne hdigits =>
    rw [List.flatMap_cons, List.append_assoc]
    exact hfirst hne hdigits

/-- The targets of a list are found. -/
theorem IsTargetList.targetsWithin (h : IsTargetList parts rest) {rounds : Nat}
    (hrounds : (parts.flatMap TargetPart.text ++ rest).length ≤ rounds) :
    targetsWithin rounds (parts.flatMap TargetPart.text ++ rest) = (parts, rest) := by
  induction h generalizing rounds with
  | @last digits rest hne hdigits hstop hend =>
    obtain ⟨rounds, rfl⟩ := Nat.exists_eq_add_one_of_ne_zero (n := rounds) <| by
      rintro rfl
      simp [TargetPart.text, hne] at hrounds
    rw [List.flatMap_singleton, TargetPart.text, targetsWithin_succ rounds hdigits hstop,
      if_pos (targetGap_eq_nil_iff.2 hend)]
  | @more digits gap rest parts hne hdigits hgap h ih =>
    obtain ⟨d, after, hafter, hd⟩ := h.exists_digit
    have htext : (TargetPart.numeral digits :: .between gap :: parts).flatMap TargetPart.text ++
        rest = digits ++ (gap ++ (parts.flatMap TargetPart.text ++ rest)) := by
      simp [TargetPart.text]
    rw [htext] at hrounds ⊢
    obtain ⟨rounds, rfl⟩ := Nat.exists_eq_add_one_of_ne_zero (n := rounds) <| by
      rintro rfl
      simp [hne] at hrounds
    have hlength : 0 < digits.length := List.length_pos_of_ne_nil hne
    have hfound : Program.targetsWithin rounds (parts.flatMap TargetPart.text ++ rest) =
        (parts, rest) := ih (by simp only [List.length_append] at hrounds ⊢; omega)
    have hstop : ∀ c ∈ (gap ++ (parts.flatMap TargetPart.text ++ rest)).head?,
        Text.isDecimalDigit c = false := by
      rw [List.head?_append_of_ne_nil _ hgap.ne_nil]
      exact fun c hc ↦ hgap.not_isDecimalDigit c (List.mem_of_mem_head? hc)
    have hgap' : targetGap (gap ++ (parts.flatMap TargetPart.text ++ rest)) = gap :=
      hafter ▸ targetGap_append hgap hd
    rw [targetsWithin_succ rounds hdigits hstop, hgap', if_neg hgap.ne_nil, List.drop_left, hfound]

theorem IsTargetList.isDecimalDigit (h : IsTargetList parts rest) (hmem : .numeral digits ∈ parts) :
    ∀ c ∈ digits, Text.isDecimalDigit c = true := by
  have hfound : (Program.targetsWithin _ _).1 = parts :=
    congrArg Prod.fst (h.targetsWithin (Nat.le_refl _))
  rw [← hfound] at hmem
  exact isDecimalDigit_of_targetsWithin hmem

/-- What is found behind a digit is a list of targets. -/
theorem isTargetList_targetsWithin {rounds : Nat} (hcs : cs.head?.any Text.isDecimalDigit = true)
    (hrounds : cs.length ≤ rounds) :
    IsTargetList (targetsWithin rounds cs).1 (targetsWithin rounds cs).2 := by
  induction rounds generalizing cs with
  | zero =>
    cases cs with
    | nil => cases hcs
    | cons c cs => cases hrounds
  | succ rounds ih =>
    obtain ⟨digits, rest, rfl, hdigits, hstop⟩ := exists_run Text.isDecimalDigit cs
    have hne : digits ≠ [] := by
      rintro rfl
      obtain ⟨d, hd, hdigit⟩ := (Option.any_eq_true _ _).1 hcs
      rw [hstop d hd] at hdigit
      cases hdigit
    rw [targetsWithin_succ rounds hdigits hstop]
    by_cases hgap : targetGap rest = []
    · rw [if_pos hgap]
      exact .last hne hdigits hstop (targetGap_eq_nil_iff.1 hgap)
    · rw [if_neg hgap]
      have hlength : 0 < digits.length := List.length_pos_of_ne_nil hne
      have hdrop : (rest.drop (targetGap rest).length).length ≤ rounds := by
        simp only [List.length_append, List.length_drop] at hrounds ⊢
        omega
      exact .more hne hdigits (isGap_targetGap hgap) (ih (head?_drop_targetGap hgap) hdrop)

end

/-! ## Dividing a text -/

/-- What a text is divided into: references, each with what leads to its targets, and characters. -/
inductive Passage where
  | plain (c : Char)
  | reference (lead : List Char) (parts : List TargetPart)

namespace Passage

/-- The characters of a passage. -/
def text : Passage → List Char
  | plain c => [c]
  | reference lead parts => lead ++ parts.flatMap TargetPart.text

/-- Whether all targets of a passage are short enough to be read. -/
def IsShort : Passage → Prop
  | plain _ => True
  | reference _ parts => ∀ digits, .numeral digits ∈ parts → digits.length ≤ Numeral.digitLimit

end Passage

/-- What leads to the targets of a reference: a jump word and blanks. -/
def IsLead (cs : List Char) : Prop :=
  ∃ word blanks, cs = word ++ blanks ∧ IsJumpWord word ∧ blanks ≠ [] ∧
    ∀ c ∈ blanks, Text.isBlank c = true

/-- Whether a text starts with a reference: a jump word, a blank, and what leads to a target. -/
def StartsReference (cs : List Char) : Prop :=
  ∃ word b rest, cs = word ++ b :: rest ∧ IsJumpWord word ∧ Text.isBlank b = true ∧
    leadsToTarget rest = true

/-- How a text is divided, from left to right: at each place there is a reference if one can be
there, with all targets of its list, and else a character.  A jump word counts only where no word
runs into it, which `inWord` tells of the start; a target is the end of a word. -/
inductive Divides : (inWord : Bool) → List Char → List Passage → Prop
  | nil {inWord : Bool} : Divides inWord [] []
  | reference {lead rest : List Char} {parts : List TargetPart} {passages : List Passage}
      (hlead : IsLead lead) (hparts : IsTargetList parts rest) (h : Divides true rest passages) :
      Divides false (lead ++ (parts.flatMap TargetPart.text ++ rest))
        (.reference lead parts :: passages)
  | plain {inWord : Bool} {c : Char} {cs : List Char} {passages : List Passage}
      (hnone : inWord = true ∨ ¬ StartsReference (c :: cs))
      (h : Divides (Text.isWord c) cs passages) : Divides inWord (c :: cs) (.plain c :: passages)

section
variable {inWord : Bool} {cs lead rest : List Char} {parts : List TargetPart}
  {passages passages' : List Passage}

/-- A reference at the start of a text is found. -/
theorem jump?_reference (hlead : IsLead lead) (hparts : IsTargetList parts rest) :
    jump? (lead ++ (parts.flatMap TargetPart.text ++ rest)) = some (lead, parts, rest) := by
  obtain ⟨word, blanks, rfl, hword, hne, hblanks⟩ := hlead
  obtain ⟨d, after, hafter, hd⟩ := hparts.exists_digit
  have hstop : ∀ c ∈ (parts.flatMap TargetPart.text ++ rest).head?, Text.isBlank c = false := by
    rw [hafter]
    simpa using not_isBlank_of_isDecimalDigit hd
  have hhead : (blanks ++ (parts.flatMap TargetPart.text ++ rest)).head?.any Text.isBlank =
      true := by
    obtain ⟨b, more, rfl⟩ := List.exists_cons_of_ne_nil hne
    exact hblanks b (List.mem_cons_self ..)
  have hleads : leadsToTarget (blanks ++ (parts.flatMap TargetPart.text ++ rest)) = true := by
    rw [leadsToTarget, dropWhile_append_of_stop hblanks hstop, hafter]
    exact hd
  rw [List.append_assoc, jump?_append hword, hhead, hleads, Bool.and_true, if_pos rfl,
    takeWhile_append_of_stop hblanks hstop, dropWhile_append_of_stop hblanks hstop,
    hparts.targetsWithin (Nat.le_refl _)]

/-- What is found at the start of a text is a reference. -/
theorem exists_reference_of_jump? (h : jump? cs = some (lead, parts, rest)) :
    cs = lead ++ (parts.flatMap TargetPart.text ++ rest) ∧ IsLead lead ∧
      IsTargetList parts rest := by
  refine ⟨(append_of_jump? h).2.symm, ?_⟩
  obtain ⟨word, b, more, rfl, hword, hb, hleads⟩ :=
    isSome_jump?_iff.1 (Option.isSome_iff_exists.2 ⟨_, h⟩)
  have hleads : leadsToTarget (b :: more) = true := (leadsToTarget_cons_blank hb).trans hleads
  rw [jump?_append hword, hleads, Bool.and_true, if_pos (by simpa using hb)] at h
  simp only [Option.some.injEq, Prod.mk.injEq] at h
  obtain ⟨rfl, hfound⟩ := h
  have hlist := isTargetList_targetsWithin hleads (Nat.le_refl _)
  rw [hfound] at hlist
  refine ⟨⟨word, _, rfl, hword, ?_, fun c ↦ List.mem_takeWhile_imp⟩, hlist⟩
  rw [List.takeWhile_cons_of_pos hb]
  exact List.cons_ne_nil _ _

theorem jump?_eq_none_iff : jump? cs = none ↔ ¬ StartsReference cs := by
  rw [← Option.not_isSome_iff_eq_none, isSome_jump?_iff]
  rfl

/-- Every text can be divided, by induction on its length. -/
theorem exists_divides (inWord : Bool) (cs : List Char) :
    ∃ passages, Divides inWord cs passages := by
  induction hn : cs.length using Nat.strong_induction_on generalizing inWord cs with
  | _ n ih =>
    subst hn
    cases cs with
    | nil => exact ⟨[], .nil⟩
    | cons c cs =>
      by_cases hnone : inWord = true ∨ jump? (c :: cs) = none
      · obtain ⟨passages, h⟩ := ih cs.length (Nat.lt_succ_self _) (Text.isWord c) cs rfl
        exact ⟨_, .plain (hnone.imp_right jump?_eq_none_iff.1) h⟩
      · obtain ⟨hword, hsome⟩ := not_or.1 hnone
        obtain ⟨⟨lead, parts, rest⟩, hjump⟩ := Option.ne_none_iff_exists'.1 hsome
        obtain ⟨passages, h⟩ := ih rest.length (Renumbering.length_lt_of_jump? hjump) true rest rfl
        obtain ⟨heq, hlead, hparts⟩ := exists_reference_of_jump? hjump
        rw [heq, Bool.eq_false_iff.2 hword]
        exact ⟨_, .reference hlead hparts h⟩

/-- What a division starts with. -/
theorem Divides.first (h : Divides inWord cs passages) :
    (cs = [] ∧ passages = []) ∨
    (∃ lead parts rest after, inWord = false ∧ jump? cs = some (lead, parts, rest) ∧
      passages = .reference lead parts :: after ∧ Divides true rest after) ∨
    ∃ c rest after, cs = c :: rest ∧ (inWord = true ∨ jump? cs = none) ∧
      passages = .plain c :: after ∧ Divides (Text.isWord c) rest after := by
  cases h with
  | nil => exact .inl ⟨rfl, rfl⟩
  | reference hlead hparts h =>
    exact .inr (.inl ⟨_, _, _, _, rfl, jump?_reference hlead hparts, rfl, h⟩)
  | plain hnone h =>
    exact .inr (.inr ⟨_, _, _, rfl, hnone.imp_right jump?_eq_none_iff.2, rfl, h⟩)

/-- A text is divided in one way only. -/
theorem Divides.unique (h : Divides inWord cs passages) (h' : Divides inWord cs passages') :
    passages = passages' := by
  induction h generalizing passages' with
  | nil =>
    obtain ⟨-, rfl⟩ | ⟨_, _, _, _, -, hjump, -⟩ | ⟨_, _, _, hcons, -⟩ := h'.first
    · rfl
    · cases hjump
    · cases hcons
  | reference hlead hparts _ ih =>
    have hfound := jump?_reference hlead hparts
    obtain ⟨hnil, -⟩ | ⟨_, _, _, _, -, hjump, rfl, h'⟩ | ⟨_, _, _, -, hnone | hnone, -⟩ := h'.first
    · rw [hnil] at hfound
      cases hfound
    · cases hfound.symm.trans hjump
      rw [ih h']
    · cases hnone
    · cases hfound.symm.trans hnone
  | plain hnone _ ih =>
    obtain ⟨hnil, -⟩ | ⟨_, _, _, _, hword, hjump, -⟩ | ⟨_, _, _, hcons, -, rfl, h'⟩ := h'.first
    · cases hnil
    · obtain heq | hnone := hnone
      · cases heq.symm.trans hword
      · cases (jump?_eq_none_iff.2 hnone).symm.trans hjump
    · cases hcons
      rw [ih h']

/-- The passages put together are the text. -/
theorem Divides.flatMap_text (h : Divides inWord cs passages) :
    passages.flatMap Passage.text = cs := by
  induction h with
  | nil => rfl
  | reference _ _ _ ih => rw [List.flatMap_cons, ih, Passage.text, List.append_assoc]
  | plain _ _ ih => rw [List.flatMap_cons, ih, Passage.text, List.singleton_append]

end

/-! ## Renaming -/

/-- A part of a list of targets with its target renamed, if that has a new number. -/
def TargetPart.rename (m : Renumbering) : TargetPart → TargetPart
  | between text => between text
  | numeral digits => match (Text.digitsValue? digits).bind m.find? with
    | some new => numeral (toString new).toList
    | none => numeral digits

namespace Passage

/-- A passage with all its targets renamed. -/
def rename (m : Renumbering) : Passage → Passage
  | plain c => plain c
  | reference lead parts => reference lead (parts.map (TargetPart.rename m))

end Passage

section
variable {m : Renumbering} {inWord : Bool} {cs ds rest : List Char} {parts : List TargetPart}
  {passages : List Passage}

theorem lineNumber_eq_ok_iff {digits : List Char} {n : Nat} : lineNumber digits = .ok n ↔
    digits.length ≤ Numeral.digitLimit ∧ Text.digitsValue? digits = some n := by
  rw [lineNumber, ← Nat.not_lt]
  split
  · simp [*]
  · cases Text.digitsValue? digits <;> simp [*]

/-- A target is renamed if and only if it is short enough to be read. -/
theorem part_numeral {digits : List Char} (hdigits : ∀ c ∈ digits, Text.isDecimalDigit c = true) :
    m.part (.numeral digits) = .ok ds ↔
      digits.length ≤ Numeral.digitLimit ∧ ds = ((TargetPart.numeral digits).rename m).text := by
  rw [Renumbering.part, bind_eq_ok]
  constructor
  · rintro ⟨n, hn, h⟩
    obtain ⟨hlength, hvalue⟩ := lineNumber_eq_ok_iff.1 hn
    refine ⟨hlength, ?_⟩
    rw [TargetPart.rename, hvalue, Option.bind_some]
    cases hnew : m.find? n <;> rw [hnew] at h <;> exact (Except.ok.inj h).symm
  · rintro ⟨hlength, rfl⟩
    obtain ⟨n, hn⟩ := exists_lineNumber hdigits hlength
    refine ⟨n, hn, ?_⟩
    rw [TargetPart.rename, (lineNumber_eq_ok_iff.1 hn).2, Option.bind_some]
    cases m.find? n <;> rfl

/-- The targets of a list are renamed if and only if they are short enough to be read. -/
theorem mapM_part (lead : List Char) (h : ∀ digits, .numeral digits ∈ parts →
    ∀ c ∈ digits, Text.isDecimalDigit c = true) {targets : List (List Char)} :
    parts.mapM m.part = .ok targets ↔ (Passage.reference lead parts).IsShort ∧
      targets = parts.map fun part ↦ (part.rename m).text := by
  induction parts generalizing targets with
  | nil => simp [Passage.IsShort, pure, Except.pure, eq_comm]
  | cons part parts ih =>
    have ih := @ih (fun digits hmem ↦ h digits (List.mem_cons_of_mem _ hmem))
    have hshort : (Passage.reference lead (part :: parts)).IsShort ↔
        (Passage.reference lead [part]).IsShort ∧ (Passage.reference lead parts).IsShort := by
      simp only [Passage.IsShort, List.mem_cons, List.not_mem_nil, or_false]
      grind
    have hpart {ds : List Char} : m.part part = .ok ds ↔
        (Passage.reference lead [part]).IsShort ∧ ds = (part.rename m).text := by
      cases part with
      | between text => simp [Passage.IsShort, Renumbering.part, TargetPart.rename,
          TargetPart.text, eq_comm]
      | numeral digits =>
        rw [part_numeral (h digits (List.mem_cons_self ..))]
        simp [Passage.IsShort]
    rw [List.mapM_cons, hshort]
    constructor
    · intro hmap
      obtain ⟨first, hfirst, hmap⟩ := bind_eq_ok.1 hmap
      obtain ⟨more, hmore, hmap⟩ := bind_eq_ok.1 hmap
      obtain ⟨hone, rfl⟩ := hpart.1 hfirst
      obtain ⟨hmany, rfl⟩ := ih.1 hmore
      exact ⟨⟨hone, hmany⟩, (Except.ok.inj hmap).symm⟩
    · rintro ⟨⟨hone, hmany⟩, rfl⟩
      exact bind_eq_ok.2 ⟨_, hpart.2 ⟨hone, rfl⟩, bind_eq_ok.2 ⟨_, ih.2 ⟨hmany, rfl⟩, rfl⟩⟩

/-- The text of passages with their targets renamed. -/
def renamedText (m : Renumbering) (passages : List Passage) : List Char :=
  (passages.map (Passage.rename m)).flatMap Passage.text

/-- A text is renumbered if and only if its targets are short enough to be read, and then what comes
of it are its passages with all targets renamed. -/
theorem Divides.rewrite_eq_ok_iff (h : Divides inWord cs passages) :
    m.rewrite inWord cs = .ok ds ↔
      (∀ p ∈ passages, p.IsShort) ∧ ds = renamedText m passages := by
  induction h generalizing ds with
  | nil => simp [Renumbering.rewrite_nil, renamedText, eq_comm]
  | @reference lead rest parts passages hlead hparts h ih =>
    have hmap := @mapM_part m parts lead (fun digits ↦ hparts.isDecimalDigit)
    have hjoined : renamedText m (.reference lead parts :: passages) =
        lead ++ (parts.map fun part ↦ (part.rename m).text).flatten ++ renamedText m passages := by
      simp [renamedText, Passage.rename, Passage.text, List.flatMap_def, Function.comp_def]
    rw [Renumbering.rewrite_jump (jump?_reference hlead hparts), List.forall_mem_cons, hjoined,
      bind_eq_ok]
    constructor
    · rintro ⟨targets, htargets, hrest⟩
      obtain ⟨after, hafter, hend⟩ := bind_eq_ok.1 hrest
      obtain ⟨hfirst, rfl⟩ := hmap.1 htargets
      obtain ⟨hmore, rfl⟩ := ih.1 hafter
      exact ⟨⟨hfirst, hmore⟩, (Except.ok.inj hend).symm⟩
    · rintro ⟨⟨hfirst, hmore⟩, rfl⟩
      exact ⟨_, hmap.2 ⟨hfirst, rfl⟩, bind_eq_ok.2 ⟨_, ih.2 ⟨hmore, rfl⟩, rfl⟩⟩
  | @plain inWord c cs passages hnone h ih =>
    have hshort : (Passage.plain c).IsShort := trivial
    rw [Renumbering.rewrite_cons (hnone.imp_right jump?_eq_none_iff.2), List.forall_mem_cons,
      bind_eq_ok]
    constructor
    · rintro ⟨after, hafter, hend⟩
      obtain ⟨hmore, rfl⟩ := ih.1 hafter
      exact ⟨⟨hshort, hmore⟩, (Except.ok.inj hend).symm⟩
    · rintro ⟨⟨-, hmore⟩, rfl⟩
      exact ⟨_, ih.2 ⟨hmore, rfl⟩, rfl⟩

/-! ## Renamed texts -/

/-- Whether no reference can start in a text: each letter that a jump word may start with has a word
running into it. -/
def IsQuiet : Bool → List Char → Prop
  | _, [] => True
  | inWord, c :: cs => (inWord = true ∨ isJumpLetter c = false) ∧ IsQuiet (Text.isWord c) cs

theorem isQuiet_of_forall (h : ∀ c ∈ cs, isJumpLetter c = false) (inWord : Bool) :
    IsQuiet inWord cs := by
  induction cs generalizing inWord with
  | nil => trivial
  | cons c cs ih =>
    obtain ⟨hc, hcs⟩ := List.forall_mem_cons.1 h
    exact ⟨.inr hc, ih hcs _⟩

/-- What is behind a jump word's first letter, up to a target. -/
theorem isQuiet_word {word : List Char} (hword : ∀ c ∈ word, Text.isWord c = true)
    (hcs : ∀ c ∈ cs, isJumpLetter c = false) : IsQuiet true (word ++ cs) := by
  induction word with
  | nil => exact isQuiet_of_forall hcs _
  | cons c word ih =>
    obtain ⟨hc, hword⟩ := List.forall_mem_cons.1 hword
    exact ⟨.inl rfl, hc ▸ ih hword⟩

/-- A lead starts with a letter of a jump word. -/
theorem IsLead.exists_letter {lead : List Char} (h : IsLead lead) :
    ∃ c more, lead = c :: more ∧ isJumpLetter c = true := by
  obtain ⟨word, blanks, rfl, hword, -, -⟩ := h
  obtain ⟨c, more, rfl⟩ := List.exists_cons_of_ne_nil hword.ne_nil
  exact ⟨c, more ++ blanks, rfl, hword.isJumpLetter c (List.mem_cons_self ..)⟩

theorem head?_renamedText (m : Renumbering) (h : Divides inWord cs passages) :
    (renamedText m passages).head? = cs.head? := by
  cases h with
  | nil => rfl
  | reference hlead _ _ =>
    obtain ⟨c, more, rfl, -⟩ := hlead.exists_letter
    rfl
  | plain _ _ => rfl

/-- Where no reference starts, the renamed text has the characters of the text. -/
theorem Divides.exists_of_isQuiet (h : Divides inWord cs passages) {quiet after : List Char}
    (hquiet : IsQuiet inWord quiet) (heq : renamedText m passages = quiet ++ after) :
    ∃ rest, cs = quiet ++ rest ∧ rest.head? = after.head? := by
  induction quiet generalizing inWord cs passages with
  | nil =>
    have hhead := head?_renamedText m h
    rw [heq] at hhead
    exact ⟨cs, rfl, hhead.symm⟩
  | cons c quiet ih =>
    cases h with
    | nil => cases heq
    | reference hlead _ _ =>
      obtain ⟨d, more, rfl, hd⟩ := hlead.exists_letter
      obtain rfl := (List.cons.inj heq).1
      obtain hword | hletter := hquiet.1
      · cases hword
      · cases hletter.symm.trans hd
    | plain _ h =>
      obtain ⟨rfl, hmore⟩ := List.cons.inj heq
      obtain ⟨rest, rfl, hrest⟩ := ih h hquiet.2 hmore
      exact ⟨rest, rfl, hrest⟩

/-- A list of targets goes on in the renamed text only if it does in the text. -/
theorem Divides.goesOn (h : Divides inWord cs passages) (hgoes : GoesOn (renamedText m passages)) :
    GoesOn cs := by
  obtain ⟨gap, d, after, heq, hgap, hd⟩ := hgoes
  obtain ⟨rest, rfl, hrest⟩ :=
    h.exists_of_isQuiet (isQuiet_of_forall hgap.not_isJumpLetter _) heq
  obtain ⟨more, rfl⟩ := List.head?_eq_some_iff.1 hrest
  exact ⟨gap, d, more, rfl, hgap, hd⟩

/-- A reference starts at a character of the renamed text only if one starts there in the text. -/
theorem Divides.startsReference {c : Char} (h : Divides (Text.isWord c) cs passages)
    (hstarts : StartsReference (c :: renamedText m passages)) : StartsReference (c :: cs) := by
  obtain ⟨word, b, more, heq, hword, hb, hleads⟩ := hstarts
  obtain ⟨first, word, rfl⟩ := List.exists_cons_of_ne_nil hword.ne_nil
  obtain ⟨rfl, htail⟩ := List.cons.inj heq
  have htail : renamedText m passages =
      word ++ b :: more.takeWhile Text.isBlank ++ more.dropWhile Text.isBlank := by
    rw [htail, List.append_assoc, List.cons_append, List.takeWhile_append_dropWhile]
    rfl
  have hletter := hword.isJumpLetter
  obtain ⟨d, hd, hdigit⟩ := (Option.any_eq_true _ _).1 hleads
  have hquiet : IsQuiet (Text.isWord c) (word ++ b :: more.takeWhile Text.isBlank) := by
    rw [(of_isJumpLetter (hletter c (List.mem_cons_self ..))).1]
    refine isQuiet_word (fun e he ↦ (of_isJumpLetter (hletter e (List.mem_cons_of_mem _ he))).1) ?_
    exact List.forall_mem_cons.2 ⟨isJumpLetter_of_isBlank hb, fun e he ↦
      isJumpLetter_of_isBlank (List.mem_takeWhile_imp he)⟩
  obtain ⟨rest, rfl, hrest⟩ := h.exists_of_isQuiet hquiet htail
  refine ⟨c :: word, b, more.takeWhile Text.isBlank ++ rest, by simp, hword, hb, ?_⟩
  rw [hd] at hrest
  obtain ⟨rest, rfl⟩ := List.head?_eq_some_iff.1 hrest
  rw [leadsToTarget, dropWhile_append_of_stop (fun e ↦ List.mem_takeWhile_imp)
    (by simpa using not_isBlank_of_isDecimalDigit hdigit)]
  exact hdigit

/-- Renamed targets are a list of as many targets. -/
theorem IsTargetList.rename (h : IsTargetList parts rest) {after : List Char}
    (hhead : after.head? = rest.head?) (hgoes : GoesOn after → GoesOn rest) :
    IsTargetList (parts.map (TargetPart.rename m)) after := by
  have hnumeral {digits : List Char} (hne : digits ≠ [])
      (hdigits : ∀ c ∈ digits, Text.isDecimalDigit c = true) : ∃ new, new ≠ [] ∧
      (∀ c ∈ new, Text.isDecimalDigit c = true) ∧
      (TargetPart.numeral digits).rename m = .numeral new := by
    rw [TargetPart.rename]
    cases (Text.digitsValue? digits).bind m.find? with
    | none => exact ⟨digits, hne, hdigits, rfl⟩
    | some n =>
      refine ⟨_, Numeral.digits_ne_nil n, fun c hc ↦ ?_, rfl⟩
      simp [Text.isDecimalDigit, Text.digitValue?, Numeral.isDigit_of_mem_digits hc]
  induction h with
  | last hne hdigits hstop hend =>
    obtain ⟨new, hne, hdigits, hnew⟩ := hnumeral hne hdigits
    rw [List.map_singleton, hnew]
    exact .last hne hdigits (hhead ▸ hstop) (mt hgoes hend)
  | more hne hdigits hgap _ ih =>
    obtain ⟨new, hne, hdigits, hnew⟩ := hnumeral hne hdigits
    rw [List.map_cons, List.map_cons, hnew]
    exact .more hne hdigits hgap (ih hhead hgoes)

/-- A text with its targets renamed is divided into the renamed passages. -/
theorem Divides.rename (h : Divides inWord cs passages) :
    Divides inWord (renamedText m passages) (passages.map (Passage.rename m)) := by
  induction h with
  | nil => exact .nil
  | @reference lead rest parts passages hlead hparts h ih =>
    have hparts' := @IsTargetList.rename m _ _ hparts _ (head?_renamedText m h) h.goesOn
    have htext : renamedText m (.reference lead parts :: passages) = lead ++
        ((parts.map (TargetPart.rename m)).flatMap TargetPart.text ++ renamedText m passages) := by
      simp [renamedText, Passage.rename, Passage.text]
    rw [htext, List.map_cons]
    exact .reference hlead hparts' ih
  | plain hnone h ih => exact .plain (hnone.imp_right (mt h.startsReference)) ih

/-! ### Lengths of targets -/

theorem length_toString_le {n limit : Nat} (h : n < 10 ^ limit) (hlimit : 0 < limit) :
    (toString n).toList.length ≤ limit := by
  rw [String.length_toList, Nat.toString_eq_ofList_toDigits, String.length_ofList,
    Nat.length_toDigits_le_iff (by decide) hlimit]
  exact h

/-- New numbers that are short enough keep all targets short. -/
theorem Passage.IsShort.rename {p : Passage} (h : p.IsShort)
    (hm : ∀ n new, m.find? n = some new → new < 10 ^ Numeral.digitLimit) :
    (p.rename m).IsShort := by
  cases p with
  | plain c => trivial
  | reference lead parts =>
    intro digits hmem
    obtain ⟨part, hpart, heq⟩ := List.mem_map.1 hmem
    cases part with
    | between text => cases heq
    | numeral old =>
      rw [TargetPart.rename] at heq
      split at heq
      · rename_i new hnew
        cases heq
        obtain ⟨n, -, hn⟩ := Option.bind_eq_some_iff.1 hnew
        exact length_toString_le (hm n new hn) (by decide)
      · cases heq
        exact h _ hpart

end

/-! ## Programs -/

/-- Whether all targets of a text are short enough to be read. -/
def HasShortTargets (s : String) : Prop :=
  ∀ passages, Divides false s.toList passages → ∀ p ∈ passages, p.IsShort

/-- The numbers of the lines of a renumbered program. -/
def newNumbers (count : Nat) : List Nat :=
  (List.range count).map fun k ↦ 10 * (k + 1)

section
variable {m : Renumbering} {p q : Program} {s t : String}

theorem text_eq_ok_iff {passages : List Passage} (h : Divides false s.toList passages) :
    m.text s = .ok t ↔
      (∀ passage ∈ passages, passage.IsShort) ∧ t.toList = renamedText m passages := by
  have hwithin : m.within s.length false s.toList = m.rewrite false s.toList := by
    rw [Renumbering.rewrite, String.length_toList]
  rw [Renumbering.text, hwithin, bind_eq_ok]
  constructor
  · rintro ⟨ds, hds, hend⟩
    obtain ⟨hshort, rfl⟩ := h.rewrite_eq_ok_iff.1 hds
    cases hend
    exact ⟨hshort, String.toList_ofList⟩
  · rintro ⟨hshort, ht⟩
    refine ⟨t.toList, h.rewrite_eq_ok_iff.2 ⟨hshort, ht⟩, ?_⟩
    rw [String.ofList_toList]
    rfl

theorem exists_text_iff : (∃ t, m.text s = .ok t) ↔ HasShortTargets s := by
  constructor
  · rintro ⟨t, ht⟩ passages h
    exact ((text_eq_ok_iff h).1 ht).1
  · intro hshort
    obtain ⟨passages, h⟩ := exists_divides false s.toList
    exact ⟨_, (text_eq_ok_iff h).2 ⟨hshort passages h, String.toList_ofList⟩⟩

/-- Renumbering succeeds if and only if all targets are short enough to be read. -/
theorem exists_renumber_iff :
    (∃ m q, p.renumber = .ok (m, q)) ↔ ∀ l ∈ p.lines, HasShortTargets l.2 := by
  constructor
  · rintro ⟨m, q, h⟩ l hl
    have hlines := (forall₂_of_renumber h).2.imp fun l l' hl ↦
      And.intro (exists_text_iff.1 ⟨l'.2, hl.2⟩) hl
    exact ((List.forall₂_and_left _ _).1 hlines).1 l hl
  · intro hshort
    obtain ⟨texts, htexts⟩ := exists_mapM fun l hl ↦
      (@exists_text_iff p.renumbering l.2).2 (hshort l hl)
    exact ⟨_, _, by rw [renumber, htexts]; rfl⟩

theorem map_fst_numbered (k : Nat) (texts : List String) : (numbered k texts).map Prod.fst =
    (List.range' k texts.length).map fun i ↦ 10 * (i + 1) := by
  induction texts generalizing k with
  | nil => rfl
  | cons text texts ih =>
    rw [numbered, List.map_cons, ih, List.length_cons, List.range'_succ, List.map_cons]
    exact congrArg (· :: _) (by simp only [step]; omega)

theorem map_snd_renumbering (p : Program) :
    p.renumbering.map Prod.snd = newNumbers p.lines.length := by
  refine List.ext_getElem (by simp [renumbering, newNumbers]) fun k hk hk' ↦ ?_
  simp only [renumbering, newNumbers, List.getElem_map, List.getElem_mapIdx, List.getElem_range,
    step]
  omega

theorem map_fst_of_renumber (h : p.renumber = .ok (m, q)) :
    q.lines.map Prod.fst = newNumbers p.lines.length := by
  obtain ⟨texts, htexts, hend⟩ := bind_eq_ok.1 h
  cases hend
  have hlength := (forall₂_of_mapM htexts).length_eq
  rw [map_fst_numbered, newNumbers, hlength, List.range_eq_range']

/-- The old numbers and the new numbers ascend. -/
theorem pairwise_renumbering (p : Program) :
    p.renumbering.Pairwise fun e e' ↦ e.1 < e'.1 ∧ e.2 < e'.2 := by
  have hold : (p.renumbering.map Prod.fst).Pairwise (· < ·) := by
    rw [map_fst_renumbering, List.pairwise_map]
    exact p.ascending
  have hnew : (p.renumbering.map Prod.snd).Pairwise (· < ·) := by
    rw [map_snd_renumbering, newNumbers, List.pairwise_map]
    exact List.pairwise_lt_range.imp fun h ↦ by omega
  exact (List.pairwise_map.1 hold).and (List.pairwise_map.1 hnew)

/-- A text that targets were renamed in has short targets if the new numbers are short. -/
theorem HasShortTargets.of_text (h : m.text s = .ok t)
    (hm : ∀ n new, m.find? n = some new → new < 10 ^ Numeral.digitLimit) : HasShortTargets t := by
  intro passages' h'
  obtain ⟨passages, hs⟩ := exists_divides false s.toList
  obtain ⟨hshort, ht⟩ := (text_eq_ok_iff hs).1 h
  obtain rfl := h'.unique (ht ▸ hs.rename)
  exact List.forall_mem_map.2 fun passage hpassage ↦ (hshort passage hpassage).rename hm

/-- Renumbering again succeeds if the new numbers are short enough to be read. -/
theorem exists_renumber_again (h : p.renumber = .ok (m, q))
    (hcount : 10 * p.lines.length < 10 ^ Numeral.digitLimit) :
    ∃ m' q', q.renumber = .ok (m', q') := by
  obtain ⟨rfl, hlines⟩ := forall₂_of_renumber h
  have hnew : ∀ n new, p.renumbering.find? n = some new → new < 10 ^ Numeral.digitLimit := by
    intro n new hfind
    obtain ⟨e, he, rfl⟩ := Option.map_eq_some_iff.1 hfind
    have hmem := List.mem_map_of_mem (f := Prod.snd) (List.mem_of_find?_eq_some he)
    rw [map_snd_renumbering, newNumbers] at hmem
    obtain ⟨k, hk, heq⟩ := List.mem_map.1 hmem
    have := List.mem_range.1 hk
    omega
  have hshort : List.Forall₂ (fun l' _ ↦ HasShortTargets l'.2 ∧ True) q.lines p.lines :=
    .flip (hlines.imp fun l l' hl ↦ ⟨.of_text hl.2 hnew, trivial⟩)
  exact exists_renumber_iff.2 ((List.forall₂_and_left _ _).1 hshort).1

/-- Renumbering is a renaming of the line numbers that keeps their order.  It succeeds if and only
if all targets are short enough to be read.  Then the lines have the numbers 10, 20, 30 and so on;
each line has the text of the old line in its place, except that the targets that name lines name
them by their new numbers, all at once.  Renumbering again keeps the numbers. -/
theorem renumber_renames (p : Program) :
    ((∃ m q, p.renumber = .ok (m, q)) ↔ ∀ l ∈ p.lines, HasShortTargets l.2) ∧
    ∀ m q, p.renumber = .ok (m, q) →
      m.map Prod.fst = p.lines.map Prod.fst ∧ m.map Prod.snd = newNumbers p.lines.length ∧
      m.Pairwise (fun e e' ↦ e.1 < e'.1 ∧ e.2 < e'.2) ∧
      q.lines.map Prod.fst = newNumbers p.lines.length ∧
      List.Forall₂ (fun l l' ↦ m.find? l.1 = some l'.1 ∧ (Text.IsTidy l.2 → Text.IsTidy l'.2) ∧
        ∃ passages, Divides false l.2.toList passages ∧ l'.2.toList = renamedText m passages ∧
          Divides false l'.2.toList (passages.map (Passage.rename m))) p.lines q.lines ∧
      (∀ m' q', q.renumber = .ok (m', q') → q'.lines.map Prod.fst = q.lines.map Prod.fst) ∧
      (10 * p.lines.length < 10 ^ Numeral.digitLimit → ∃ m' q', q.renumber = .ok (m', q')) := by
  refine ⟨exists_renumber_iff, fun m q h ↦ ?_⟩
  obtain ⟨hm, hlines⟩ := forall₂_of_renumber h
  have hnumbers := map_fst_of_renumber h
  have htexts {s t : String} (ht : m.text s = .ok t) : ∃ passages, Divides false s.toList passages ∧
      t.toList = renamedText m passages ∧
        Divides false t.toList (passages.map (Passage.rename m)) := by
    obtain ⟨passages, hpassages⟩ := exists_divides false s.toList
    have htext := ((text_eq_ok_iff hpassages).1 ht).2
    exact ⟨passages, hpassages, htext, htext ▸ hpassages.rename⟩
  refine ⟨?_, ?_, hm ▸ pairwise_renumbering p, hnumbers, ?_, fun m' q' h' ↦ ?_,
    exists_renumber_again h⟩
  · rw [hm, map_fst_renumbering]
  · rw [hm, map_snd_renumbering]
  · exact hlines.imp fun l l' hl ↦
      ⟨hl.1, fun htidy ↦ Renumbering.isTidy_text htidy hl.2, htexts hl.2⟩
  · rw [map_fst_of_renumber h', hnumbers, hlines.length_eq]

end

/-- A list of targets of which one is the new number of another line, and a target that names no
line. -/
theorem renumber_renames_list : ∃ (p q : Program) (m : Renumbering),
    p.lines = [(2, "GOSUB 20, 2 : GOTO 99"), (20, "RETURN")] ∧
    q.lines = [(10, "GOSUB 20, 10 : GOTO 99"), (20, "RETURN")] ∧ p.renumber = .ok (m, q) ∧
    (∀ l ∈ p.lines, HasShortTargets l.2) ∧ m.map Prod.snd = [10, 20] ∧
    ∃ m' q', q.renumber = .ok (m', q') ∧ q'.lines.map Prod.fst = [10, 20] := by
  let p : Program := ⟨[(2, "GOSUB 20, 2 : GOTO 99"), (20, "RETURN")], by decide⟩
  have hlines : p.renumber.toOption.map (fun found ↦ found.2.lines) =
      some [(10, "GOSUB 20, 10 : GOTO 99"), (20, "RETURN")] := by decide +kernel
  obtain ⟨hshort, hrenames⟩ := renumber_renames p
  cases hq : p.renumber with
  | error mishap =>
    rw [hq] at hlines
    cases hlines
  | ok found =>
    obtain ⟨m, q⟩ := found
    rw [hq] at hlines
    obtain ⟨-, hm, -, hnumbers, -, hagain, hsucceeds⟩ := hrenames m q hq
    have hlimit : 10 * p.lines.length < 10 ^ Numeral.digitLimit := by decide +kernel
    obtain ⟨m', q', hq'⟩ := hsucceeds hlimit
    exact ⟨p, q, m, rfl, Option.some.inj hlines, hq, hshort.1 ⟨m, q, hq⟩, hm, m', q', hq',
      (hagain m' q' hq').trans hnumbers⟩

/-- A text that is a reference with one target. -/
theorem divides_goto {digits : List Char} (hne : digits ≠ [])
    (hdigits : ∀ c ∈ digits, Text.isDecimalDigit c = true) :
    Divides false (['G', 'O', 'T', 'O', ' '] ++ digits)
      [.reference ['G', 'O', 'T', 'O', ' '] [.numeral digits]] := by
  have hlead : IsLead ['G', 'O', 'T', 'O', ' '] :=
    ⟨['G', 'O', 'T', 'O'], [' '], rfl, List.mem_cons_self .., List.cons_ne_nil _ _, by simp; rfl⟩
  have hend : ¬ GoesOn [] := fun ⟨gap, d, rest, heq, _⟩ ↦ by cases gap <;> cases heq
  have hstop : ∀ c ∈ ([] : List Char).head?, Text.isDecimalDigit c = false := by simp
  have h := Divides.reference hlead (.last hne hdigits hstop hend) .nil
  rwa [List.flatMap_singleton, List.append_nil] at h

/-- `GOTO` with a target of so many digits that it cannot be read, and so names no line. -/
theorem not_exists_renumber_goto {digits : List Char}
    (hdigits : ∀ c ∈ digits, Text.isDecimalDigit c = true)
    (hlength : Numeral.digitLimit < digits.length) : ∃ p : Program, p.Reachable ∧
      p.lines = [(10, .ofList (['G', 'O', 'T', 'O', ' '] ++ digits))] ∧
      ¬ ∃ m q, p.renumber = .ok (m, q) := by
  have hne : digits ≠ [] := List.ne_nil_of_length_pos (Nat.zero_lt_of_lt hlength)
  have htidy : Text.IsTidy (.ofList (['G', 'O', 'T', 'O', ' '] ++ digits)) := by
    rw [Text.isTidy_iff, String.toList_ofList, List.getLast?_append_of_ne_nil _ hne]
    exact ⟨List.cons_ne_nil _ _, by simp; rfl, fun c hc ↦
      not_isBlank_of_isDecimalDigit (hdigits c (List.mem_of_mem_getLast? hc))⟩
  have hlines : (empty.storeAt 10 (.ofList (['G', 'O', 'T', 'O', ' '] ++ digits))).lines =
      [(10, .ofList (['G', 'O', 'T', 'O', ' '] ++ digits))] := by
    rw [storeAt, htidy.strip_eq, if_neg (by simp)]
    rfl
  have hreachable : (empty.storeAt 10 (.ofList (['G', 'O', 'T', 'O', ' '] ++ digits))).Reachable :=
    .operate (.store 10 _) .empty rfl
  refine ⟨_, hreachable, hlines, fun hrenumber ↦ ?_⟩
  have hshort := exists_renumber_iff.1 hrenumber
  rw [hlines, List.forall_mem_singleton] at hshort
  rw [HasShortTargets, String.toList_ofList] at hshort
  exact absurd (hshort _ (divides_goto hne hdigits) _ (List.mem_singleton_self _) digits
    (List.mem_singleton_self _)) (Nat.not_le.2 hlength)

/-- `RENUM` fails where a line jumps to `1`, written 4301 times in a row. -/
theorem not_forall_exists_renumber :
    ¬ ∀ p : Program, p.Reachable → ∃ m q, p.renumber = .ok (m, q) := by
  intro hall
  have hdigits : ∀ c ∈ List.replicate 4301 '1', Text.isDecimalDigit c = true := fun c hc ↦ by
    rw [List.eq_of_mem_replicate hc]
    rfl
  have hlength : Numeral.digitLimit < (List.replicate 4301 '1').length := by
    rw [List.length_replicate]
    decide
  obtain ⟨p, hp, -, hfails⟩ := not_exists_renumber_goto hdigits hlength
  exact hfails (hall p hp)

end LineBasic.Program
