import LineBasic.Text.Blank
import LineBasic.Text.Lines
import Mathlib.Data.List.DropRight

/-!
# Lines and words of a text, and the blanks at their ends

What is stripped has no blank at either end, and stripping it again changes nothing.  What is
between the ends of lines has no line end in it, and a text that is written line by line is split
into these lines again; so it is with words.

* `Text.trim_eq_self_iff`, `Text.strip_strip` — what stripping leaves.
* `Text.wordsOf_append` — words that are written with a space between them.
* `Text.forall_mem_splitLines`, `Text.splitLines_append` — what splitting does.
-/

set_option autoImplicit false
namespace LineBasic.Text

variable {p : Char → Bool} {cs ds : List Char} {c : Char}

/-! ## Stripping -/

theorem trim_eq_rdropWhile (p : Char → Bool) (cs : List Char) :
    trim p cs = (cs.dropWhile p).rdropWhile p := rfl

theorem trim_sublist (p : Char → Bool) (cs : List Char) : (trim p cs).Sublist cs :=
  (List.rdropWhile_prefix p _).sublist.trans (List.dropWhile_sublist p)

theorem eq_false_of_mem_head?_trim (h : c ∈ (trim p cs).head?) : p c = false := by
  obtain ⟨rest, hrest⟩ := List.rdropWhile_prefix p (cs.dropWhile p)
  have hhead : (cs.dropWhile p).head? = some c := by
    rw [← hrest, List.head?_append]
    exact Option.or_eq_some_iff.2 (.inl h)
  have hnot := List.head?_dropWhile_not p cs
  rw [hhead] at hnot
  exact hnot

theorem eq_false_of_mem_getLast?_trim (h : c ∈ (trim p cs).getLast?) : p c = false := by
  obtain ⟨hne, rfl⟩ := List.mem_getLast?_eq_getLast h
  exact Bool.not_eq_true _ ▸ List.rdropWhile_last_not p _ hne

/-- What has no blank at its ends is what trimming leaves as it is. -/
theorem trim_eq_self_iff :
    trim p cs = cs ↔ (∀ c ∈ cs.head?, p c = false) ∧ ∀ c ∈ cs.getLast?, p c = false := by
  constructor
  · intro h
    rw [← h]
    exact ⟨fun c hc ↦ eq_false_of_mem_head?_trim hc, fun c hc ↦ eq_false_of_mem_getLast?_trim hc⟩
  · rintro ⟨hhead, hlast⟩
    have hfirst : cs.dropWhile p = cs := by
      cases cs with
      | nil => rfl
      | cons c cs => exact List.dropWhile_cons_of_neg (by simp [hhead c rfl])
    rw [trim_eq_rdropWhile, hfirst]
    exact List.rdropWhile_eq_self_iff.2 fun hne ↦ by
      simp [hlast _ (List.getLast?_eq_some_getLast hne)]

theorem trim_trim (p : Char → Bool) (cs : List Char) : trim p (trim p cs) = trim p cs :=
  trim_eq_self_iff.2
    ⟨fun _ ↦ eq_false_of_mem_head?_trim, fun _ ↦ eq_false_of_mem_getLast?_trim⟩

theorem strip_strip (s : String) : strip (strip s) = strip s := by
  rw [strip, strip, String.toList_ofList, trim_trim]

theorem toNat_of_isDigit (h : c.isDigit = true) : 48 ≤ c.toNat ∧ c.toNat ≤ 57 := by
  simp only [Char.isDigit, Bool.and_eq_true, decide_eq_true_eq] at h
  exact h

theorem isBlank_of_isDigit (h : c.isDigit = true) : isBlank c = false := by
  have hbounds := toNat_of_isDigit h
  simp only [isBlank, Bool.or_eq_false_iff, Bool.and_eq_false_iff, beq_eq_false_iff_ne,
    decide_eq_false_iff_not]
  omega

theorem isLineEnd_of_isDigit (h : c.isDigit = true) : isLineEnd c = false := by
  have hbounds := toNat_of_isDigit h
  simp only [isLineEnd, Bool.or_eq_false_iff, Bool.and_eq_false_iff, beq_eq_false_iff_ne,
    decide_eq_false_iff_not]
  omega

/-! ## Words -/

theorem wordsOf_nil : wordsOf [] = [] := by
  rw [wordsOf]
  rfl

theorem wordsOf_of_dropWhile (h : cs.dropWhile isBlank = c :: ds) :
    wordsOf cs = (c :: ds.takeWhile (!isBlank ·)) :: wordsOf (ds.dropWhile (!isBlank ·)) := by
  rw [wordsOf]
  split
  · rename_i hnil
    cases h.symm.trans hnil
  · rename_i hcons
    cases h.symm.trans hcons
    rfl

theorem wordsOf_space : wordsOf (' ' :: cs) = wordsOf cs := by
  have hspace : (' ' :: cs).dropWhile isBlank = cs.dropWhile isBlank :=
    List.dropWhile_cons_of_pos (by decide)
  cases hcs : cs.dropWhile isBlank with
  | nil =>
    rw [wordsOf, wordsOf]
    split
    · split
      · rfl
      · rename_i hcons
        cases hcs.symm.trans hcons
    · rename_i hcons
      cases (hspace.trans hcs).symm.trans hcons
  | cons c ds => rw [wordsOf_of_dropWhile hcs, wordsOf_of_dropWhile (hspace.trans hcs)]

theorem wordsOf_append (hne : cs ≠ []) (h : ∀ c ∈ cs, isBlank c = false) :
    wordsOf (cs ++ ' ' :: ds) = cs :: wordsOf ds := by
  obtain ⟨c, cs, rfl⟩ := List.exists_cons_of_ne_nil hne
  have hc : isBlank c = false := h c (List.mem_cons_self ..)
  have hcs : ∀ d ∈ cs, (!isBlank d) = true := fun d hd ↦ by simp [h d (List.mem_cons_of_mem _ hd)]
  rw [List.cons_append, wordsOf_of_dropWhile (List.dropWhile_cons_of_neg (by simp [hc])),
    List.takeWhile_append_of_pos hcs, List.dropWhile_append_of_pos hcs,
    List.takeWhile_cons_of_neg (by decide), List.dropWhile_cons_of_neg (by decide),
    List.append_nil, wordsOf_space]

theorem wordsOf_of_no_blank (hne : cs ≠ []) (h : ∀ c ∈ cs, isBlank c = false) :
    wordsOf cs = [cs] := by
  obtain ⟨c, cs, rfl⟩ := List.exists_cons_of_ne_nil hne
  have hc : isBlank c = false := h c (List.mem_cons_self ..)
  have hcs : ∀ d ∈ cs, (!isBlank d) = true := fun d hd ↦ by simp [h d (List.mem_cons_of_mem _ hd)]
  rw [wordsOf_of_dropWhile (List.dropWhile_cons_of_neg (by simp [hc])),
    List.takeWhile_eq_self_iff.2 hcs, List.dropWhile_eq_nil_iff.2 hcs, wordsOf_nil]

/-! ## Splitting -/

/-- A character that is not a carriage return with its line feed stands for itself. -/
theorem splitLines_cons (h : ∀ rest, c = '\r' → cs ≠ '\n' :: rest) :
    splitLines (c :: cs) = if isLineEnd c then [] :: splitLines cs
      else match splitLines cs with
        | [] => [[c]]
        | line :: more => (c :: line) :: more := by
  rw [splitLines.eq_def]
  split
  · cases ‹_ = []›
  · rename_i hfeed
    cases hfeed
    exact absurd rfl (h _ rfl)
  · rename_i hcons
    cases hcons
    rfl

theorem forall_mem_splitLines {line : List Char} (h : line ∈ splitLines cs) :
    ∀ c ∈ line, isLineEnd c = false := by
  induction cs using splitLines.induct generalizing line with
  | case1 => simp [splitLines] at h
  | case2 cs ih =>
    rw [splitLines, List.mem_cons] at h
    obtain rfl | h := h
    · simp
    · exact ih h
  | case3 c cs hfeed hend ih =>
    rw [splitLines_cons hfeed, if_pos hend, List.mem_cons] at h
    obtain rfl | h := h
    · simp
    · exact ih h
  | case4 c cs hfeed hend hnil ih =>
    rw [splitLines_cons hfeed, if_neg hend, hnil] at h
    simpa [List.mem_singleton.1 h] using hend
  | case5 c cs hfeed hend first more hcons ih =>
    rw [splitLines_cons hfeed, if_neg hend, hcons, List.mem_cons] at h
    obtain rfl | h := h
    · have hfirst := ih (hcons ▸ List.mem_cons_self ..)
      simpa [hend] using hfirst
    · exact ih (hcons ▸ List.mem_cons_of_mem _ h)

/-- A line that is written with its end is split off again. -/
theorem splitLines_append (h : ∀ c ∈ cs, isLineEnd c = false) :
    splitLines (cs ++ '\n' :: ds) = cs :: splitLines ds := by
  induction cs with
  | nil =>
    rw [List.nil_append, splitLines_cons fun _ hr ↦ absurd hr (by decide)]
    rfl
  | cons c cs ih =>
    have hc : isLineEnd c = false := h c (List.mem_cons_self ..)
    have hfeed : c ≠ '\r' := by
      rintro rfl
      exact absurd hc (by decide)
    rw [List.cons_append, splitLines_cons fun _ hr _ ↦ hfeed hr, hc,
      ih fun d hd ↦ h d (List.mem_cons_of_mem _ hd)]
    rfl

end LineBasic.Text
