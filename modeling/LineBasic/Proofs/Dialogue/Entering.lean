import LineBasic.Proofs.Dialogue.Loading
import LineBasic.Proofs.Program.References

/-!
# Typing a program, and reading it from a text

The lines of a program can be typed one after the other, or read from a text that has them all.  A
typed line is split where its digits end, and a line of a text at its first space.  So they are read
alike where a space follows the number, and otherwise the text is refused.  A number without a text
removes the line when it is typed, and is passed over in a text.

* `Dialogue.numbered?`, `Dialogue.IsNumbered` — what a typed line enters.
* `Dialogue.IsLoadable` — a line that is read from a text.
* `Program.stored`, `Program.gathered` — the programs that lines leave, typed and read.
* `Dialogue.afterLines_of_isNumbered`, `Dialogue.foldlM_addLine` — that they do leave them.
* `Dialogue.typed_eq_loaded_iff` — the result.
-/

set_option autoImplicit false
namespace LineBasic

/-! ## Programs from lines -/

namespace Program

/-- The program after a line was typed; without a text the line is removed. -/
def typeIn (p : Program) (e : Nat × String) : Program :=
  p.storeAt e.1 e.2

/-- The program after a line was read from a text; without a text of its own it adds nothing. -/
def gather (p : Program) (e : Nat × String) : Program :=
  if e.2.isEmpty then p else p.insert e.1 e.2

/-- The program that lines leave when they are typed one after the other. -/
def stored (es : List (Nat × String)) : Program :=
  es.foldl typeIn empty

/-- The program that lines leave when they are read from a text. -/
def gathered (es : List (Nat × String)) : Program :=
  es.foldl gather empty

variable {es : List (Nat × String)} {p q : Program} {n : Nat}

theorem get?_gather {e : Nat × String} :
    (p.gather e).get? n = if e.2 ≠ "" ∧ n = e.1 then some e.2 else p.get? n := by
  rw [gather]
  by_cases hempty : e.2 = ""
  · rw [if_pos (String.isEmpty_iff.2 hempty), if_neg fun h ↦ h.1 hempty]
  · rw [if_neg (mt String.isEmpty_iff.1 hempty), get?_insert]
    simp only [ne_eq, hempty, not_false_eq_true, true_and]

theorem get?_typeIn {e : Nat × String} (htext : Text.strip e.2 = e.2) :
    (p.typeIn e).get? n = if n = e.1 then if e.2.isEmpty then none else some e.2 else p.get? n := by
  rw [typeIn, get?_storeAt, htext]

theorem get?_foldl_gather_ne_none : (es.foldl gather p).get? n ≠ none ↔
    p.get? n ≠ none ∨ ∃ e ∈ es, e.2 ≠ "" ∧ n = e.1 := by
  induction es generalizing p with
  | nil => simp
  | cons e es ih =>
    rw [List.foldl_cons, ih, get?_gather]
    simp only [List.mem_cons, or_and_right, exists_or, exists_eq_left]
    by_cases he : e.2 ≠ "" ∧ n = e.1
    · simp [he]
    · rw [if_neg he]
      simp only [he, false_or]

/-- What lines leave when they are typed is either removed, or what they leave in a text. -/
theorem get?_foldl_typeIn (htexts : ∀ e ∈ es, Text.strip e.2 = e.2)
    (h : ∀ n, p.get? n = none ∨ p.get? n = q.get? n) (n : Nat) :
    (es.foldl typeIn p).get? n = none ∨
      (es.foldl typeIn p).get? n = (es.foldl gather q).get? n := by
  induction es generalizing p q with
  | nil => exact h n
  | cons e es ih =>
    rw [List.forall_mem_cons] at htexts
    rw [List.foldl_cons, List.foldl_cons]
    refine ih htexts.2 fun k ↦ ?_
    rw [get?_typeIn htexts.1, get?_gather]
    by_cases hk : k = e.1
    · by_cases hempty : e.2 = ""
      · exact .inl (by simp [hk, hempty])
      · exact .inr (by simp [hk, hempty])
    · simpa [hk] using h k

/-- The two programs are the same if and only if no line that had a text was removed. -/
theorem gathered_eq_stored_iff (htexts : ∀ e ∈ es, Text.strip e.2 = e.2) :
    gathered es = stored es ↔ ∀ e ∈ es, e.2 ≠ "" → (stored es).get? e.1 ≠ none := by
  constructor
  · intro heq e he hne
    rw [← heq]
    exact get?_foldl_gather_ne_none.2 (.inr ⟨e, he, hne, rfl⟩)
  · refine fun h ↦ eq_of_get? fun n ↦ ?_
    obtain hnone | heq := get?_foldl_typeIn (p := empty) (q := empty) htexts (fun _ ↦ .inl rfl) n
    · have hgathered : (gathered es).get? n = none := by
        by_contra hsome
        obtain hempty | ⟨e, he, hne, rfl⟩ := get?_foldl_gather_ne_none.1 hsome
        · exact hempty rfl
        · exact h e he hne hnone
      exact hgathered.trans hnone.symm
    · exact heq.symm

end Program

namespace Session

variable {s : Session} {m : Int} {e : Nat × String}

theorem memoryUsed_typeIn_le (s : Session) (e : Nat × String) :
    memoryUsed { s with program := s.program.typeIn e } ≤
      s.memoryUsed + Program.lineFootprint e := by
  have hless : (s.program.typeIn e).footprint ≤ s.program.footprint + Program.lineFootprint e :=
    s.program.footprint_storeAt_le e.1 e.2
  simp only [memoryUsed]
  omega

/-- With enough memory, a line is stored. -/
theorem storeLine_of_room (hm : s.settings.memorySize.whole? = some m)
    (hroom : s.memoryUsed + Program.lineFootprint e ≤ m) :
    Dialogue.storeLine e.1 e.2 s = .ok () { s with program := s.program.typeIn e } := by
  have hless : memoryUsed { s with program := s.program.storeAt e.1 e.2 } ≤
      s.memoryUsed + Program.lineFootprint e := memoryUsed_typeIn_le s e
  rw [storeLine_eq hm (Int.natCast_nonneg e.1), Int.toNat_natCast, if_neg (by omega)]
  rfl

end Session

namespace Dialogue

variable {line text : String} {digits rest : List Char} {p : Program}

/-! ## Lines with numbers -/

/-- A typed line that stores a line of the program, or removes one. -/
def IsNumbered (line : String) : Prop :=
  (programLine? (Text.strip line)).isSome = true

instance (line : String) : Decidable (IsNumbered line) :=
  inferInstanceAs (Decidable (_ = true))

/-- The number and the text of a typed line, if it has a number, and one that is not too long. -/
def numbered? (line : String) : Option (Nat × String) :=
  match programLine? (Text.strip line) with
  | some (digits, text) => (lineNumber digits).toOption.map (·, text)
  | none => none

/-- A numbered line that can be read from a text: if something follows the number, then a space
does, and if a text follows, the number is not too long. -/
structure IsLoadable (line : String) : Prop where
  space : ∀ c ∈ ((Text.strip line).toList.dropWhile Text.isDecimalDigit).head?, c = ' '
  number : ∀ e ∈ programLine? (Text.strip line), e.2 = "" ∨ (lineNumber e.1).isOk = true

theorem isLoadable_iff : IsLoadable line ↔
    ((Text.strip line).toList.dropWhile Text.isDecimalDigit).head?.all (· == ' ') = true ∧
    ∀ e ∈ programLine? (Text.strip line), e.2 = "" ∨ (lineNumber e.1).isOk = true := by
  have hall (o : Option Char) : o.all (· == ' ') = true ↔ ∀ c ∈ o, c = ' ' := by
    cases o <;> simp
  rw [hall]
  exact ⟨fun h ↦ ⟨h.space, h.number⟩, fun h ↦ ⟨h.1, h.2⟩⟩

instance (line : String) : Decidable (IsLoadable line) :=
  decidable_of_iff' _ isLoadable_iff

/-- A line, without the blanks around it, that starts with the given digits; nothing follows them,
or a blank does. -/
structure Begins (line : String) (digits rest : List Char) : Prop where
  toList : Text.trim Text.isBlank line.toList = digits ++ rest
  ne_nil : digits ≠ []
  isDecimalDigit : ∀ c ∈ digits, Text.isDecimalDigit c = true
  isBlank : ∀ c ∈ rest.head?, Text.isBlank c = true

theorem begins_of_programLine? (h : programLine? (Text.strip line) = some (digits, text)) :
    ∃ rest, Begins line digits rest ∧ text = String.ofList (rest.dropWhile Text.isBlank) ∧
      rest = (Text.strip line).toList.dropWhile Text.isDecimalDigit := by
  simp only [programLine?] at h
  split at h
  · cases h
  · rename_i hnone
    simp only [Bool.or_eq_true, not_or, Bool.and_eq_true, not_and] at hnone
    obtain ⟨⟨hne, hrest⟩, -⟩ := hnone
    rw [Option.some_inj, Prod.mk.injEq] at h
    obtain ⟨rfl, rfl⟩ := h
    refine ⟨_, ⟨?_, by simpa using hne, fun c ↦ List.mem_takeWhile_imp, fun c hc ↦ ?_⟩, rfl, rfl⟩
    · rw [List.takeWhile_append_dropWhile, Text.strip, String.toList_ofList]
    · generalize (Text.strip line).toList.dropWhile Text.isDecimalDigit = cs at hrest hc
      cases cs with
      | nil => cases hc
      | cons b more =>
        cases hc
        by_contra hb
        exact hrest (by simp) (by simp [hb])

/-! ## Reading a line from a text -/

theorem isDigitLike_of_isBlank {b : Char} (h : Text.isBlank b = true) :
    Text.isDigitLike b = false := by
  have hall : ∀ n ∈ Program.blanks, Text.isDigitLike (Char.ofNat n) = false := by decide +kernel
  have hb := hall b.toNat (Program.toNat_mem_blanks h)
  rwa [Char.ofNat_toNat] at hb

theorem ne_space_of_isDecimalDigit {c : Char} (h : Text.isDecimalDigit c = true) :
    (c != ' ') = true := by
  rw [bne_iff_ne]
  rintro rfl
  rw [(Program.of_isBlank (b := ' ') (by decide)).2] at h
  cases h

theorem strip_space (cs : List Char) :
    Text.strip (String.ofList (' ' :: cs)) = Text.strip (String.ofList cs) := by
  simp only [Text.strip, String.toList_ofList, Text.trim_eq_rdropWhile]
  rw [List.dropWhile_cons_of_pos (by decide)]

namespace Begins

variable (h : Begins line digits rest)
include h

theorem isEmpty_eq : (Text.trim Text.isBlank line.toList).isEmpty = false := by
  simp [h.toList, h.ne_nil]

/-- The blanks at the end of a line are gone, so that only those before the text are dropped. -/
theorem strip_rest :
    Text.strip (String.ofList rest) = String.ofList (rest.dropWhile Text.isBlank) := by
  obtain ⟨front, hfront⟩ : rest.dropWhile Text.isBlank <:+ Text.trim Text.isBlank line.toList :=
    (List.dropWhile_suffix _).trans (h.toList ▸ List.suffix_append digits rest)
  rw [Text.strip, String.toList_ofList, Text.trim_eq_rdropWhile,
    List.rdropWhile_eq_self_iff.2 fun hne ↦ Bool.eq_false_iff.1 ?_]
  have hlast : (rest.dropWhile Text.isBlank).getLast hne ∈
      (Text.trim Text.isBlank line.toList).getLast? := by
    rw [← hfront, List.getLast?_append_of_ne_nil _ hne]
    exact List.getLast?_eq_some_getLast hne
  exact Text.eq_false_of_mem_getLast?_trim hlast

theorem looksLikeNumber_digits : looksLikeNumber digits = true := by
  rw [looksLikeNumber, Bool.and_eq_true, List.all_eq_true]
  refine ⟨by simp [h.ne_nil], fun c hc ↦ ?_⟩
  rw [Text.isDigitLike, h.isDecimalDigit c hc, Bool.true_or]

/-- Where a space follows the digits, or nothing, the line is read as it is when typed. -/
theorem addLine_of_space (hspace : ∀ c ∈ rest.head?, c = ' ') (p : Program) :
    p.addLine line =
      if (Text.strip (String.ofList rest)).isEmpty then .ok p
      else ((lineNumber digits).map (p.insert · (Text.strip (String.ofList rest)))).mapError
        .mishap := by
  have hdigits : ∀ c ∈ digits, (c != ' ') = true := fun c hc ↦
    ne_space_of_isDecimalDigit (h.isDecimalDigit c hc)
  have hstop : ∀ c ∈ rest.head?, (c != ' ') = false := fun c hc ↦ by simp [hspace c hc]
  have htext : Text.strip (String.ofList (rest.drop 1)) = Text.strip (String.ofList rest) := by
    cases rest with
    | nil => rfl
    | cons b more =>
      obtain rfl : b = ' ' := hspace b rfl
      rw [List.drop_one, List.tail_cons, strip_space]
  simp only [Program.addLine, h.isEmpty_eq, Bool.false_eq_true, if_false]
  rw [h.toList, takeWhile_append_of_stop hdigits hstop, dropWhile_append_of_stop hdigits hstop,
    if_pos h.looksLikeNumber_digits, htext]
  cases lineNumber digits <;> rfl

/-- Where something else follows the digits, the line is refused. -/
theorem addLine_of_not_space (hspace : ¬ ∀ c ∈ rest.head?, c = ' ') (p : Program) :
    p.addLine line = .error (.fault (Program.illegalLine line)) := by
  cases rest with
  | nil => exact absurd (by simp) hspace
  | cons b more =>
    have hb : b ≠ ' ' := by simpa using hspace
    have hdigits : ∀ c ∈ digits, (c != ' ') = true := fun c hc ↦
      ne_space_of_isDecimalDigit (h.isDecimalDigit c hc)
    have hnumber : looksLikeNumber ((digits ++ b :: more).takeWhile (· != ' ')) = false := by
      rw [List.takeWhile_append_of_pos hdigits, List.takeWhile_cons_of_pos (by simpa using hb),
        looksLikeNumber, List.all_append, List.all_cons, isDigitLike_of_isBlank (h.isBlank b rfl)]
      simp
    simp only [Program.addLine, h.isEmpty_eq, Bool.false_eq_true, if_false]
    rw [h.toList, hnumber]
    rfl

end Begins

/-! ## What a numbered line enters -/

theorem numbered?_of_programLine? (h : programLine? (Text.strip line) = some (digits, text)) :
    numbered? line = (lineNumber digits).toOption.map (·, text) := by
  rw [numbered?, h]

/-- The parts of a numbered line. -/
theorem IsNumbered.parts (hline : IsNumbered line) : ∃ digits rest text, Begins line digits rest ∧
    programLine? (Text.strip line) = some (digits, text) ∧
    (Text.strip line).toList.dropWhile Text.isDecimalDigit = rest ∧
    Text.strip (String.ofList rest) = text := by
  obtain ⟨⟨digits, text⟩, hparts⟩ := Option.isSome_iff_exists.1 hline
  obtain ⟨rest, hbegins, htext, hrest⟩ := begins_of_programLine? hparts
  exact ⟨digits, rest, text, hbegins, hparts, hrest.symm, by rw [htext, hbegins.strip_rest]⟩

theorem strip_of_numbered? {e : Nat × String} (hline : IsNumbered line)
    (he : numbered? line = some e) : Text.strip e.2 = e.2 := by
  obtain ⟨digits, rest, text, -, hparts, -, rfl⟩ := hline.parts
  rw [numbered?_of_programLine? hparts] at he
  obtain ⟨n, -, rfl⟩ := Option.map_eq_some_iff.1 he
  exact Text.strip_strip _

/-- A line that can be read from a text enters what it enters when it is typed, but for a number
without a text. -/
theorem addLine_of_isLoadable (hline : IsNumbered line) (h : IsLoadable line) (p : Program) :
    p.addLine line = .ok (match numbered? line with
      | some e => p.gather e
      | none => p) := by
  obtain ⟨digits, rest, text, hbegins, hparts, hrest, htext⟩ := hline.parts
  have hnumber : text = "" ∨ (lineNumber digits).isOk = true := h.number _ hparts
  rw [hbegins.addLine_of_space (hrest ▸ h.space), numbered?_of_programLine? hparts, htext]
  cases hn : lineNumber digits with
  | ok n => exact (apply_ite Except.ok _ _ _).symm
  | error mishap =>
    rw [hn] at hnumber
    rw [if_pos (String.isEmpty_iff.2 (hnumber.resolve_right Bool.false_ne_true))]
    rfl

theorem addLine_of_not_isLoadable (hline : IsNumbered line) (h : ¬ IsLoadable line) (p : Program) :
    ∃ stop, p.addLine line = .error stop := by
  obtain ⟨digits, rest, text, hbegins, hparts, hrest, htext⟩ := hline.parts
  by_cases hspace : ∀ c ∈ rest.head?, c = ' '
  · have hnumber : ¬ (text = "" ∨ (lineNumber digits).isOk = true) := fun hnumber ↦
      h ⟨hrest ▸ hspace, fun e he ↦ by
        cases hparts.symm.trans he
        exact hnumber⟩
    obtain ⟨hne, hbad⟩ := not_or.1 hnumber
    rw [hbegins.addLine_of_space hspace, htext, if_neg (mt String.isEmpty_iff.1 hne)]
    cases hn : lineNumber digits with
    | ok n => exact absurd (by rw [hn]; rfl) hbad
    | error mishap => exact ⟨_, rfl⟩
  · exact ⟨_, hbegins.addLine_of_not_space hspace p⟩

/-! ## Reading all lines from a text -/

variable {lines : List String}

theorem foldlM_addLine (hlines : ∀ line ∈ lines, IsNumbered line)
    (h : ∀ line ∈ lines, IsLoadable line) (p : Program) :
    lines.foldlM Program.addLine p =
      .ok ((lines.filterMap numbered?).foldl Program.gather p) := by
  induction lines generalizing p with
  | nil => rfl
  | cons line lines ih =>
    rw [List.forall_mem_cons] at hlines h
    rw [List.foldlM_cons, addLine_of_isLoadable hlines.1 h.1, List.filterMap_cons]
    cases numbered? line with
    | none => exact ih hlines.2 h.2 p
    | some e => exact ih hlines.2 h.2 (p.gather e)

theorem foldlM_addLine_of_not (hlines : ∀ line ∈ lines, IsNumbered line)
    (h : ∃ line ∈ lines, ¬ IsLoadable line) (p : Program) :
    ∃ stop, lines.foldlM Program.addLine p = .error stop := by
  induction lines generalizing p with
  | nil => simp at h
  | cons line lines ih =>
    rw [List.forall_mem_cons] at hlines
    rw [List.foldlM_cons]
    cases hadd : p.addLine line with
    | error stop => exact ⟨stop, rfl⟩
    | ok q =>
      refine ih hlines.2 ?_ q
      obtain ⟨other, hother, hnot⟩ := h
      obtain rfl | hother := List.mem_cons.1 hother
      · obtain ⟨stop, hstop⟩ := addLine_of_not_isLoadable hlines.1 hnot p
        cases hadd.symm.trans hstop
      · exact ⟨other, hother, hnot⟩

theorem IsNumbered.ne_empty (h : IsNumbered line) : line ≠ "" := by
  rintro rfl
  exact absurd h (by decide +kernel)

/-- Lines that are put together with line feeds between them are split apart again. -/
theorem lines_intercalate (hunbroken : ∀ line ∈ lines, Text.IsUnbroken line)
    (hne : ∀ line ∈ lines, line ≠ "") : Text.lines ("\n".intercalate lines) = lines := by
  induction lines with
  | nil => rfl
  | cons line lines ih =>
    rw [List.forall_mem_cons] at hunbroken hne
    rw [Text.lines] at ih ⊢
    cases lines with
    | nil =>
      rw [String.intercalate_singleton, Text.splitLines_of_no_end hunbroken.1,
        if_neg (by simpa using hne.1)]
      simp
    | cons next lines =>
      have ih := ih hunbroken.2 hne.2
      have hchars : ("\n".intercalate (line :: next :: lines)).toList =
          line.toList ++ '\n' :: ("\n".intercalate (next :: lines)).toList := by
        rw [String.intercalate_cons_cons, String.toList_append, String.toList_append,
          List.append_assoc]
        rfl
      rw [hchars, Text.splitLines_append hunbroken.1, List.map_cons, ih, String.ofList_toList]

/-! ## Typing all lines -/

variable {d : Dialogue} {m : Int}

theorem not_isEmpty_of_isNumbered (h : IsNumbered line) : (Text.strip line).isEmpty = false := by
  rw [← Bool.not_eq_true, String.isEmpty_iff]
  intro hempty
  rw [IsNumbered, hempty] at h
  exact absurd h (by decide +kernel)

theorem entryOfLine_of_programLine? (h : programLine? (Text.strip line) = some (digits, text)) :
    entryOfLine line = .program digits text := by
  rw [entryOfLine, entryOf, h]

/-- The dialogue with another program. -/
def withProgram (d : Dialogue) (p : Program) : Dialogue :=
  { d with session := { d.session with program := p } }

theorem program_withProgram (d : Dialogue) (p : Program) :
    (d.withProgram p).session.program = p := rfl

theorem withProgram_withProgram (d : Dialogue) (p q : Program) :
    (d.withProgram p).withProgram q = d.withProgram q := rfl

/-- A number that is too long is not read, and nothing is stored. -/
theorem afterLine_of_numbered?_eq_none (hline : IsNumbered line)
    (hnumbered : numbered? line = none) : d.afterLine line = d := by
  obtain ⟨digits, rest, text, -, hparts, -, -⟩ := hline.parts
  rw [numbered?_of_programLine? hparts] at hnumbered
  rw [afterLine, submit_of_not_empty (not_isEmpty_of_isNumbered hline),
    entryOfLine_of_programLine? hparts]
  cases hn : lineNumber digits with
  | ok n =>
    rw [hn] at hnumbered
    cases hnumbered
  | error mishap =>
    have hrun : enter (.program digits text) d = .error (.stop (.mishap mishap)) d := by
      simp only [enter, hn]
      rfl
    simp only [conclude, hrun]

/-- With enough memory, a line that is typed is stored, and nothing else is changed. -/
theorem afterLine_of_numbered? {e : Nat × String} (hline : IsNumbered line)
    (hnumbered : numbered? line = some e) (hm : d.session.settings.memorySize.whole? = some m)
    (hroom : d.session.memoryUsed + Program.lineFootprint e ≤ m) :
    d.afterLine line = d.withProgram (d.session.program.typeIn e) := by
  obtain ⟨digits, rest, text, -, hparts, -, -⟩ := hline.parts
  rw [numbered?_of_programLine? hparts] at hnumbered
  rw [afterLine, submit_of_not_empty (not_isEmpty_of_isNumbered hline),
    entryOfLine_of_programLine? hparts]
  cases hn : lineNumber digits with
  | error mishap =>
    rw [hn] at hnumbered
    cases hnumbered
  | ok n =>
    rw [hn] at hnumbered
    cases hnumbered
    have hstore := Session.storeLine_of_room hm hroom
    have hrun : enter (.program digits text) d =
        .ok () (d.withProgram (d.session.program.typeIn (n, text))) := by
      simp only [enter, hn, Action.ofNumber, pure_bind, onSession, hstore]
      rfl
    simp only [conclude, hrun]

/-- With enough memory, numbered lines that are typed change the program, and nothing else. -/
theorem afterLines_of_isNumbered (hlines : ∀ line ∈ lines, IsNumbered line)
    (hm : d.session.settings.memorySize.whole? = some m)
    (hroom : d.session.memoryUsed + Program.linesFootprint (lines.filterMap numbered?) ≤ m) :
    d.afterLines lines =
      d.withProgram ((lines.filterMap numbered?).foldl Program.typeIn d.session.program) := by
  induction lines generalizing d with
  | nil => rfl
  | cons line lines ih =>
    rw [List.forall_mem_cons] at hlines
    rw [afterLines_cons]
    cases hnumbered : numbered? line with
    | none =>
      rw [List.filterMap_cons_none hnumbered] at hroom ⊢
      rw [afterLine_of_numbered?_eq_none hlines.1 hnumbered]
      exact ih hlines.2 hm hroom
    | some e =>
      rw [List.filterMap_cons_some hnumbered] at hroom ⊢
      rw [Program.linesFootprint_cons] at hroom
      have hrest := Program.linesFootprint_nonneg (lines.filterMap numbered?)
      have hless : (d.withProgram (d.session.program.typeIn e)).session.memoryUsed ≤
          d.session.memoryUsed + Program.lineFootprint e := d.session.memoryUsed_typeIn_le e
      have hdone := ih (d := d.withProgram (d.session.program.typeIn e)) hlines.2 hm (by omega)
      rw [afterLine_of_numbered? hlines.1 hnumbered hm (by omega), hdone, withProgram_withProgram,
        program_withProgram, List.foldl_cons]

/-! ## The result -/

/-- Lines that are put together to a text are loaded as the program that they leave there, if each
can be read from a text; otherwise loading them fails, and no program is left. -/
theorem replaceProgram_intercalate (hlines : ∀ line ∈ lines, IsNumbered line)
    (hunbroken : ∀ line ∈ lines, Text.IsUnbroken line) (s : Session) :
    ((∀ line ∈ lines, IsLoadable line) → ∃ s',
      Command.replaceProgram ("\n".intercalate lines) s = .ok () s' ∧
        s'.program = Program.gathered (lines.filterMap numbered?)) ∧
    ((∃ line ∈ lines, ¬ IsLoadable line) → ∃ stop s',
      Command.replaceProgram ("\n".intercalate lines) s = .error stop s' ∧
        s'.program = .empty) := by
  rw [Command.replaceProgram_run, Program.ofText,
    lines_intercalate hunbroken fun line hline ↦ (hlines line hline).ne_empty]
  constructor
  · intro h
    rw [foldlM_addLine hlines h]
    exact ⟨_, rfl, rfl⟩
  · intro h
    obtain ⟨stop, hstop⟩ := foldlM_addLine_of_not hlines h .empty
    rw [hstop]
    exact ⟨stop, _, rfl, rfl⟩

theorem program_afterLines (hempty : d.session.program = .empty)
    (hm : d.session.settings.memorySize.whole? = some m)
    (hlines : ∀ line ∈ lines, IsNumbered line)
    (hroom : d.session.memoryUsed + Program.linesFootprint (lines.filterMap numbered?) ≤ m) :
    (d.afterLines lines).session.program = Program.stored (lines.filterMap numbered?) := by
  rw [afterLines_of_isNumbered hlines hm hroom, hempty]
  rfl

/-- In a session with enough memory and no program, lines with numbers that are typed one after the
other leave the same program as the text that is put together from them, when that is loaded, if and
only if it can be loaded, and no line that had a text was removed again.  It can be loaded if and
only if in each line a space follows the number, or nothing, and no line with a text has a number
that is too long; otherwise no program is left. -/
theorem typed_eq_loaded_iff (hempty : d.session.program = .empty)
    (hm : d.session.settings.memorySize.whole? = some m)
    (hlines : ∀ line ∈ lines, IsNumbered line) (hunbroken : ∀ line ∈ lines, Text.IsUnbroken line)
    (hroom : d.session.memoryUsed + Program.linesFootprint (lines.filterMap numbered?) ≤ m)
    (s : Session) :
    let es := lines.filterMap numbered?
    let typed := (d.afterLines lines).session.program
    let load := Command.replaceProgram ("\n".intercalate lines) s
    typed = Program.stored es ∧
    ((∀ line ∈ lines, IsLoadable line) →
      ∃ s', load = .ok () s' ∧ s'.program = Program.gathered es) ∧
    ((∃ line ∈ lines, ¬ IsLoadable line) →
      ∃ stop s', load = .error stop s' ∧ s'.program = .empty) ∧
    ((∃ s', load = .ok () s' ∧ s'.program = typed) ↔
      (∀ line ∈ lines, IsLoadable line) ∧ ∀ e ∈ es, e.2 ≠ "" → typed.get? e.1 ≠ none) := by
  intro es typed load
  have htyped : typed = Program.stored es := program_afterLines hempty hm hlines hroom
  obtain ⟨hloads, hfails⟩ := replaceProgram_intercalate hlines hunbroken s
  have htexts : ∀ e ∈ es, Text.strip e.2 = e.2 := fun e he ↦ by
    obtain ⟨line, hline, hnumbered⟩ := List.mem_filterMap.1 he
    exact strip_of_numbered? (hlines line hline) hnumbered
  refine ⟨htyped, hloads, hfails, ?_⟩
  rw [htyped, ← Program.gathered_eq_stored_iff htexts]
  constructor
  · rintro ⟨s', hload, hsame⟩
    have hall : ∀ line ∈ lines, IsLoadable line := by
      by_contra hnot
      simp only [not_forall] at hnot
      obtain ⟨line, hline, hnot⟩ := hnot
      obtain ⟨stop, s'', hfail, -⟩ := hfails ⟨line, hline, hnot⟩
      cases hload.symm.trans hfail
    obtain ⟨s'', hload', hgathered⟩ := hloads hall
    cases hload.symm.trans hload'
    exact ⟨hall, hgathered.symm.trans hsame⟩
  · rintro ⟨hall, hsame⟩
    obtain ⟨s', hload, hgathered⟩ := hloads hall
    exact ⟨s', hload, hgathered.trans hsame⟩

/-- A dialogue at its start. -/
def fresh : Dialogue :=
  start {} {} .unavailable 0 (.memory {})

/-- Lines in any order, one of them replaced, and one of them a number alone. -/
def draft : List String :=
  ["20 END", "10 PRINT", "30", "  10  PRINT 1 "]

theorem typed_eq_loaded_iff_draft : fresh.session.program = .empty ∧
    fresh.session.settings.memorySize.whole? = some 65536 ∧
    (∀ line ∈ draft, IsNumbered line) ∧ (∀ line ∈ draft, Text.IsUnbroken line) ∧
    fresh.session.memoryUsed + Program.linesFootprint (draft.filterMap numbered?) ≤ 65536 ∧
    ∃ s', Command.replaceProgram ("\n".intercalate draft) fresh.session = .ok () s' ∧
      s'.program = (fresh.afterLines draft).session.program := by
  have hlines : ∀ line ∈ draft, IsNumbered line := by decide +kernel
  have hunbroken : ∀ line ∈ draft, Text.IsUnbroken line := by decide +kernel
  have hroom : fresh.session.memoryUsed + Program.linesFootprint (draft.filterMap numbered?) ≤
      65536 := by decide +kernel
  refine ⟨rfl, rfl, hlines, hunbroken, hroom, ?_⟩
  obtain ⟨htyped, -, -, hiff⟩ :=
    typed_eq_loaded_iff rfl rfl hlines hunbroken hroom fresh.session
  refine hiff.2 ⟨by decide +kernel, ?_⟩
  rw [htyped]
  decide +kernel

/-- A tab may follow the number of a line that is typed, but not of one that is loaded. -/
theorem not_forall_typed_eq_loaded : ¬ ∀ (d : Dialogue) (lines : List String) (m : Int),
    d.session.program = .empty → d.session.settings.memorySize.whole? = some m →
    (∀ line ∈ lines, IsNumbered line) → (∀ line ∈ lines, Text.IsUnbroken line) →
    d.session.memoryUsed + Program.linesFootprint (lines.filterMap numbered?) ≤ m →
    ∃ s', Command.replaceProgram ("\n".intercalate lines) d.session = .ok () s' ∧
      s'.program = (d.afterLines lines).session.program := by
  intro h
  have hlines : ∀ line ∈ ["10\tEND"], IsNumbered line := by decide +kernel
  have hunbroken : ∀ line ∈ ["10\tEND"], Text.IsUnbroken line := by decide +kernel
  have htab : ¬ IsLoadable "10\tEND" := by decide +kernel
  obtain ⟨s', hload, -⟩ := h fresh ["10\tEND"] 65536 rfl rfl hlines hunbroken (by decide +kernel)
  obtain ⟨stop, s'', hfail, -⟩ := (replaceProgram_intercalate hlines hunbroken fresh.session).2
    ⟨"10\tEND", List.mem_cons_self .., htab⟩
  cases hload.symm.trans hfail

end Dialogue
end LineBasic
