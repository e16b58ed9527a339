import LineBasic.Proofs.Dialogue.Keeping
import LineBasic.Proofs.Program.Serialization

/-!
# Saving a program and loading it again

A program is saved under the name that is given, with an ending unless it has one, and it is looked
for under that name as it is, then with the ending in capitals, then in small letters.  So what is
loaded is what was saved, unless there was a file under a name that is looked for before.

* `Dialogue.afterLine` — the dialogue after a typed line.
* `Dialogue.HasEnding` — a name that is saved under as it is.
* `Dialogue.load_saved` — the result.
-/

set_option autoImplicit false
namespace LineBasic

/-! ## Lines of commands -/

namespace Command

variable {word name : String} {c : Command}

/-- A name that can be given on a command line: it is not empty, and has no blanks, commas or
double quotes. -/
structure IsName (name : String) : Prop where
  ne_empty : name ≠ ""
  plain : ∀ c ∈ name.toList, Text.isBlank c = false ∧ c ≠ ',' ∧ c ≠ '"'

theorem IsName.ne_nil (h : IsName name) : name.toList ≠ [] :=
  mt String.toList_eq_nil_iff.1 h.ne_empty

theorem IsName.unquoted_eq (h : IsName name) : unquoted name = name := by
  rw [unquoted, Text.trim_eq_self_iff.2, String.ofList_toList]
  exact ⟨fun c hc ↦ by simpa using (h.plain c (List.mem_of_mem_head? hc)).2.2,
    fun c hc ↦ by simpa using (h.plain c (List.mem_of_mem_getLast? hc)).2.2⟩

theorem toList_line (word name : String) :
    (word ++ " " ++ name).toList = word.toList ++ ' ' :: name.toList := by
  rw [String.toList_append, String.toList_append, List.append_assoc]
  rfl

theorem words_line (hword : IsName word) (hname : IsName name) :
    Text.words (word ++ " " ++ name) = [word, name] := by
  rw [Text.words, toList_line, Text.wordsOf_append hword.ne_nil fun c hc ↦ (hword.plain c hc).1,
    Text.wordsOf_of_no_blank hname.ne_nil fun c hc ↦ (hname.plain c hc).1]
  simp only [List.map_cons, List.map_nil, String.ofList_toList]

theorem lineWords_line (hword : IsName word) (hname : IsName name) :
    lineWords (word ++ " " ++ name) = [word, name] := by
  have hcomma : ∀ c ∈ (word ++ " " ++ name).toList, (if c = ',' then ' ' else c) = c := by
    intro c hc
    rw [toList_line, List.mem_append, List.mem_cons] at hc
    refine if_neg ?_
    obtain hc | rfl | hc := hc
    · exact (hword.plain c hc).2.1
    · decide
    · exact (hname.plain c hc).2.1
  rw [lineWords, List.map_congr_left hcomma, List.map_id', String.ofList_toList,
    words_line hword hname, List.map_cons, List.map_cons, List.map_nil, hword.unquoted_eq,
    hname.unquoted_eq]

theorem strip_line (hword : IsName word) (hname : IsName name) :
    Text.strip (word ++ " " ++ name) = word ++ " " ++ name := by
  rw [Text.strip, Text.trim_eq_self_iff.2, String.ofList_toList]
  rw [toList_line, List.head?_append_of_ne_nil _ hword.ne_nil,
    List.getLast?_append_of_ne_nil _ (List.cons_ne_nil _ _),
    List.getLast?_cons_of_ne_nil hname.ne_nil]
  exact ⟨fun c hc ↦ (hword.plain c (List.mem_of_mem_head? hc)).1,
    fun c hc ↦ (hname.plain c (List.mem_of_mem_getLast? hc)).1⟩

/-- The word of a command that takes a name. -/
structure IsWord (word : String) (c : Command) : Prop where
  isName : IsName word
  letter : word.toList.head?.any Text.isDecimalDigit = false
  meaning : ofWord? word = some c

theorem isWord_save : IsWord "SAVE" .save where
  isName := ⟨by decide, by simp [Text.isBlank]⟩
  letter := by decide +kernel
  meaning := by decide +kernel

theorem isWord_load : IsWord "LOAD" .load where
  isName := ⟨by decide, by simp [Text.isBlank]⟩
  letter := by decide +kernel
  meaning := by decide +kernel

end Command

namespace Dialogue

variable {d d₁ : Dialogue} {word name : String} {c : Command}

theorem entryOf_line (hword : Command.IsWord word c) (hname : Command.IsName name) :
    entryOf (word ++ " " ++ name) = .command (word ++ " " ++ name) := by
  have hdigits : (word ++ " " ++ name).toList.takeWhile Text.isDecimalDigit = [] := by
    obtain ⟨d, ds, hd⟩ := List.exists_cons_of_ne_nil hword.isName.ne_nil
    have hletter := hword.letter
    rw [hd, List.head?_cons, Option.any_some] at hletter
    rw [Command.toList_line, hd]
    exact List.takeWhile_cons_of_neg (by simp [hletter])
  have hline : Command.isLine (word ++ " " ++ name) = true := by
    rw [Command.isLine, Command.words_line hword.isName hname, List.head?_cons, Option.any_some,
      hword.meaning]
    rfl
  rw [entryOf, programLine?, hdigits]
  simp [hline]

theorem process_line (hword : Command.IsWord word c) (hname : Command.IsName name) :
    process (word ++ " " ++ name) = begin c [name] >>= fulfil := by
  rw [process, beginLine, Command.lineWords_line hword.isName hname]
  simp only [hword.meaning]

/-! ## What a typed line does -/

/-- The dialogue after a typed line, however it ended. -/
def afterLine (d : Dialogue) (line : String) : Dialogue :=
  match submit line d with
  | .ok _ d' => d'
  | .error _ d' => d'

/-- Dialogues with the same program and the same files. -/
structure SameStore (d d' : Dialogue) : Prop where
  program : d'.session.program = d.session.program
  files : d'.files = d.files

theorem keeps_prompt_sameStore : Keeps (SameStore d) (fun _ ↦ True) prompt :=
  keeps_prompt fun _ ↦ ⟨fun _ h ↦ .ok trivial ⟨h.program, h.files⟩⟩

/-- A command that is done leaves the program and the files as the command does: what follows only
prints. -/
theorem sameStore_afterLine {line : String} (hstrip : Text.strip line = line) (hne : line ≠ "")
    (hentry : entryOf line = .command line) (h : process line d = .ok () d₁) :
    SameStore d₁ (d.afterLine line) := by
  have hsubmit : submit line d = prompt d₁ := by
    have hempty : line.isEmpty = false := by simpa using hne
    simp only [submit, hstrip, hempty, Bool.false_eq_true, if_false, hentry]
    simp only [conclude, enter, h]
  have hends := (@keeps_prompt_sameStore d₁).run d₁ ⟨rfl, rfl⟩
  rw [afterLine, hsubmit]
  generalize prompt d₁ = r at hends
  cases hends with
  | ok _ hd => exact hd
  | error _ hd => exact hd

theorem sameStore_afterLine_line (hword : Command.IsWord word c) (hname : Command.IsName name)
    (h : (begin c [name] >>= fulfil) d = .ok () d₁) :
    SameStore d₁ (d.afterLine (word ++ " " ++ name)) := by
  refine sameStore_afterLine (Command.strip_line hword.isName hname) ?_
    (entryOf_line hword hname) (process_line hword hname ▸ h)
  rw [Ne, ← String.toList_eq_nil_iff, Command.toList_line]
  simp

/-! ## Saving, discarding and loading -/

theorem writeFile_memory {files : Table String String} (hfiles : d.files = .memory files)
    (name content : String) :
    writeFile name content d = .ok () { d with files := .memory (files.insert name content) } := by
  obtain ⟨session, _, pending, isConfirmed, isOver⟩ := d
  cases hfiles
  rfl

theorem afterLine_save {files : Table String String} (hfiles : d.files = .memory files)
    (hname : Command.IsName name) :
    SameStore { d with files := .memory (files.insert (Command.savedName name)
      d.session.program.serialize) } (d.afterLine ("SAVE " ++ name)) := by
  have hbegin : begin .save [name] d =
      .ok (.save (Command.savedName name) d.session.program.serialize) d := by
    rw [begin, get_bind_run]
    rfl
  have hline : "SAVE " = "SAVE" ++ " " := by decide
  rw [hline]
  refine sameStore_afterLine_line Command.isWord_save hname ?_
  rw [bind_run_of_ok hbegin]
  exact writeFile_memory hfiles _ _

theorem afterLine_new : SameStore { d with session := { d.session.reset with program := .empty } }
    (d.afterLine "NEW") := by
  have hwords : Command.lineWords "NEW" = ["NEW"] := by decide +kernel
  have hword : Command.ofWord? "NEW" = some .new := by decide +kernel
  have hnumber : programLine? "NEW" = none := by decide +kernel
  have hline : Command.isLine "NEW" = true := by decide +kernel
  refine sameStore_afterLine (by decide +kernel) (by decide) ?_ ?_
  · rw [entryOf, hnumber]
    simp only [hline, if_true]
  · rw [process, beginLine, hwords]
    simp only [hword]
    rfl

theorem readFirst_memory {files : Table String String} (hfiles : d.files = .memory files)
    (names : List String) : readFirst names d = .ok (names.findSome? files.get?) d := by
  induction names with
  | nil => rfl
  | cons name names ih =>
    have hread : ofFile (d.files.read name) d = .ok (files.get? name) d := by
      rw [hfiles]
      rfl
    rw [readFirst, get_bind_run, bind_run_of_ok hread, List.findSome?_cons]
    cases files.get? name with
    | none => exact ih
    | some content => rfl

theorem afterLine_load {files : Table String String} {content : String} {p : Program}
    (hfiles : d.files = .memory files) (hempty : d.session.program = .empty)
    (hname : Command.IsName name)
    (hfound : (Command.loadedNames name).findSome? files.get? = some content)
    (hread : Program.ofText content = .ok p) :
    (d.afterLine ("LOAD " ++ name)).session.program = p := by
  have hbegin : begin .load [name] d = .ok (.load name) d := by
    have hisEmpty : (!d.isConfirmed && !d.session.program.isEmpty) = false := by
      rw [hempty]
      exact Bool.and_false _
    rw [begin, beginLoad, get_bind_run]
    simp only [hisEmpty]
    rfl
  have hload : onSession (Command.finishLoad name (some content)) d =
      .ok () { d with session := { d.session.reset with program := p } } := by
    rw [Command.finishLoad, Command.replaceProgram, hread]
    rfl
  have hline : "LOAD " = "LOAD" ++ " " := by decide
  rw [hline]
  have hdone : (begin .load [name] >>= fulfil) d =
      .ok () { d with session := { d.session.reset with program := p } } := by
    rw [bind_run_of_ok hbegin, fulfil, bind_run_of_ok (readFirst_memory hfiles _), hfound]
    exact hload
  exact (sameStore_afterLine_line Command.isWord_load hname hdone).program

/-- Whether a name has the ending that programs are saved with, in any case of letters. -/
def HasEnding (name : String) : Prop :=
  ".BAS".toList <:+ (Text.upper name).toList

theorem savedName_eq (name : String) :
    HasEnding name ∧ Command.savedName name = name ∨
      ¬ HasEnding name ∧ Command.savedName name = name ++ ".bas" := by
  rw [Command.savedName]
  split
  · rename_i h
    exact .inl ⟨List.isSuffixOf_iff_suffix.1 h, rfl⟩
  · rename_i h
    exact .inr ⟨mt List.isSuffixOf_iff_suffix.2 h, rfl⟩

/-- What was saved is found, if no other file has a name that is looked for before. -/
theorem findSome?_loadedNames {files : Table String String} {content : String}
    (hfree : HasEnding name ∨ files.get? name = none ∧ files.get? (name ++ ".BAS") = none) :
    (Command.loadedNames name).findSome? (files.insert (Command.savedName name) content).get? =
      some content := by
  obtain ⟨-, hsaved⟩ | ⟨hending, hsaved⟩ := savedName_eq name
  · rw [hsaved, Command.loadedNames, List.findSome?_cons, Table.get?_insert_self]
  · obtain ⟨hplain, hcapitals⟩ := hfree.resolve_left hending
    have hne : name ≠ name ++ ".bas" := fun h ↦ by
      simpa using congrArg String.length h
    have hne' : name ++ ".BAS" ≠ name ++ ".bas" := fun h ↦ by
      have := congrArg String.toList h
      rw [String.toList_append, String.toList_append, List.append_cancel_left_eq] at this
      exact absurd this (by decide)
    rw [hsaved, Command.loadedNames, List.findSome?_cons, Table.get?_insert_of_ne _ _ hne, hplain,
      List.findSome?_cons, Table.get?_insert_of_ne _ _ hne', hcapitals, List.findSome?_cons,
      Table.get?_insert_self]

/-- A program whose texts are single lines is restored by saving it, discarding it and loading it,
whatever other files there are, if none of them has the name that was given or that name with the
ending in capitals; where the name that was given has an ending, there is no condition. -/
theorem load_saved {files : Table String String} (hfiles : d.files = .memory files)
    (hreachable : d.session.program.Reachable) (hnumerals : d.session.program.HasNumerals)
    (hlines : ∀ l ∈ d.session.program.lines, ∀ c ∈ l.2.toList, Text.isLineEnd c = false)
    (hname : Command.IsName name)
    (hfree : HasEnding name ∨ files.get? name = none ∧ files.get? (name ++ ".BAS") = none) :
    (((d.afterLine ("SAVE " ++ name)).afterLine "NEW").afterLine
      ("LOAD " ++ name)).session.program = d.session.program := by
  have hread : Program.ofText d.session.program.serialize = .ok d.session.program :=
    Program.ofText_serialize fun l hl ↦ ⟨hnumerals l hl, hreachable.isTidy l hl, hlines l hl⟩
  have hsaved := afterLine_save hfiles hname
  generalize d.afterLine ("SAVE " ++ name) = d₁ at hsaved ⊢
  have hnew := @afterLine_new d₁
  generalize d₁.afterLine "NEW" = d₂ at hnew ⊢
  exact afterLine_load (hnew.files.trans hsaved.files) hnew.program hname
    (findSome?_loadedNames hfree) hread

/-- A dialogue with a program of one line and some files. -/
def keeping (text : String) (files : List (String × String)) : Dialogue where
  session := { Session.start {} {} .unavailable 0 with program := Program.empty.storeAt 10 text }
  files := .memory ⟨files⟩

theorem load_saved_replaced :
    ((((keeping "END" [("prog.bas", "10 STOP\n"), ("PROG", "?")]).afterLine "SAVE prog").afterLine
      "NEW").afterLine "LOAD prog").session.program.lines = [(10, "END")] := by
  refine (congrArg Program.lines (@load_saved _ "prog" _ rfl ?_ ?_ ?_ ?_ ?_)).trans ?_
  · exact .operate (.store 10 "END") .empty rfl
  · decide +kernel
  · have hprogram : (keeping "END"
        [("prog.bas", "10 STOP\n"), ("PROG", "?")]).session.program.lines = [(10, "END")] := by
      decide +kernel
    rw [hprogram]
    simp [Text.isLineEnd]
  · exact ⟨by decide, by simp [Text.isBlank]⟩
  · exact .inr (by decide +kernel)
  · decide +kernel

/-- A file of the name that was given is loaded in the place of what was saved. -/
theorem not_forall_load_saved :
    ¬ ∀ (d : Dialogue) (files : Table String String) (name : String), d.files = .memory files →
      d.session.program.Reachable → d.session.program.HasNumerals →
      (∀ l ∈ d.session.program.lines, ∀ c ∈ l.2.toList, Text.isLineEnd c = false) →
      Command.IsName name →
      (((d.afterLine ("SAVE " ++ name)).afterLine "NEW").afterLine
        ("LOAD " ++ name)).session.program = d.session.program := by
  intro h
  have hprogram : (keeping "END" [("prog", "10 STOP\n")]).session.program.lines =
      [(10, "END")] := by decide +kernel
  have hsame := h (keeping "END" [("prog", "10 STOP\n")]) _ "prog" rfl
    (.operate (.store 10 "END") .empty rfl) (by decide +kernel)
    (by rw [hprogram]; simp [Text.isLineEnd]) ⟨by decide, by simp [Text.isBlank]⟩
  have hloaded : ((((keeping "END" [("prog", "10 STOP\n")]).afterLine ("SAVE " ++ "prog")).afterLine
      "NEW").afterLine ("LOAD " ++ "prog")).session.program.lines = [(10, "STOP")] := by
    decide +kernel
  rw [hsame, hprogram] at hloaded
  exact absurd hloaded (by decide)

end Dialogue
end LineBasic
