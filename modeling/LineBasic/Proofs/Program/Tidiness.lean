import LineBasic.Program.Renumber
import LineBasic.Proofs.Numeral
import LineBasic.Proofs.Program.Editing
import LineBasic.Proofs.Text.Lines

/-!
# What a program can come to be

A program is changed by storing a line, deleting lines, clearing, renumbering and reading a text.
None of them leaves an empty text behind, or one with blanks at its ends: renumbering rewrites
digits only, so that a text keeps its first character, and a blank cannot come to be its last.

* `Program.Operation`, `Program.Reachable` — the changes, and what they lead to.
* `Text.IsTidy` — a text that a line can have.
* `Program.IsLegible`, `Program.isLegible_of_ofText` — a line that can be read from a text.
* `Program.Renumbering.isTidy_text` — renumbering keeps texts tidy.
* `Program.Reachable.isTidy` — all texts of a program that can come to be are tidy.
-/

set_option autoImplicit false
namespace LineBasic

/-! ## Tidy texts -/

namespace Text

/-- A text that is not empty and has no blank at its ends. -/
structure IsTidy (s : String) : Prop where
  ne_empty : s ≠ ""
  strip_eq : strip s = s

theorem isTidy_strip {s : String} (h : (strip s).isEmpty = false) : IsTidy (strip s) where
  ne_empty heq := by simp [heq] at h
  strip_eq := strip_strip s

theorem isTidy_iff {s : String} :
    IsTidy s ↔ s.toList ≠ [] ∧ (∀ c ∈ s.toList.head?, isBlank c = false) ∧
      ∀ c ∈ s.toList.getLast?, isBlank c = false := by
  rw [← trim_eq_self_iff, Ne, String.toList_eq_nil_iff]
  have hstrip : strip s = s ↔ trim isBlank s.toList = s.toList := by
    rw [strip, ← String.toList_inj, String.toList_ofList]
  exact ⟨fun h ↦ ⟨h.ne_empty, hstrip.1 h.strip_eq⟩, fun h ↦ ⟨h.1, hstrip.2 h.2⟩⟩

/-- A text that is one line: no character of it ends one. -/
def IsUnbroken (s : String) : Prop :=
  ∀ c ∈ s.toList, isLineEnd c = false

instance (s : String) : Decidable (IsUnbroken s) :=
  decidable_of_iff ((s.toList.all fun c ↦ !isLineEnd c) = true) (by simp [IsUnbroken])

theorem lt_of_digitsValue? {cs : List Char} {n : Nat} (h : digitsValue? cs = some n) :
    n < 10 ^ cs.length := by
  suffices hrun : ∀ (cs : List Char) (acc : Option Nat) (n : Nat),
      cs.foldl (fun acc c ↦ do return (← acc) * 10 + (← digitValue? c)) acc = some n →
      ∃ k, acc = some k ∧ n < (k + 1) * 10 ^ cs.length by
    obtain ⟨k, hk, hn⟩ := hrun cs (some 0) n h
    cases hk
    simpa using hn
  intro cs
  induction cs with
  | nil => exact fun acc n h ↦ ⟨n, h, by simp⟩
  | cons c cs ih =>
    intro acc n h
    obtain ⟨k, hk, hn⟩ := ih _ n h
    obtain ⟨j, hj, hk⟩ := Option.bind_eq_some_iff.1 hk
    obtain ⟨d, hd, hk⟩ := Option.bind_eq_some_iff.1 hk
    cases hk
    refine ⟨j, hj, Nat.lt_of_lt_of_le hn ?_⟩
    rw [List.length_cons, Nat.pow_succ, Nat.mul_comm (10 ^ _), ← Nat.mul_assoc]
    have := digitValue?_lt hd
    exact Nat.mul_le_mul_right _ (by omega)

end Text

namespace Program

/-! ## Operations -/

/-- A change of a program. -/
inductive Operation where
  | store (n : Int) (text : String)
  | delete (start : Int) (stop : Option Int)
  | clear
  | renumber
  | read (content : String)

/-- The program after an operation that succeeds. -/
def operate (p : Program) : Operation → Except Stop Program
  | .store n text => (p.store n text).mapError .fault
  | .delete start stop => .ok (p.delete start stop).2
  | .clear => .ok empty
  | .renumber => (p.renumber.map Prod.snd).mapError .mishap
  | .read content => ofText content

/-- The programs that operations lead to; one that fails leaves the program as it is. -/
inductive Reachable : Program → Prop
  | empty : Reachable empty
  | operate {p q : Program} (op : Operation) (hp : Reachable p) (h : p.operate op = .ok q) :
      Reachable q

/-- A program whose texts are tidy. -/
def IsTidy (p : Program) : Prop :=
  ∀ l ∈ p.lines, Text.IsTidy l.2

variable {p q : Program} {n : Nat} {text : String}

theorem IsTidy.filter (h : p.IsTidy) (keep : Nat × String → Bool) : (p.filter keep).IsTidy :=
  fun l hl ↦ h l (List.mem_of_mem_filter hl)

theorem IsTidy.storeAt (h : p.IsTidy) (n : Nat) (text : String) : (p.storeAt n text).IsTidy := by
  rw [Program.storeAt]
  split
  · exact h.filter _
  · rename_i hne
    intro l hl
    obtain rfl | hl := mem_put hl
    · exact Text.isTidy_strip (Bool.eq_false_iff.2 hne)
    · exact h l hl

/-- A line that can be read: its number is not too long to be read as one, and its text is tidy and
one line. -/
structure IsLegible (l : Nat × String) : Prop where
  number : (toString l.1).length ≤ Numeral.digitLimit
  isTidy : Text.IsTidy l.2
  isUnbroken : Text.IsUnbroken l.2

theorem length_le_of_lineNumber {digits : List Char} (h : lineNumber digits = .ok n) :
    (toString n).length ≤ Numeral.digitLimit := by
  rw [lineNumber] at h
  split at h
  · cases h
  · rename_i hlimit
    split at h
    · rename_i m hm
      cases h
      rw [Nat.toString_eq_ofList_toDigits, String.length_ofList,
        Nat.length_toDigits_le_iff (by decide) (by decide)]
      exact Nat.lt_of_lt_of_le (Text.lt_of_digitsValue? hm)
        (Nat.pow_le_pow_right (by decide) (Nat.not_lt.1 hlimit))
    · cases h

/-- What a line of text adds to a program can be read. -/
theorem isLegible_of_addLine {raw : String} (hraw : Text.IsUnbroken raw)
    (hp : ∀ l ∈ p.lines, IsLegible l) (h : p.addLine raw = .ok q) :
    ∀ l ∈ q.lines, IsLegible l := by
  simp only [addLine] at h
  split at h
  · exact Except.ok.inj h ▸ hp
  · split at h
    · split at h
      · exact Except.ok.inj h ▸ hp
      · rename_i hne
        split at h
        · rename_i n hn
          cases h
          intro l hl
          obtain rfl | hl := mem_put hl
          · refine ⟨length_le_of_lineNumber hn, Text.isTidy_strip (Bool.eq_false_iff.2 hne),
              fun c hc ↦ hraw c ?_⟩
            rw [Text.strip, String.toList_ofList, String.toList_ofList] at hc
            exact (Text.trim_sublist _ _).subset <| (List.dropWhile_sublist _).subset <|
              List.mem_of_mem_drop <| (Text.trim_sublist _ _).subset hc
          · exact hp l hl
        · cases h
    · cases h

/-- All lines of a program that has been read can be read. -/
theorem isLegible_of_ofText {content : String} (h : ofText content = .ok p) :
    ∀ l ∈ p.lines, IsLegible l := by
  refine of_foldlM h nofun fun p hp raw hraw q hadd ↦ isLegible_of_addLine ?_ hp hadd
  obtain ⟨line, hline, rfl⟩ := List.mem_map.1 hraw
  rw [Text.IsUnbroken, String.toList_ofList]
  exact Text.forall_mem_splitLines hline

/-! ## Renumbering -/

theorem isPrefix_targetGap (cs : List Char) : targetGap cs <+: cs := by
  rw [targetGap]
  split
  · rename_i rest hcomma
    split
    · split
      · refine ⟨rest.dropWhile Text.isBlank, ?_⟩
        rw [List.append_assoc, List.cons_append, List.takeWhile_append_dropWhile, ← hcomma,
          List.takeWhile_append_dropWhile]
      · exact List.nil_prefix
    · exact List.nil_prefix
  · exact List.nil_prefix

/-- The targets that are taken off a text, and what follows them, are the text. -/
theorem append_of_targetsWithin {rounds : Nat} {cs rest : List Char} {parts : List TargetPart}
    (h : targetsWithin rounds cs = (parts, rest)) : parts.flatMap TargetPart.text ++ rest = cs := by
  induction rounds generalizing cs parts with
  | zero =>
    rw [targetsWithin, Prod.mk.injEq] at h
    obtain ⟨rfl, rfl⟩ := h
    rfl
  | succ rounds ih =>
    simp only [targetsWithin] at h
    split at h
    · cases h
      simp [TargetPart.text, List.takeWhile_append_dropWhile]
    · rename_i gap _
      cases h
      have hdrop := List.prefix_iff_eq_append.1
        (isPrefix_targetGap (cs.dropWhile Text.isDecimalDigit))
      simp only [List.flatMap_cons, TargetPart.text, List.append_assoc]
      rw [ih rfl, hdrop, List.takeWhile_append_dropWhile]

/-- A jump that is taken off a text, and what follows it, are the text; the jump's word comes
first. -/
theorem append_of_jump? {cs lead rest : List Char} {parts : List TargetPart}
    (h : jump? cs = some (lead, parts, rest)) :
    lead ≠ [] ∧ lead ++ (parts.flatMap TargetPart.text ++ rest) = cs := by
  obtain ⟨length, -, h⟩ := Option.bind_eq_some_iff.1 h
  simp only at h
  split at h
  · cases h
  · rename_i hblanks
    cases h
    have hlead : (cs.drop length).takeWhile Text.isBlank ≠ [] := by
      intro hnil
      simp [hnil] at hblanks
    refine ⟨fun hnil ↦ hlead (List.append_eq_nil_iff.1 hnil).2, ?_⟩
    rw [append_of_targetsWithin rfl, List.append_assoc, List.takeWhile_append_dropWhile,
      List.take_append_drop]

namespace Renumbering

variable {m : Renumbering}

/-- The second text is what a rewriting makes of the first: it is empty only if that is, and ends
with a blank only if that does. -/
structure Follows (cs ds : List Char) : Prop where
  nil : ds = [] → cs = []
  getLast? : (∀ c ∈ cs.getLast?, Text.isBlank c = false) → ∀ c ∈ ds.getLast?, Text.isBlank c = false

theorem Follows.refl (cs : List Char) : Follows cs cs := ⟨id, id⟩

theorem Follows.append {cs cs' ds ds' : List Char} (h : Follows cs cs') (hd : Follows ds ds') :
    Follows (cs ++ ds) (cs' ++ ds') where
  nil heq := by
    obtain ⟨hcs, hds⟩ := List.append_eq_nil_iff.1 heq
    rw [h.nil hcs, hd.nil hds, List.append_nil]
  getLast? hlast c hc := by
    rw [List.getLast?_append] at hlast hc
    obtain hc | ⟨hnone, hc⟩ := Option.or_eq_some_iff.1 hc
    · exact hd.getLast? (fun d hd ↦ hlast d (Option.or_eq_some_iff.2 (.inl hd))) c hc
    · rw [hd.nil (List.getLast?_eq_none_iff.1 hnone)] at hlast
      exact h.getLast? (by simpa using hlast) c hc

theorem follows_part {part : TargetPart} {cs : List Char} (h : m.part part = .ok cs) :
    Follows part.text cs := by
  cases part with
  | between text => exact Except.ok.inj h ▸ .refl text
  | numeral digits =>
    obtain ⟨n, -, h⟩ := bind_eq_ok.1 h
    split at h
    · rename_i new _
      cases h
      refine ⟨fun h ↦ absurd h (Numeral.digits_ne_nil new), fun _ c hc ↦ ?_⟩
      exact Text.isBlank_of_isDigit (Numeral.isDigit_of_mem_digits (List.mem_of_mem_getLast? hc))
    · cases h
      exact .refl _

theorem follows_parts {parts : List TargetPart} {targets : List (List Char)}
    (h : parts.mapM m.part = .ok targets) :
    Follows (parts.flatMap TargetPart.text) targets.flatten := by
  induction parts generalizing targets with
  | nil =>
    cases h
    exact .refl []
  | cons part parts ih =>
    rw [List.mapM_cons] at h
    obtain ⟨cs, hpart, h⟩ := bind_eq_ok.1 h
    obtain ⟨rest, hrest, h⟩ := bind_eq_ok.1 h
    cases h
    exact (follows_part hpart).append (ih hrest)

/-- What becomes of a text has its first character, and ends with a blank only if the text does. -/
theorem follows_within {rounds : Nat} {inWord : Bool} {cs ds : List Char}
    (h : m.within rounds inWord cs = .ok ds) : Follows cs ds ∧ ds.head? = cs.head? := by
  induction rounds generalizing inWord cs ds with
  | zero =>
    rw [within] at h
    cases h
    exact ⟨.refl cs, rfl⟩
  | succ rounds ih =>
    cases cs with
    | nil =>
      cases h
      exact ⟨.refl [], rfl⟩
    | cons c cs =>
      rw [within] at h
      split at h
      · rename_i lead parts rest hjump
        have hjump : jump? (c :: cs) = some (lead, parts, rest) := by
          split at hjump
          · cases hjump
          · exact hjump
        obtain ⟨hlead, happend⟩ := append_of_jump? hjump
        obtain ⟨targets, htargets, h⟩ := bind_eq_ok.1 h
        obtain ⟨after, hafter, h⟩ := bind_eq_ok.1 h
        cases h
        rw [← happend, List.append_assoc, List.head?_append_of_ne_nil _ hlead,
          List.head?_append_of_ne_nil _ hlead]
        exact ⟨(Follows.refl lead).append ((follows_parts htargets).append (ih hafter).1), rfl⟩
      · obtain ⟨after, hafter, h⟩ := bind_eq_ok.1 h
        cases h
        exact ⟨(Follows.refl [c]).append (ih hafter).1, rfl⟩

theorem isTidy_text {s t : String} (hs : Text.IsTidy s) (h : m.text s = .ok t) : Text.IsTidy t := by
  obtain ⟨ds, hds, h⟩ := bind_eq_ok.1 h
  cases h
  obtain ⟨hfollows, hhead⟩ := follows_within hds
  obtain ⟨hne, hfirst, hlast⟩ := Text.isTidy_iff.1 hs
  rw [Text.isTidy_iff, String.toList_ofList, hhead]
  exact ⟨mt hfollows.nil hne, hfirst, hfollows.getLast? hlast⟩

end Renumbering

theorem mem_of_mem_numbered {k : Nat} {texts : List String} {l : Nat × String}
    (h : l ∈ numbered k texts) : l.2 ∈ texts := by
  induction texts generalizing k with
  | nil => cases h
  | cons text texts ih =>
    obtain rfl | h := List.mem_cons.1 h
    · exact List.mem_cons_self ..
    · exact List.mem_cons_of_mem _ (ih h)

theorem IsTidy.renumber {m : Renumbering} (hp : p.IsTidy) (h : p.renumber = .ok (m, q)) :
    q.IsTidy := by
  obtain ⟨texts, htexts, h⟩ := bind_eq_ok.1 h
  cases h
  have htidy : ∀ text ∈ texts, Text.IsTidy text :=
    forall_mem_of_mapM htexts fun l hl t ht ↦ Renumbering.isTidy_text (hp l hl) ht
  exact fun l hl ↦ htidy l.2 (mem_of_mem_numbered hl)

/-! ## All operations -/

theorem IsTidy.operate {op : Operation} (hp : p.IsTidy) (h : p.operate op = .ok q) : q.IsTidy := by
  cases op with
  | store n text =>
    change ((if n < 0 then _ else _ : Except Fault Program).mapError Stop.fault) = _ at h
    by_cases hn : n < 0
    · rw [if_pos hn] at h
      cases h
    · rw [if_neg hn] at h
      cases h
      exact hp.storeAt _ _
  | delete start stop =>
    cases h
    exact hp.filter _
  | clear =>
    cases h
    exact nofun
  | renumber =>
    change ((p.renumber.map Prod.snd).mapError Stop.mishap) = _ at h
    cases hrun : p.renumber with
    | error mishap =>
      rw [hrun] at h
      cases h
    | ok result =>
      rw [hrun] at h
      cases h
      exact hp.renumber hrun
  | read content => exact fun l hl ↦ (isLegible_of_ofText h l hl).isTidy

theorem Reachable.isTidy (h : p.Reachable) : p.IsTidy := by
  induction h with
  | empty => exact nofun
  | operate _ _ h ih => exact ih.operate h

end Program

end LineBasic
