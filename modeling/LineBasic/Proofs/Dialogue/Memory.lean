import LineBasic.Proofs.Dialogue.Saving
import LineBasic.Proofs.Memory.Evaluation
import LineBasic.Proofs.Session.Reachable

/-!
# The memory of a dialogue

A line of the program is stored, and a value assigned, only if there is memory for it.  Renumbering
and loading put texts into the program without a look at the memory.  After any other line no more
memory is in use than there is, or than was in use before it.

* `Session.Within` — a closed session, and how much memory it uses.
* `Session.endures_within` — runs.
* `Dialogue.IsSparing`, `Dialogue.within_afterLine` — typed lines.
* `Dialogue.memoryUsed_afterLines` — the result.
-/

set_option autoImplicit false
namespace LineBasic

/-! ## Programs -/

namespace Program

/-- The memory that a line takes. -/
def lineFootprint (l : Nat × String) : Int :=
  (toString l.1).length + 1 + l.2.length

/-- The memory that lines take. -/
def linesFootprint (ls : List (Nat × String)) : Int :=
  ls.foldr (fun l size ↦ (toString l.1).length + 1 + l.2.length + size) 0

theorem lineFootprint_pos (l : Nat × String) : 0 < lineFootprint l := by
  rw [lineFootprint]
  omega

theorem linesFootprint_cons (l : Nat × String) (ls : List (Nat × String)) :
    linesFootprint (l :: ls) = lineFootprint l + linesFootprint ls := rfl

theorem footprint_eq (p : Program) : p.footprint = linesFootprint p.lines := rfl

theorem linesFootprint_nonneg (ls : List (Nat × String)) : 0 ≤ linesFootprint ls := by
  induction ls with
  | nil => exact Int.le_refl 0
  | cons l ls ih =>
    have hl := lineFootprint_pos l
    rw [linesFootprint_cons]
    omega

theorem footprint_nonneg (p : Program) : 0 ≤ p.footprint :=
  linesFootprint_nonneg p.lines

theorem footprint_filter_le (p : Program) (keep : Nat × String → Bool) :
    (p.filter keep).footprint ≤ p.footprint := by
  change linesFootprint (p.lines.filter keep) ≤ linesFootprint p.lines
  induction p.lines with
  | nil => exact Int.le_refl 0
  | cons l ls ih =>
    have hl := lineFootprint_pos l
    rw [List.filter_cons, linesFootprint_cons]
    split
    · rw [linesFootprint_cons]
      omega
    · omega

/-- The line that is put comes in the place of the one of its number. -/
theorem linesFootprint_put {ls : List (Nat × String)} (h : ls.Pairwise fun a b ↦ a.1 < b.1)
    (n : Nat) (text : String) : linesFootprint (put n text ls) =
      linesFootprint ls + lineFootprint (n, text) -
        ((ls.find? fun l ↦ l.1 == n).map lineFootprint).getD 0 := by
  induction ls with
  | nil =>
    simp only [put, linesFootprint_cons, List.find?_nil, Option.map_none, Option.getD_none]
    omega
  | cons k ks ih =>
    obtain ⟨hk, hks⟩ := List.pairwise_cons.1 h
    rw [put]
    split
    · rename_i hn
      have hnone : (k :: ks).find? (fun l ↦ l.1 == n) = none := by
        refine List.find?_eq_none.2 fun l hl ↦ ?_
        obtain rfl | hl := List.mem_cons.1 hl
        · simpa using (Nat.ne_of_lt hn).symm
        · simpa using (Nat.ne_of_lt (Nat.lt_trans hn (hk l hl))).symm
      rw [hnone, Option.map_none, Option.getD_none, linesFootprint_cons]
      omega
    · split
      · rename_i hn
        have hfirst : (k.1 == n) = true := by simp [hn]
        simp only [List.find?_cons, hfirst, Option.map_some, Option.getD_some, linesFootprint_cons]
        omega
      · rename_i hn
        have hother : (k.1 == n) = false := by simpa using Ne.symm hn
        simp only [List.find?_cons, hother, linesFootprint_cons, ih hks]
        omega

theorem length_strip_le (s : String) : (Text.strip s).length ≤ s.length := by
  rw [Text.strip, String.length_ofList, ← String.length_toList]
  exact (Text.trim_sublist _ _).length_le

/-- What a line takes at most comes on top when it is stored. -/
theorem footprint_storeAt_le (p : Program) (n : Nat) (text : String) :
    (p.storeAt n text).footprint ≤ p.footprint + lineFootprint (n, text) := by
  have hpos := lineFootprint_pos (n, text)
  simp only [storeAt]
  split
  · have hless := p.footprint_filter_le fun l ↦ l.1 != n
    rw [erase]
    omega
  · have hstrip := length_strip_le text
    rw [footprint_eq, footprint_eq, insert, linesFootprint_put p.ascending]
    cases p.lines.find? (fun l ↦ l.1 == n) with
    | none =>
      simp only [lineFootprint, Option.map_none, Option.getD_none]
      omega
    | some l =>
      have hl := lineFootprint_pos l
      simp only [lineFootprint, Option.map_some, Option.getD_some] at hl ⊢
      omega

/-- A line that gets the text that it has takes no more than before. -/
theorem footprint_storeAt_get?_le (p : Program) (n : Nat) :
    (p.storeAt n ((p.get? n).getD "")).footprint ≤ p.footprint := by
  simp only [storeAt]
  split
  · exact p.footprint_filter_le _
  · rename_i hne
    rw [footprint_eq, footprint_eq, insert, linesFootprint_put p.ascending]
    cases hfind : p.lines.find? (fun l ↦ l.1 == n) with
    | none =>
      rw [get?, hfind] at hne
      exact absurd rfl hne
    | some l =>
      have hn : l.1 = n := by simpa using List.find?_some hfind
      have hstrip := length_strip_le l.2
      simp only [get?, hfind, Option.map_some, Option.getD_some, lineFootprint, hn]
      omega

end Program

/-- The values that a statement works with come up while it is executed. -/
theorem Tree.IsParsed.values_eq_nil {t : Tree} (h : t.IsParsed) : t.values = [] := by
  obtain ⟨u, hu, rfl⟩ := h.isResolved
  exact Tree.values_resolve hu

/-! ## Sessions -/

/-- A closed session with a memory of the given size. -/
structure Session.IsSized (m : Int) (s : Session) : Prop where
  closed : s.IsClosed
  size : s.settings.memorySize.whole? = some m

/-- A closed session that uses no more than the memory that there is, or than the given amount. -/
structure Session.Within (m amount : Int) (s : Session) : Prop extends s.IsSized m where
  used : s.memoryUsed ≤ max m amount

namespace Session

variable {m amount : Int} {s s' : Session}

theorem isClosed_start (settings : Settings) (console : Console) (bus : Bus) (seed : UInt64) :
    (start settings console bus seed).IsClosed :=
  ⟨Nat.zero_lt_one, List.forall_mem_nil _, all_start _ _ _ _ _⟩

theorem IsSized.within (h : s.IsSized m) : s.Within m s.memoryUsed :=
  ⟨h, Int.le_max_right m s.memoryUsed⟩

namespace Within

theorem spends (h : s.Within m amount) (hs : s.Spends s') : s'.Within m amount where
  closed := hs.closed
  size := by rw [hs.settings, h.size]
  used := by
    have hmore := hs.used m h.size
    have hless := h.used
    omega

theorem books (h : s.Within m amount) (hs : s.SameText s') : s'.Within m amount := by
  refine h.spends (h.closed.spends hs.heap hs.vars hs.binders hs.program hs.settings ?_ ?_)
  · rw [hs.loops]
    exact h.closed.all.loops
  · rw [hs.data]
    exact h.closed.all.data

theorem unwind (h : s.Within m amount) : s.unwind.Within m amount where
  closed := h.closed.replace rfl rfl (List.forall_mem_nil _) (List.forall_mem_nil _)
    h.closed.all.data
  size := h.size
  used := h.used

theorem returned (h : s.Within m amount) :
    Within m amount { s with binders := s.binders.reset } where
  closed := h.closed.replace rfl rfl (List.forall_mem_nil _) h.closed.all.loops h.closed.all.data
  size := h.size
  used := h.used

theorem reset (h : s.Within m amount) : s.reset.Within m amount where
  closed := ⟨Nat.zero_lt_one, List.forall_mem_nil _, all_reset _ s⟩
  size := h.size
  used := Int.le_trans (memoryUsed_le_of_forgotten s s.reset rfl rfl) h.used

theorem collecting (b : Bool) (h : s.Within m amount) :
    Within m amount { s with isCollecting := b } :=
  h.spends (h.closed.spends rfl rfl rfl rfl rfl h.closed.all.loops h.closed.all.data)

/-- With a program that takes no more, a session uses no more. -/
theorem edit (h : s.Within m amount) {p : Program} (hp : p.footprint ≤ s.program.footprint) :
    Within m amount { s with program := p } where
  closed := h.closed.replace rfl rfl h.closed.frames h.closed.all.loops h.closed.all.data
  size := h.size
  used := Int.le_trans (Int.add_le_add_left hp _) h.used

end Within

theorem IsSized.edit (h : s.IsSized m) (p : Program) : IsSized m { s with program := p } where
  closed := h.closed.replace rfl rfl h.closed.frames h.closed.all.loops h.closed.all.data
  size := h.size

/-! ## Runs -/

section
variable {α : Type} {act : Action α}

theorem keeps_of_frugal (h : Frugal 0 act) :
    Keeps (Within m amount) (fun _ ↦ True) act := by
  refine ⟨fun s hs ↦ ?_⟩
  have hlands := h.run s (Nat.zero_le _) hs.closed
  generalize act s = r at hlands
  cases hlands with
  | ok hs' _ => exact .ok trivial (hs.spends hs')
  | error hs' => exact .error trivial (hs.spends hs')

theorem keeps_isSized {Q : α → Prop} (h : ∀ amount, Keeps (Within m amount) Q act) :
    Keeps (IsSized m) Q act :=
  ⟨fun s hs ↦ ((h s.memoryUsed).run s hs.within).mono (fun _ hs' ↦ hs'.toIsSized) (fun _ ↦ id)
    fun _ ↦ id⟩

end

theorem keeps_execute_within (site : Site) {t : Tree} (ht : t.IsParsed) :
    Keeps (Within m amount) (fun _ ↦ True) (execute site t) :=
  keeps_of_frugal (frugal_execute site ht.values_eq_nil)

/-- Runs use no more memory than was used, or than there is. -/
theorem endures_within (m amount : Int) : Endures (Within m amount) where
  books := .books
  unwind := .unwind
  returned := .returned
  reset := .reset
  execute := keeps_execute_within
  collect h := keeps_collect .collecting .unwind fun e he ↦
    keeps_execute_within e.1 (h.collected he)

theorem endures_isSized (m : Int) : Endures (IsSized m) where
  books hs hs' := (hs.within.books hs').toIsSized
  unwind hs := hs.within.unwind.toIsSized
  returned hs := hs.within.returned.toIsSized
  reset hs := hs.within.reset.toIsSized
  execute site _ ht := keeps_isSized fun amount ↦ (endures_within m amount).execute site ht
  collect h := keeps_isSized fun amount ↦ (endures_within m amount).collect h

/-! ## Changes of the program -/

theorem Within.discard (h : s.Within m amount) :
    Within m amount { s.reset with program := .empty } :=
  h.reset.edit s.program.footprint_nonneg

theorem memoryFree_eq (h : s.settings.memorySize.whole? = some m) :
    s.memoryFree = .ok (.whole (m - s.memoryUsed)) := by
  rw [memoryFree, Quantity.sub, Quantity.compute, h]
  rfl

/-- A line is stored if there is memory for it; otherwise it gets back the text that it had. -/
theorem storeLine_eq (hm : s.settings.memorySize.whole? = some m) {n : Int} {text : String}
    (hn : 0 ≤ n) :
    Dialogue.storeLine n text s =
      if m < memoryUsed { s with program := s.program.storeAt n.toNat text } then
        .error (.fault (Dialogue.noMemory n))
          { s with program := s.program.storeAt n.toNat ((s.program.get? n.toNat).getD "") }
      else .ok () { s with program := s.program.storeAt n.toNat text } := by
  have hstore (p : Program) (text : String) : p.store n text = .ok (p.storeAt n.toNat text) :=
    if_neg (Int.not_lt.2 hn)
  let after : Session := { s with program := s.program.storeAt n.toNat text }
  have hfree : after.memoryFree = .ok (.whole (m - after.memoryUsed)) := memoryFree_eq hm
  have hbelow : Action.ofStop (Quantity.isBelow (.whole (m - after.memoryUsed)) 0) =
      pure (decide (m - after.memoryUsed < 0)) := rfl
  have hset : (set after : Action PUnit) s = .ok ⟨⟩ after := rfl
  rw [Dialogue.storeLine, get_bind_run, hstore, Action.ofFault, pure_bind, bind_run_of_ok hset,
    get_bind_run, hfree, Action.ofStop, pure_bind, hbelow, pure_bind, hstore,
    Program.storeAt_storeAt, Action.ofFault, pure_bind]
  have hiff : m - after.memoryUsed < 0 ↔ m < after.memoryUsed := by omega
  by_cases hfull : m < after.memoryUsed
  · rw [if_pos hfull, if_pos (decide_eq_true (hiff.2 hfull))]
    rfl
  · rw [if_neg hfull, if_neg fun htrue ↦ hfull (hiff.1 (of_decide_eq_true htrue))]
    rfl

theorem storeLine_of_neg {n : Int} (hn : n < 0) (text : String) :
    Dialogue.storeLine n text s =
      .error (.fault (.malformed ("Invalid line number " ++ toString n))) s := by
  rw [Dialogue.storeLine, get_bind_run, Program.store, if_pos hn]
  rfl

theorem keeps_storeLine_within (n : Int) (text : String) :
    Keeps (Within m amount) (fun _ ↦ True) (Dialogue.storeLine n text) := by
  refine ⟨fun s hs ↦ ?_⟩
  by_cases hn : n < 0
  · exact storeLine_of_neg hn text ▸ .error trivial hs
  · rw [storeLine_eq hs.size (Int.not_lt.1 hn)]
    split
    · exact .error trivial (hs.edit (s.program.footprint_storeAt_get?_le n.toNat))
    · refine .ok trivial ⟨hs.toIsSized.edit _, ?_⟩
      omega

end Session

/-! ## Commands -/

/-- Whether the program takes no more memory after a command than before it, or than there is. -/
def Command.isSparing : Command → Bool
  | .renumber | .load | .yes => false
  | _ => true

theorem Command.respects_within {c : Command} (h : c.isSparing = true) (m amount : Int) :
    c.Respects (Session.Within m amount) := by
  cases c with
  | new => exact .modify fun _ hs ↦ Session.Within.discard hs
  | delete =>
    exact keeps_deleteLines fun _ _ _ hs ↦ hs.edit (Program.footprint_filter_le _ _)
  | renumber | load | yes => cases h
  | _ => trivial

namespace Dialogue

/-- A typed line that is neither a `RENUM`, nor a `LOAD`, nor the confirmation of one. -/
def IsSparing (line : String) : Prop :=
  ∀ c ∈ (entryOf (Text.strip line)).command?, c.isSparing = true

instance (line : String) : Decidable (IsSparing line) :=
  inferInstanceAs (Decidable (∀ c ∈ (entryOf (Text.strip line)).command?, c.isSparing = true))

/-- The dialogue after typed lines. -/
def afterLines (d : Dialogue) (lines : List String) : Dialogue :=
  lines.foldl afterLine d

theorem afterLines_cons (d : Dialogue) (line : String) (lines : List String) :
    d.afterLines (line :: lines) = (d.afterLine line).afterLines lines := rfl

variable {m amount : Int} {d : Dialogue}

theorem keeps_afterLine {P : Session → Prop} {line : String}
    (h : Keeps (Has P) (fun _ ↦ True) (submit line)) (hd : P d.session) :
    P (d.afterLine line).session := by
  have hends := h.run d hd
  rw [afterLine]
  generalize submit line d = r at hends
  cases hends with
  | ok _ hd' => exact hd'
  | error _ hd' => exact hd'

theorem within_afterLine {line : String} (hline : IsSparing line)
    (hd : d.session.Within m amount) : (d.afterLine line).session.Within m amount :=
  keeps_afterLine (keeps_submit (Session.endures_within m amount)
    ⟨Session.keeps_storeLine_within, fun c hc ↦ c.respects_within (hline c hc) m amount⟩) hd

theorem isSized_afterLine (line : String) (hd : d.session.IsSized m) :
    (d.afterLine line).session.IsSized m := by
  have hrespects : (entryOf (Text.strip line)).Respects (Session.IsSized m) :=
    Entry.respects (fun hs ↦ hs.within.reset.toIsSized) (fun p hs ↦ hs.edit p) _
  exact keeps_afterLine (keeps_submit (Session.endures_isSized m) hrespects) hd

theorem within_afterLines {lines : List String} (hlines : ∀ line ∈ lines, IsSparing line)
    (hd : d.session.Within m amount) : (d.afterLines lines).session.Within m amount := by
  induction lines generalizing d with
  | nil => exact hd
  | cons line lines ih =>
    rw [List.forall_mem_cons] at hlines
    exact ih hlines.2 (within_afterLine hlines.1 hd)

theorem isSized_afterLines (lines : List String) (hd : d.session.IsSized m) :
    (d.afterLines lines).session.IsSized m := by
  induction lines generalizing d with
  | nil => exact hd
  | cons line lines ih => exact ih (isSized_afterLine line hd)

/-! ## The result -/

/-- What `FRE` prints is the memory that is left. -/
theorem process_free (h : d.session.settings.memorySize.whole? = some m) :
    process "FRE" d = printLine (toString (m - d.session.memoryUsed)) d := by
  have hwords : Command.lineWords "FRE" = ["FRE"] := by decide +kernel
  have hword : Command.ofWord? "FRE" = some .free := by decide +kernel
  have hfree : onSession (do Action.print ((← Action.ofStop (← get).memoryFree).text ++ "\n")) d =
      printLine (toString (m - d.session.memoryUsed)) d := by
    rw [onSession, get_bind_run, Session.memoryFree_eq h]
    rfl
  rw [process, beginLine, hwords]
  simp only [hword, begin, begin.alone]
  exact bind_run_congr (bind_run_congr hfree fun _ _ _ ↦ rfl) fun _ _ _ ↦ rfl

/-- A dialogue at its start. -/
def start (settings : Settings) (console : Console) (bus : Bus) (seed : UInt64)
    (files : FileStore) : Dialogue where
  session := .start settings console bus seed
  files := files

/-- In a session with a memory of `m` bytes, a typed line that is neither a `RENUM`, nor a `LOAD`,
nor the confirmation of one, leaves no more memory in use than there is, or than was in use before
it, whatever lines were typed before.  So without such lines never more memory is in use than there
is.  What `FRE` prints is the memory that is left, which is negative where too much is in use. -/
theorem memoryUsed_afterLines (settings : Settings) (console : Console) (bus : Bus) (seed : UInt64)
    (files : FileStore) {m : Int} (hm : settings.memorySize.whole? = some m) (hnonneg : 0 ≤ m)
    (lines : List String) :
    let d := (start settings console bus seed files).afterLines lines
    (∀ line, IsSparing line → (d.afterLine line).session.memoryUsed ≤ max m d.session.memoryUsed) ∧
    ((∀ line ∈ lines, IsSparing line) → d.session.memoryUsed ≤ m) ∧
    process "FRE" d = printLine (toString (m - d.session.memoryUsed)) d := by
  intro d
  have hstart : (start settings console bus seed files).session.IsSized m :=
    ⟨Session.isClosed_start settings console bus seed, hm⟩
  have hd : d.session.IsSized m := isSized_afterLines lines hstart
  refine ⟨fun line hline ↦ (within_afterLine hline hd.within).used, fun hlines ↦ ?_,
    process_free hd.size⟩
  have hbefore : (start settings console bus seed files).session.Within m m :=
    ⟨hstart, Int.le_trans hnonneg (Int.le_max_left m m)⟩
  have hused : d.session.memoryUsed ≤ max m m := (within_afterLines hlines hbefore).used
  rwa [Int.max_self] at hused

/-- A dialogue with little memory at its start. -/
def cramped : Dialogue :=
  start { memorySize := 10 } {} .unavailable 0 (.memory {})

theorem memoryUsed_afterLines_full :
    (cramped.afterLines ["1 PRINT 12"]).session.memoryUsed ≤ 10 ∧
      process "FRE" (cramped.afterLines ["1 PRINT 12"]) =
        printLine "0" (cramped.afterLines ["1 PRINT 12"]) := by
  have h := memoryUsed_afterLines { memorySize := 10 } {} .unavailable 0 (.memory {}) (m := 10) rfl
    (by decide) ["1 PRINT 12"]
  have hused : (cramped.afterLines ["1 PRINT 12"]).session.memoryUsed = 10 := by decide +kernel
  refine ⟨h.2.1 (by decide +kernel), h.2.2.trans ?_⟩
  change printLine (toString (10 - (cramped.afterLines ["1 PRINT 12"]).session.memoryUsed)) _ = _
  rw [hused]
  rfl

/-- The number that `RENUM` gives the line takes one more byte than there is. -/
theorem memoryUsed_renumbered :
    10 < (cramped.afterLines ["1 PRINT 12", "RENUM"]).session.memoryUsed ∧
      process "FRE" (cramped.afterLines ["1 PRINT 12", "RENUM"]) =
        printLine "-1" (cramped.afterLines ["1 PRINT 12", "RENUM"]) := by
  have hused : (cramped.afterLines ["1 PRINT 12", "RENUM"]).session.memoryUsed = 11 := by
    decide +kernel
  have hsized : (cramped.afterLines ["1 PRINT 12", "RENUM"]).session.IsSized 10 :=
    isSized_afterLines _ ⟨Session.isClosed_start _ _ _ _, rfl⟩
  refine ⟨by rw [hused]; decide, (process_free hsized.size).trans ?_⟩
  rw [hused]
  rfl

end Dialogue
end LineBasic
