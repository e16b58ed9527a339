import LineBasic.Program
import Mathlib.Data.List.Sort

/-!
# Programs as maps

A program is determined by the texts of its lines: how it was edited does not show in it.

* `Program.mem_lines_iff` — the lines of a program, from its view as a map.
* `Program.eq_of_get?` — programs with the same texts are the same.
* `Edit` — what can be done to a program line by line; `get?_edited` says what it comes to.
-/

set_option autoImplicit false
namespace LineBasic

/-- A change of a program: a line entered, replaced or removed by its text, or a range of lines
removed. -/
inductive Edit where
  | store (n : Int) (text : String)
  | delete (start : Int) (stop : Option Int)

namespace Edit

/-- What an edit makes of the text of a line. -/
def textOf (n : Nat) (old : Option String) : Edit → Option String
  | store k text =>
    if k = n then
      if (Text.strip text).isEmpty then none else some (Text.strip text)
    else old
  | delete start stop => if start ≤ n ∧ (n : Int) ≤ stop.getD start then none else old

/-- The text of a line after edits of a program without lines. -/
def textAfter (edits : List Edit) (n : Nat) : Option String :=
  edits.foldl (fun old e ↦ e.textOf n old) none

end Edit

namespace Program

variable {p q : Program} {n m : Nat} {text : String}

/-! ## The map -/

/-- No two lines have the same number. -/
theorem eq_of_mem_lines {l k : Nat × String} (hl : l ∈ p.lines) (hk : k ∈ p.lines)
    (h : l.1 = k.1) : l = k :=
  List.inj_on_of_nodup_map (List.pairwise_map.2 (p.ascending.imp Nat.ne_of_lt)) hl hk h

theorem mem_lines_iff : (n, text) ∈ p.lines ↔ p.get? n = some text := by
  rw [get?, Option.map_eq_some_iff]
  constructor
  · intro hmem
    cases hfind : p.lines.find? (fun l ↦ l.1 == n) with
    | none => simpa using List.find?_eq_none.1 hfind _ hmem
    | some l =>
      have hn : l.1 = n := by simpa using List.find?_some hfind
      exact ⟨l, rfl, congrArg Prod.snd
        (eq_of_mem_lines (List.mem_of_find?_eq_some hfind) hmem hn)⟩
  · rintro ⟨⟨k, t⟩, hfind, rfl⟩
    obtain rfl : k = n := by simpa using List.find?_some hfind
    exact List.mem_of_find?_eq_some hfind

/-- Programs in which every line has the same text are the same: the lines are in the order of their
numbers. -/
theorem eq_of_get? (h : ∀ n, p.get? n = q.get? n) : p = q := by
  have hmem (l : Nat × String) : l ∈ p.lines ↔ l ∈ q.lines := by
    rw [← Prod.mk.eta (p := l), mem_lines_iff, mem_lines_iff, h]
  have hnodup (r : Program) : r.lines.Nodup :=
    r.ascending.imp fun hlt heq ↦ Nat.ne_of_lt hlt (congrArg Prod.fst heq)
  have hlines : p.lines = q.lines :=
    ((List.perm_ext_iff_of_nodup (hnodup p) (hnodup q)).2 hmem).eq_of_pairwise
      (fun _ _ _ _ hab hba ↦ absurd hab (Nat.lt_asymm hba)) p.ascending q.ascending
  cases p
  cases q
  congr

/-! ## Edits -/

theorem get?_filter (keep : Nat → Bool) :
    (p.filter fun l ↦ keep l.1).get? n = if keep n then p.get? n else none := by
  refine Option.ext fun text ↦ ?_
  rw [← mem_lines_iff, filter, List.mem_filter, mem_lines_iff]
  split <;> simp [*]

theorem mem_put_iff {ls : List (Nat × String)} (h : ls.Pairwise fun a b ↦ a.1 < b.1)
    {l : Nat × String} : l ∈ put n text ls ↔ l = (n, text) ∨ l ∈ ls ∧ l.1 ≠ n := by
  induction ls with
  | nil => simp [put]
  | cons k ks ih =>
    obtain ⟨hk, hks⟩ := List.pairwise_cons.1 h
    rw [put]
    split
    · have hlater : l ∈ k :: ks → l.1 ≠ n := fun hl ↦ by
        obtain rfl | hl := List.mem_cons.1 hl
        · omega
        · have := hk l hl
          omega
      rw [List.mem_cons]
      exact or_congr_right ⟨fun hl ↦ ⟨hl, hlater hl⟩, And.left⟩
    · split
      · have hlater : l ∈ ks → l.1 ≠ n := fun hl ↦ by
          have := hk l hl
          omega
        rw [List.mem_cons, List.mem_cons]
        refine or_congr_right ⟨fun hl ↦ ⟨.inr hl, hlater hl⟩, ?_⟩
        rintro ⟨hl, hne⟩
        exact hl.resolve_left fun heq ↦ hne (heq ▸ by omega)
      · rw [List.mem_cons, ih hks, List.mem_cons, or_and_right, or_left_comm]
        refine or_congr_right (or_congr_left ⟨fun heq ↦ ⟨heq, heq ▸ by omega⟩, And.left⟩)

theorem get?_insert : (p.insert n text).get? m = if m = n then some text else p.get? m := by
  refine Option.ext fun t ↦ ?_
  rw [← mem_lines_iff, insert, mem_put_iff p.ascending, mem_lines_iff]
  by_cases h : m = n
  · simp [h, eq_comm]
  · simp [h]

theorem get?_erase : (p.erase n).get? m = if m = n then none else p.get? m := by
  rw [erase, get?_filter (· != n)]
  by_cases h : m = n <;> simp [h]

theorem get?_storeAt : (p.storeAt n text).get? m =
    if m = n then if (Text.strip text).isEmpty then none else some (Text.strip text)
    else p.get? m := by
  simp only [storeAt]
  split
  · exact get?_erase
  · exact get?_insert

/-- What is stored in a line comes in the place of all that was stored there before. -/
theorem storeAt_storeAt (text' : String) :
    (p.storeAt n text).storeAt n text' = p.storeAt n text' := by
  refine eq_of_get? fun m ↦ ?_
  rw [get?_storeAt, get?_storeAt, get?_storeAt]
  split <;> rfl

/-- The program after an edit; a line that is refused leaves it as it is. -/
def edit (p : Program) : Edit → Program
  | .store n text => match p.store n text with
    | .ok q => q
    | .error _ => p
  | .delete start stop => (p.delete start stop).2

/-- The program that edits make from one without lines. -/
def edited (edits : List Edit) : Program :=
  edits.foldl edit empty

theorem get?_edit (e : Edit) : (p.edit e).get? n = e.textOf n (p.get? n) := by
  cases e with
  | store k text =>
    by_cases hk : k < 0
    · have hne : k ≠ n := by omega
      simp [edit, store, hk, Edit.textOf, hne]
    · have hiff : k = n ↔ n = k.toNat := by omega
      simp only [edit, store, hk, if_false, Edit.textOf, hiff]
      exact get?_storeAt
  | delete start stop =>
    let keep (k : Nat) : Bool := !(decide (start ≤ k) && decide ((k : Int) ≤ stop.getD start))
    rw [edit, delete, get?_filter keep]
    by_cases h : start ≤ n ∧ (n : Int) ≤ stop.getD start <;> simp [Edit.textOf, keep, h]

theorem get?_edited (edits : List Edit) : (edited edits).get? n = Edit.textAfter edits n := by
  suffices h : ∀ p : Program,
      (edits.foldl edit p).get? n = edits.foldl (fun old e ↦ e.textOf n old) (p.get? n) from h empty
  induction edits with
  | nil => exact fun p ↦ rfl
  | cons e edits ih => exact fun p ↦ (ih (p.edit e)).trans (by rw [get?_edit, List.foldl_cons])

end Program
end LineBasic
