import Mathlib.Data.List.Induction
import LineBasic.Builtin.Sequence
import LineBasic.Proofs.Results
import LineBasic.Proofs.Safety.Execution
import LineBasic.Proofs.Writes

/-!
# Grids

An array with several dimensions is an array of arrays, and so on.  What makes it a map from
subscripts to values is that no two of its rows are the same array: so a write to one row is a write
to one element.

* `IsRow`, `IsCell` — the subscripts that lead to a row, and to an element.
* `Heap.Holds` — an array with all its rows, and the values of its elements.
* `Heap.Holds.set` — a write replaces one element.
* `makes_zeros` — a new array holds zeros.
-/

set_option autoImplicit false
namespace LineBasic

/-! ## Subscripts -/

/-- Subscripts that lead to a row: there are fewer of them than dimensions. -/
def IsRow : List Nat → List Nat → Prop
  | [], _ => False
  | _ :: _, [] => True
  | d :: ds, i :: w => i < d ∧ IsRow ds w

/-- Subscripts that lead to an element. -/
abbrev IsCell (ds is : List Nat) : Prop :=
  List.Forall₂ (· < ·) is ds

section
variable {ds w : List Nat} {d i : Nat}

theorem IsRow.length_lt (h : IsRow ds w) : w.length < ds.length := by
  induction ds generalizing w with
  | nil => exact h.elim
  | cons d ds ih =>
    cases w with
    | nil => exact Nat.zero_lt_succ _
    | cons i w => exact Nat.succ_lt_succ (ih h.2)

theorem IsRow.drop_eq (h : IsRow ds w) :
    ∃ d, ds[w.length]? = some d ∧ ds.drop w.length = d :: ds.drop (w.length + 1) :=
  ⟨_, List.getElem?_eq_getElem h.length_lt, List.drop_eq_getElem_cons h.length_lt⟩

theorem isRow_nil (h : ds ≠ []) : IsRow ds [] := by
  cases ds with
  | nil => exact absurd rfl h
  | cons d ds => trivial

/-- One more subscript leads on from a row, to a row or to an element. -/
theorem isRow_append (h : IsRow ds w) (hi : ∀ d ∈ ds[w.length]?, i < d) :
    (w.length + 1 < ds.length → IsRow ds (w ++ [i])) ∧
      (w.length + 1 = ds.length → IsCell ds (w ++ [i])) := by
  induction ds generalizing w with
  | nil => exact h.elim
  | cons d ds ih =>
    cases w with
    | nil =>
      have hfirst : i < d := hi d rfl
      refine ⟨fun hlength ↦ ⟨hfirst, isRow_nil ?_⟩, fun hlength ↦ ?_⟩
      · rintro rfl
        simp at hlength
      · obtain rfl : ds = [] := List.eq_nil_of_length_eq_zero (by simpa using hlength.symm)
        exact .cons hfirst .nil
    | cons j w =>
      obtain ⟨hrow, hcell⟩ := ih h.2 hi
      simp only [List.length_cons, Nat.add_lt_add_iff_right, Nat.add_right_cancel_iff]
      exact ⟨fun hlength ↦ ⟨h.1, hrow hlength⟩, fun hlength ↦ .cons h.1 (hcell hlength)⟩

/-- The row before the last subscript of a row. -/
theorem IsRow.of_append (h : IsRow ds (w ++ [i])) :
    IsRow ds w ∧ ∀ d ∈ ds[w.length]?, i < d := by
  induction ds generalizing w with
  | nil => exact h.elim
  | cons d ds ih =>
    cases w with
    | nil => exact ⟨trivial, fun d' hd' ↦ Option.some.inj hd' ▸ h.1⟩
    | cons j w =>
      obtain ⟨hrow, hi⟩ := ih h.2
      exact ⟨⟨h.1, hrow⟩, hi⟩

/-- The row of an element. -/
theorem IsCell.of_append (h : IsCell ds (w ++ [i])) : IsRow ds w ∧ w.length + 1 = ds.length := by
  refine ⟨?_, by simpa using h.length_eq⟩
  induction ds generalizing w with
  | nil => simpa using h.length_eq
  | cons d ds ih =>
    cases w with
    | nil => trivial
    | cons j w =>
      cases h with
      | cons hj h => exact ⟨hj, ih h⟩

end

/-! ## Arrays of arrays -/

/-- An array of the given dimensions, the rows of which are different arrays: `row` gives the places
of the rows, that of the array itself among them, and `cell` the values of the elements. -/
structure Heap.Holds (h : Heap) (ds : List Nat) (cell : List Nat → Value) (row : List Nat → Nat) :
    Prop where
  size : ∀ w, IsRow ds w → ∀ d ∈ ds[w.length]?, (h.elements (row w)).size = d
  inner : ∀ w i, IsRow ds (w ++ [i]) → (h.elements (row w))[i]? = some (.array (row (w ++ [i])))
  value : ∀ w i, IsCell ds (w ++ [i]) → (h.elements (row w))[i]? = some (cell (w ++ [i]))
  apart : ∀ w w', IsRow ds w → IsRow ds w' → row w = row w' → w = w'

namespace Heap.Holds

variable {h h' : Heap} {ds w : List Nat} {cell : List Nat → Value} {row : List Nat → Nat} {i : Nat}

/-- Only the elements of the rows count. -/
theorem congr (hh : h.Holds ds cell row)
    (hrows : ∀ w, IsRow ds w → h'.elements (row w) = h.elements (row w)) :
    h'.Holds ds cell row where
  size w hw := hrows w hw ▸ hh.size w hw
  inner w i hw := hrows w hw.of_append.1 ▸ hh.inner w i hw
  value w i hw := hrows w hw.of_append.1 ▸ hh.value w i hw
  apart := hh.apart

theorem child? (hh : h.Holds ds cell row) (hw : IsRow ds (w ++ [i])) :
    h.child? (row w) i = some (row (w ++ [i])) := by
  rw [Heap.child?, hh.inner w i hw]

/-- The subscripts of a row lead to it. -/
theorem follow (hh : h.Holds ds cell row) (hw : IsRow ds w) :
    h.follow (row []) w = .ok (row w) := by
  induction w using List.reverseRecOn with
  | nil => rfl
  | append_singleton w i ih => exact Heap.follow_append (ih hw.of_append.1) (hh.child? hw)

theorem readElement (hh : h.Holds ds cell row) (hw : IsCell ds (w ++ [i])) :
    h.readElement (row []) w i = .ok (cell (w ++ [i])) :=
  readElement_eq_ok.2 ⟨row w, hh.follow hw.of_append.1, hh.value w i hw⟩

theorem writeElement (hh : h.Holds ds cell row) (hw : IsCell ds (w ++ [i])) (v : Value) :
    h.writeElement (row []) w i v = .ok (h.set (row w) i v) := by
  obtain ⟨hi, -⟩ := Array.getElem?_eq_some_iff.1 (hh.value w i hw)
  rw [Heap.writeElement, hh.follow hw.of_append.1]
  exact if_pos hi

/-- A write to an element replaces it, and no other one. -/
theorem set (hh : h.Holds ds cell row) (hw : IsCell ds (w ++ [i])) (v : Value) :
    (h.set (row w) i v).Holds ds (fun is ↦ if is = w ++ [i] then v else cell is) row := by
  obtain ⟨hrow, hlength⟩ := hw.of_append
  have hsame {w' : List Nat} (hw' : IsRow ds w') (hne : w' ≠ w) :
      (h.set (row w) i v).elements (row w') = h.elements (row w') := by
    rw [Heap.elements_set, if_neg fun heq ↦ hne (hh.apart w w' hrow hw' heq).symm]
  refine ⟨fun w' hw' ↦ ?_, fun w' j hw' ↦ ?_, fun w' j hw' ↦ ?_, hh.apart⟩
  · rw [Heap.size_elements_set]
    exact hh.size w' hw'
  · rw [hsame hw'.of_append.1 ?_, hh.inner w' j hw']
    rintro rfl
    have := hw'.length_lt
    simp only [List.length_append, List.length_singleton] at this
    omega
  · by_cases hne : w' = w
    · subst hne
      rw [Heap.elements_set, if_pos rfl, Array.getElem?_setIfInBounds]
      obtain ⟨hi, -⟩ := Array.getElem?_eq_some_iff.1 (hh.value w' i hw)
      by_cases hj : i = j
      · subst hj
        rw [if_pos rfl, if_pos hi, if_pos rfl]
      · rw [if_neg hj, hh.value w' j hw', if_neg ?_]
        intro heq
        exact hj (by simpa using heq.symm)
    · rw [hsame hw'.of_append.1 hne, hh.value w' j hw', if_neg ?_]
      intro heq
      exact hne (List.append_inj_left' heq rfl)

end Heap.Holds

/-! ## New arrays -/

section
variable {h h' : Heap} {ds : List Nat} {cell : List Nat → Value} {row : List Nat → Nat}

/-- The rows of an array with one more dimension. -/
def Heap.rowOf (base : Nat) (rows : List (List Nat → Nat)) : List Nat → Nat
  | [] => base
  | i :: w => (rows[i]?.map (· w)).getD 0

/-- An array of arrays that are apart from each other and from it. -/
theorem Heap.holds_cons {base : Nat} {rows : List (List Nat → Nat)} (hds : ds ≠ [])
    (helements : h.elements base = (rows.map fun row ↦ Value.array (row [])).toArray)
    (hrows : ∀ row ∈ rows, h.Holds ds (fun _ ↦ .number 0) row ∧ ∀ w, IsRow ds w → row w < base)
    (hapart : rows.Pairwise fun row row' ↦ ∀ w w', IsRow ds w → IsRow ds w' → row w < row' w') :
    h.Holds (rows.length :: ds) (fun _ ↦ .number 0) (rowOf base rows) := by
  have hrow {i : Nat} {w : List Nat} (hi : i < rows.length) :
      rowOf base rows (i :: w) = rows[i] w := by
    rw [rowOf, List.getElem?_eq_getElem hi]
    rfl
  have hmem {i : Nat} (hi : i < rows.length) := hrows _ (List.getElem_mem hi)
  refine ⟨fun w hw d hd ↦ ?_, fun w i hw ↦ ?_, fun w i hw ↦ ?_, fun w w' hw hw' heq ↦ ?_⟩
  · cases w with
    | nil =>
      cases hd
      rw [rowOf, helements]
      simp
    | cons j w =>
      rw [hrow hw.1]
      exact (hmem hw.1).1.size w hw.2 d hd
  · cases w with
    | nil =>
      have hi : i < rows.length := hw.1
      rw [rowOf, helements, List.nil_append, hrow hi]
      simp [hi]
    | cons j w =>
      rw [List.cons_append, hrow hw.1, hrow hw.1]
      exact (hmem hw.1).1.inner w i hw.2
  · cases w with
    | nil =>
      cases hw with
      | cons _ hw =>
        cases hw
        exact absurd rfl hds
    | cons j w =>
      cases hw with
      | cons hj hw =>
        rw [hrow hj]
        exact (hmem hj).1.value w i hw
  · have hbase {j : Nat} {w : List Nat} (hw : IsRow (rows.length :: ds) (j :: w)) :
        rowOf base rows (j :: w) < base := by
      rw [hrow hw.1]
      exact (hmem hw.1).2 w hw.2
    cases w with
    | nil => cases w' with
      | nil => rfl
      | cons j w' => exact absurd heq.symm (Nat.ne_of_lt (hbase hw'))
    | cons i w => cases w' with
      | nil => exact absurd heq (Nat.ne_of_lt (hbase hw))
      | cons j w' =>
        rw [hrow hw.1, hrow hw'.1] at heq
        rw [List.pairwise_iff_getElem] at hapart
        obtain hlt | rfl | hlt := Nat.lt_trichotomy i j
        · exact absurd heq (Nat.ne_of_lt (hapart i j hw.1 hw'.1 hlt w w' hw.2 hw'.2))
        · rw [(hmem hw.1).1.apart w w' hw.2 hw'.2 heq]
        · exact absurd heq.symm (Nat.ne_of_lt (hapart j i hw'.1 hw.1 hlt w' w hw'.2 hw.2))

end

/-- An action that makes an array of zeros, with all its rows new. -/
def Makes (ds : List Nat) (act : Action Value) : Prop :=
  ∀ s : Session, ∃ h' row, act s = .ok (.array (row [])) { s with heap := h' } ∧
    s.heap.Grows h' ∧ h'.Holds ds (fun _ ↦ .number 0) row ∧
    ∀ w, IsRow ds w → s.heap.size ≤ row w ∧ row w < h'.size

section
variable {ds : List Nat} {act : Action Value}

/-- Arrays that are made one after the other are apart. -/
theorem Makes.timesM (h : Makes ds act) (count : Nat) (s : Session) :
    ∃ (h' : Heap) (rows : List (List Nat → Nat)),
    Builtin.timesM act count s = .ok (rows.map fun row ↦ .array (row [])) { s with heap := h' } ∧
    s.heap.Grows h' ∧ rows.length = count ∧
    (∀ row ∈ rows, h'.Holds ds (fun _ ↦ .number 0) row ∧
      ∀ w, IsRow ds w → s.heap.size ≤ row w ∧ row w < h'.size) ∧
    rows.Pairwise fun row row' ↦ ∀ w w', IsRow ds w → IsRow ds w' → row w < row' w' := by
  induction count generalizing s with
  | zero => exact ⟨s.heap, [], rfl, .refl _, rfl, nofun, .nil⟩
  | succ count ih =>
    obtain ⟨h₁, row, hact, hgrows, hholds, hbounds⟩ := h s
    obtain ⟨h₂, rows, hacts, hgrows', hlength, hrows, hapart⟩ := ih { s with heap := h₁ }
    refine ⟨h₂, row :: rows, ?_, hgrows.trans hgrows', by rw [List.length_cons, hlength], ?_, ?_⟩
    · rw [Builtin.timesM]
      exact (bind_run_of_ok hact).trans (bind_run_of_ok hacts)
    · refine List.forall_mem_cons.2
        ⟨⟨hholds.congr fun w hw ↦ ?_, fun w hw ↦ ?_⟩, fun row' hrow' ↦ ?_⟩
      · exact hgrows'.elements _ (hbounds w hw).2
      · exact ⟨(hbounds w hw).1, Nat.lt_of_lt_of_le (hbounds w hw).2 hgrows'.size⟩
      · obtain ⟨hholds', hbounds'⟩ := hrows row' hrow'
        exact ⟨hholds', fun w hw ↦ ⟨Nat.le_trans hgrows.size (hbounds' w hw).1, (hbounds' w hw).2⟩⟩
    · refine List.pairwise_cons.2 ⟨fun row' hrow' w w' hw hw' ↦ ?_, hapart⟩
      exact Nat.lt_of_lt_of_le (hbounds w hw).2 ((hrows row' hrow').2 w' hw').1

theorem newArray_run (elements : List Value) (s : Session) :
    Action.newArray elements s =
      .ok (.array s.heap.size) { s with heap := (s.heap.alloc elements.toArray).2 } := rfl

/-- A row of zeros. -/
theorem Heap.holds_zeros {h : Heap} {base d : Nat}
    (helements : h.elements base = (List.replicate d (Value.number 0)).toArray) :
    h.Holds [d] (fun _ ↦ .number 0) (fun _ ↦ base) where
  size w hw d' hd' := by
    cases w with
    | nil =>
      cases hd'
      simp [helements]
    | cons i w => exact hw.2.elim
  inner w i hw := by
    have := hw.length_lt
    simp at this
  value w i hw := by
    obtain rfl : w = [] := List.eq_nil_of_length_eq_zero (by simpa using hw.length_eq)
    cases hw with
    | cons hi _ => simp [helements, hi]
  apart w w' hw hw' _ := by
    cases w with
    | nil => cases w' with
      | nil => rfl
      | cons j w' => exact hw'.2.elim
    | cons i w => exact hw.2.elim

/-- A new array holds zeros. -/
theorem makes_zeros (d : Nat) (ds : List Nat) : Makes (d :: ds) (Builtin.zeros d ds) := by
  induction ds generalizing d with
  | nil =>
    intro s
    let elements := (List.replicate d (Value.number 0)).toArray
    have hgrows := s.heap.grows_alloc elements
    have hnew := s.heap.elements_alloc_new elements
    refine ⟨_, fun _ ↦ s.heap.size, newArray_run _ s, hgrows, Heap.holds_zeros hnew, fun w _ ↦ ?_⟩
    exact ⟨Nat.le_refl _, by simp [Heap.alloc, Heap.size]⟩
  | cons d' ds ih =>
    intro s
    obtain ⟨h₁, rows, hacts, hgrows, rfl, hrows, hapart⟩ := Makes.timesM (ih d') d s
    let elements := (rows.map fun row ↦ Value.array (row [])).toArray
    have hgrows' := h₁.grows_alloc elements
    have hnew := h₁.elements_alloc_new elements
    have hsize : h₁.size < (h₁.alloc elements).2.size := by simp [Heap.alloc, Heap.size]
    have hholds : (h₁.alloc elements).2.Holds (rows.length :: d' :: ds) (fun _ ↦ .number 0)
        (Heap.rowOf h₁.size rows) := by
      refine Heap.holds_cons (List.cons_ne_nil _ _) hnew (fun row hrow ↦ ?_) hapart
      obtain ⟨hholds, hbounds⟩ := hrows row hrow
      exact ⟨hholds.congr fun w hw ↦ hgrows'.elements _ (hbounds w hw).2,
        fun w hw ↦ (hbounds w hw).2⟩
    refine ⟨_, _, ?_, hgrows.trans hgrows', hholds, fun w hw ↦ ?_⟩
    · exact (bind_run_of_ok hacts).trans (newArray_run _ _)
    · cases w with
      | nil => exact ⟨hgrows.size, hsize⟩
      | cons i w =>
        obtain ⟨-, hbounds⟩ := hrows _ (List.getElem_mem hw.1)
        rw [Heap.rowOf, List.getElem?_eq_getElem hw.1]
        exact ⟨(hbounds w hw.2).1, Nat.lt_trans (hbounds w hw.2).2 hsize⟩

end

end LineBasic
