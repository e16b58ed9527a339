import LineBasic.Text.Upper

/-!
# Upper case is reached at once

The upper case of a text is its own upper case.  The characters that have another upper case and
those that are the upper case of another one are listed in stretches of numbers; no number is in
both lists, which is checked for each pair of stretches by their ends, or by the parity of their
numbers.

* `Text.Stretch`, `Text.lowered`, `Text.raised` — the two lists.
* `Text.upper_upper` — the result.
-/

set_option autoImplicit false
namespace LineBasic.Text

/-- Numbers at equal distances, from a first to a last one. -/
structure Stretch where
  first : Nat
  last : Nat
  step : Nat

namespace Stretch

/-- The numbers of a stretch. -/
structure Has (a : Stretch) (n : Nat) : Prop where
  first_le : a.first ≤ n
  le_last : n ≤ a.last
  step : (n - a.first) % a.step = 0

/-- Whether all numbers of a stretch have the same parity. -/
def isEven (a : Stretch) : Bool :=
  Nat.beq a.step 2 || Nat.beq a.first a.last

/-- Whether two stretches are known to have no number in common: one ends before the other, or their
numbers differ in parity. -/
def isApart (a b : Stretch) : Bool :=
  Nat.blt a.last b.first || Nat.blt b.last a.first ||
    a.isEven && b.isEven && Nat.beq ((a.first + b.first) % 2) 1

variable {a b : Stretch} {n : Nat}

theorem Has.parity (h : a.Has n) (heven : a.isEven = true) : (n - a.first) % 2 = 0 := by
  rw [isEven, Bool.or_eq_true, Nat.beq_eq, Nat.beq_eq] at heven
  obtain hstep | hsingle := heven
  · exact hstep ▸ h.step
  · have := h.first_le
    have := h.le_last
    omega

theorem Has.not_has (ha : a.Has n) (hapart : a.isApart b = true) : ¬ b.Has n := by
  intro hb
  have := ha.first_le
  have := ha.le_last
  have := hb.first_le
  have := hb.le_last
  simp only [isApart, Bool.or_eq_true, Bool.and_eq_true, Nat.blt_eq, Nat.beq_eq] at hapart
  obtain (hbefore | hafter) | ⟨⟨haeven, hbeven⟩, hodd⟩ := hapart
  · omega
  · omega
  · have := ha.parity haeven
    have := hb.parity hbeven
    omega

end Stretch

/-- The characters that have another upper case. -/
def lowered : List Stretch :=
  ⟨97, 122, 1⟩ :: upperExpansions.map (fun e ↦ ⟨e.1, e.1, 1⟩) ++
    upperRuns.map fun (first, last, step, _) ↦ ⟨first, last, step⟩

/-- The characters that are the upper case of another one, or a part of it. -/
def raised : List Stretch :=
  ⟨65, 90, 1⟩ :: upperExpansions.flatMap (fun e ↦ e.2.map fun n ↦ ⟨n, n, 1⟩) ++
    upperRuns.map fun (first, last, step, image) ↦ ⟨image, image + (last - first), step⟩

theorem isApart_of_mem :
    (raised.all fun a ↦ lowered.all fun b ↦ a.isApart b) = true := by decide +kernel

theorem not_has_of_mem_raised {a : Stretch} {n : Nat} (ha : a ∈ raised) (hn : a.Has n) :
    ∀ b ∈ lowered, ¬ b.Has n := fun b hb ↦
  hn.not_has (List.all_eq_true.1 (List.all_eq_true.1 isApart_of_mem a ha) b hb)

/-! ## Single characters -/

theorem toNat_ofNat (n : Nat) : (Char.ofNat n).toNat = n ∨ Char.ofNat n = Char.ofNat 0 := by
  by_cases h : n.isValidChar
  · left
    rw [Char.ofNat, dif_pos h]
    rfl
  · right
    rw [Char.ofNat, dif_neg h]
    rfl

theorem toUpper_ofNat : ∀ n < 128, (Char.ofNat n).toUpper = Char.ofNat n ∨
    (97 ≤ n ∧ n ≤ 122) ∧ 65 ≤ (Char.ofNat n).toUpper.toNat ∧
      (Char.ofNat n).toUpper.toNat ≤ 90 := by decide +kernel

theorem toUpper_ascii {c : Char} (h : c.toNat < 128) : c.toUpper = c ∨
    (97 ≤ c.toNat ∧ c.toNat ≤ 122) ∧ 65 ≤ c.toUpper.toNat ∧ c.toUpper.toNat ≤ 90 := by
  have hc := toUpper_ofNat c.toNat h
  rwa [Char.ofNat_toNat] at hc

/-- A character that has no other upper case is its own. -/
theorem upperChar_eq_self {c : Char} (h : ∀ b ∈ lowered, ¬ b.Has c.toNat) : upperChar c = [c] := by
  rw [lowered, List.cons_append, List.forall_mem_cons, List.forall_mem_append] at h
  obtain ⟨hascii, hexpansions, hruns⟩ := h
  rw [upperChar]
  split
  · obtain hself | ⟨⟨hfirst, hlast⟩, -⟩ := toUpper_ascii ‹_›
    · rw [hself]
    · exact absurd ⟨hfirst, hlast, Nat.mod_one _⟩ hascii
  · have hexpansion : upperExpansions.find? (fun e ↦ e.1 == c.toNat) = none := by
      refine List.find?_eq_none.2 fun e he heq ↦ ?_
      have heq : e.1 = c.toNat := beq_iff_eq.1 heq
      exact hexpansions _ (List.mem_map_of_mem he)
        ⟨Nat.le_of_eq heq, Nat.le_of_eq heq.symm, Nat.mod_one _⟩
    have hrun : upperRuns.find? (fun (first, last, step, _) ↦
        first ≤ c.toNat && c.toNat ≤ last && (c.toNat - first) % step == 0) = none := by
      refine List.find?_eq_none.2 fun r hr hin ↦ ?_
      simp only [Bool.and_eq_true, decide_eq_true_eq, beq_iff_eq] at hin
      obtain ⟨⟨hfirst, hlast⟩, hstep⟩ := hin
      exact hruns _ (List.mem_map_of_mem hr) ⟨hfirst, hlast, hstep⟩
    rw [upperWide, hexpansion]
    simp only [hrun]

/-- What the upper case of a character consists of. -/
theorem mem_upperChar {c d : Char} (hd : d ∈ upperChar c) :
    upperChar c = [c] ∨ d = Char.ofNat 0 ∨ ∃ a ∈ raised, a.Has d.toNat := by
  have hnumber : ∀ n, (∃ a ∈ raised, a.Has n) → Char.ofNat n = Char.ofNat 0 ∨
      ∃ a ∈ raised, a.Has (Char.ofNat n).toNat := by
    intro n hn
    obtain hvalid | hzero := toNat_ofNat n
    · exact .inr (hvalid.symm ▸ hn)
    · exact .inl hzero
  rw [upperChar] at hd ⊢
  split at hd
  · rw [if_pos ‹_›]
    rw [List.mem_singleton] at hd
    subst hd
    obtain hself | ⟨-, hfirst, hlast⟩ := toUpper_ascii ‹_›
    · exact .inl (by rw [hself])
    · exact .inr (.inr ⟨_, List.mem_append_left _ (List.mem_cons_self ..),
        hfirst, hlast, Nat.mod_one _⟩)
  · rw [if_neg ‹_›]
    rw [upperWide] at hd ⊢
    split at hd
    · rename_i key image hfind
      obtain ⟨n, hn, rfl⟩ := List.mem_map.1 hd
      refine .inr (hnumber n ⟨⟨n, n, 1⟩, ?_, Nat.le_refl _, Nat.le_refl _, Nat.mod_one _⟩)
      refine List.mem_append_left _ (List.mem_cons_of_mem _ (List.mem_flatMap.2 ?_))
      exact ⟨(key, image), List.mem_of_find?_eq_some hfind, List.mem_map_of_mem hn⟩
    · simp only at hd ⊢
      split at hd
      · rename_i first last step image hfind
        rw [List.mem_singleton] at hd
        subst hd
        have hin := List.find?_some hfind
        simp only [Bool.and_eq_true, decide_eq_true_eq, beq_iff_eq] at hin
        obtain ⟨⟨hfirst, hlast⟩, hstep⟩ := hin
        refine .inr (hnumber _ ⟨⟨image, image + (last - first), step⟩, ?_, ?_, ?_, ?_⟩)
        · exact List.mem_append_right _ (List.mem_map.2 ⟨_, List.mem_of_find?_eq_some hfind, rfl⟩)
        · exact Nat.le_add_right ..
        · exact Nat.add_le_add_left (Nat.sub_le_sub_right hlast _) _
        · rwa [Nat.add_sub_cancel_left]
      · exact .inl rfl

theorem upperChar_of_mem_upperChar {c d : Char} (hd : d ∈ upperChar c) : upperChar d = [d] := by
  obtain hself | rfl | ⟨a, ha, hin⟩ := mem_upperChar hd
  · rw [hself, List.mem_singleton] at hd
    exact hd ▸ hself
  · rfl
  · exact upperChar_eq_self (not_has_of_mem_raised ha hin)

/-! ## Texts -/

theorem flatMap_upperChar {cs : List Char} (h : ∀ c ∈ cs, upperChar c = [c]) :
    cs.flatMap upperChar = cs := by
  induction cs with
  | nil => rfl
  | cons c cs ih =>
    rw [List.forall_mem_cons] at h
    rw [List.flatMap_cons, h.1, ih h.2, List.singleton_append]

theorem upper_upper (s : String) : upper (upper s) = upper s := by
  rw [upper, upper, String.toList_ofList]
  refine congrArg String.ofList (flatMap_upperChar fun d hd ↦ ?_)
  obtain ⟨c, -, hd⟩ := List.mem_flatMap.1 hd
  exact upperChar_of_mem_upperChar hd

end LineBasic.Text
