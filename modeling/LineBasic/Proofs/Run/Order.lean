import LineBasic.Proofs.Run.Failures

/-!
# The order of statements

The statements of a program stand in the order of their lines, and on a line in the order in which
they are written.  What comes next at a site is the first statement that is not before it.

* `Site.Before` — the order.
* `Listing.placed` — the statements of a listing in this order.
* `Listing.first?_eq_find?` — what comes next.
* `Program.parsed` — the listing of a program.
-/

set_option autoImplicit false
namespace LineBasic

/-- A site stands before another one. -/
def Site.Before (a b : Site) : Prop :=
  a.line < b.line ∨ a.line = b.line ∧ a.statement < b.statement

instance (a b : Site) : Decidable (a.Before b) :=
  inferInstanceAs (Decidable (_ ∨ _))

namespace Site

variable {a b : Site}

theorem Before.not_before (h : a.Before b) : ¬ b.Before a := by
  unfold Before at *
  omega

theorem before_next (a : Site) : a.Before a.next :=
  .inr ⟨rfl, Nat.lt_succ_self _⟩

theorem not_before_next (h : a.Before b) : ¬ b.Before a.next := by
  unfold Before next at *
  simp only
  omega

end Site

/-! ## Listings -/

/-- The statements of a line with their sites. -/
def placedOn (l : Nat × Statements) : List Placed :=
  l.2.zipIdx.map fun e ↦ (⟨l.1, e.2⟩, e.1)

/-- The statements of a listing with their sites, in the order of the text. -/
def Listing.placed (lines : Listing) : List Placed :=
  lines.flatMap placedOn

section
variable {lines : Listing} {l : Nat × Statements} {p : Placed} {site : Site}

theorem mem_placedOn : p ∈ placedOn l ↔ p.1.line = l.1 ∧ l.2[p.1.statement]? = some p.2 := by
  obtain ⟨⟨line, k⟩, t⟩ := p
  simp only [placedOn, List.mem_map, List.mk_mem_zipIdx_iff_getElem?, Prod.exists, Prod.mk.injEq,
    Site.mk.injEq]
  constructor
  · rintro ⟨t', k', h, ⟨rfl, rfl⟩, rfl⟩
    exact ⟨rfl, h⟩
  · rintro ⟨rfl, h⟩
    exact ⟨t, k, h, ⟨rfl, rfl⟩, rfl⟩

theorem pairwise_placedOn (l : Nat × Statements) :
    (placedOn l).Pairwise fun p q ↦ p.1.Before q.1 := by
  rw [placedOn, List.pairwise_map]
  refine (List.pairwise_map.1 ?_ : (l.2.zipIdx).Pairwise fun e e' ↦ e.2 < e'.2).imp
    fun h ↦ .inr ⟨rfl, h⟩
  rw [List.zipIdx_map_snd]
  exact List.pairwise_lt_range'

/-- The first element whose position is not below a bound. -/
theorem find?_zipIdx {α : Type} (as : List α) {n k : Nat} (h : n ≤ k) :
    ((as.zipIdx n).find? fun e ↦ !decide (e.2 < k)) = as[k - n]?.map fun a ↦ (a, k) := by
  induction as generalizing n with
  | nil => rfl
  | cons a as ih =>
    rw [List.zipIdx_cons, List.find?_cons]
    obtain rfl | hlt := Nat.eq_or_lt_of_le h
    · simp
    · obtain ⟨j, rfl⟩ := Nat.exists_eq_add_of_lt hlt
      rw [ih (by omega)]
      simp [Nat.add_assoc, show n + (j + 1) - n = j + 1 by omega,
        show n + (j + 1) - (n + 1) = j by omega]

theorem find?_placedOn (l : Nat × Statements) (site : Site) :
    ((placedOn l).find? fun p ↦ !decide (p.1.Before site)) =
      if (l.1 : Int) < site.line then none
      else
        let k := if (l.1 : Int) = site.line then site.statement else 0
        l.2[k]?.map fun t ↦ (⟨l.1, k⟩, t) := by
  rw [placedOn, List.find?_map]
  split
  · rename_i hlt
    have hbefore (e : Option Tree × Nat) : Site.Before ⟨l.1, e.2⟩ site := .inl hlt
    rw [List.find?_eq_none.2 fun e _ ↦ by simpa using hbefore e, Option.map_none]
  · have hbefore (e : Option Tree × Nat) : Site.Before ⟨l.1, e.2⟩ site ↔
        e.2 < if (l.1 : Int) = site.line then site.statement else 0 := by
      simp only [Site.Before]
      split <;> omega
    simp only [Function.comp_def, hbefore]
    rw [find?_zipIdx _ (Nat.zero_le _), Option.map_map, Nat.sub_zero]
    rfl

/-- What comes next at a site is the first statement that is not before it. -/
theorem Listing.first?_eq_find? (lines : Listing) (site : Site) :
    lines.first? site = lines.placed.find? fun p ↦ !decide (p.1.Before site) := by
  induction lines with
  | nil => rfl
  | cons l lines ih =>
    rw [Listing.placed, List.flatMap_cons, List.find?_append, find?_placedOn, ← Listing.placed,
      ← ih, Listing.first?, List.findSome?_cons]
    split
    · rename_i h
      rw [h, Option.some_or]
    · rename_i h
      rw [h, Option.none_or, Listing.first?]

/-- What is executed before a program runs are its labels and data, in the order of the text. -/
theorem Listing.collected_eq (lines : Listing) : lines.collected =
    lines.placed.filterMap fun p ↦ (p.2.filter isCollected).map (p.1, ·) := by
  rw [placed, List.filterMap_flatMap, collected]
  congr 1
  funext l
  rw [placedOn, List.filterMap_map]
  congr 1
  funext ⟨statement, k⟩
  cases statement with
  | none => rfl
  | some t => cases h : isCollected t <;> simp [h, Option.filter]

/-! ## Ascending lines -/

/-- The lines of a listing are in ascending order. -/
def Listing.IsAscending (lines : Listing) : Prop :=
  lines.Pairwise fun l k ↦ l.1 < k.1

theorem Listing.mem_placed : p ∈ lines.placed ↔
    ∃ l ∈ lines, p.1.line = l.1 ∧ l.2[p.1.statement]? = some p.2 := by
  rw [placed, List.mem_flatMap]
  exact exists_congr fun l ↦ and_congr_right fun _ ↦ mem_placedOn

theorem Listing.mem_collected {t : Tree} :
    (site, t) ∈ lines.collected ↔ (site, some t) ∈ lines.placed ∧ isCollected t = true := by
  rw [collected_eq, List.mem_filterMap]
  constructor
  · rintro ⟨⟨site', statement⟩, hp, h⟩
    obtain ⟨t', ht', heq⟩ := Option.map_eq_some_iff.1 h
    obtain ⟨hstatement, hcollected⟩ := Option.filter_eq_some_iff.1 ht'
    cases heq
    exact ⟨hstatement ▸ hp, hcollected⟩
  · rintro ⟨hp, ht⟩
    exact ⟨_, hp, by simp [Option.filter, ht]⟩

/-- The statements from a site on. -/
def Listing.onward (lines : Listing) (site : Site) : List Placed :=
  lines.placed.filter fun p ↦ !decide (p.1.Before site)

theorem Listing.IsAscending.pairwise_placed (h : lines.IsAscending) :
    lines.placed.Pairwise fun p q ↦ p.1.Before q.1 := by
  refine List.pairwise_flatMap.2 ⟨fun l _ ↦ pairwise_placedOn l, h.imp fun hlt p hp q hq ↦ .inl ?_⟩
  rw [(mem_placedOn.1 hp).1, (mem_placedOn.1 hq).1]
  exact_mod_cast hlt

/-- Once the first statement from a site on is passed, the others are left. -/
theorem Listing.IsAscending.onward_next (h : lines.IsAscending) {rest : List Placed}
    (hrest : lines.onward site = p :: rest) : lines.onward p.1.next = rest := by
  have hp : ¬ p.1.Before site := by
    simpa using (List.mem_filter.1 (hrest ▸ List.mem_cons_self .. : p ∈ lines.onward site)).2
  have hpast (q : Placed) (hq : q.1.Before site) : q.1.Before p.1.next := by
    unfold Site.Before Site.next at *
    simp only
    omega
  have hasc : (p :: rest).Pairwise fun p q ↦ p.1.Before q.1 :=
    hrest ▸ h.pairwise_placed.filter _
  have honward : lines.onward p.1.next =
      (lines.onward site).filter fun q ↦ !decide (q.1.Before p.1.next) := by
    rw [Listing.onward, Listing.onward, List.filter_filter]
    refine List.filter_congr fun q _ ↦ ?_
    by_cases hq : q.1.Before site <;> simp [hq, hpast]
  rw [honward, hrest, List.filter_cons_of_neg (by simpa using p.1.before_next),
    List.filter_eq_self.2 fun q hq ↦ by
      simpa using Site.not_before_next ((List.pairwise_cons.1 hasc).1 q hq)]

theorem Listing.first?_eq_head? (lines : Listing) (site : Site) :
    lines.first? site = (lines.onward site).head? := by
  rw [first?_eq_find?, onward, List.head?_filter]

/-- A statement at a site comes next there. -/
theorem Listing.IsAscending.first?_of_mem (h : lines.IsAscending) {t : Option Tree}
    (ht : (site, t) ∈ lines.placed) : lines.first? site = some (site, t) := by
  have hself : ¬ site.Before site := fun hbefore ↦ hbefore.not_before hbefore
  have hmem : (site, t) ∈ lines.onward site := List.mem_filter.2 ⟨ht, by simpa using hself⟩
  have hasc : (lines.onward site).Pairwise fun p q ↦ p.1.Before q.1 := h.pairwise_placed.filter _
  rw [first?_eq_head?]
  cases honward : lines.onward site with
  | nil => simp [honward] at hmem
  | cons p rest =>
    rw [honward] at hmem hasc
    obtain heq | hrest := List.mem_cons.1 hmem
    · rw [heq, List.head?_cons]
    · have hp : p ∈ lines.onward site := honward ▸ List.mem_cons_self ..
      have hnot : ¬ p.1.Before site := by simpa using (List.mem_filter.1 hp).2
      exact absurd ((List.pairwise_cons.1 hasc).1 _ hrest) hnot

/-- Where the statements of a line have ended, what comes next is on a later line. -/
theorem Listing.first?_of_not_mem (h : ∀ t, (site, t) ∉ lines.placed) :
    lines.first? site = lines.first? ⟨site.line + 1, 0⟩ := by
  rw [first?_eq_head?, first?_eq_head?, onward, onward]
  congr 1
  refine List.filter_congr fun p hp ↦ ?_
  have hiff : p.1.Before site ↔ p.1.Before ⟨site.line + 1, 0⟩ := by
    constructor
    · intro hbefore
      unfold Site.Before at *
      simp only
      omega
    · intro hbefore
      refine Classical.byContradiction fun hnot ↦ ?_
      obtain ⟨l, hl, hline, hget⟩ := mem_placed.1 hp
      have hsame : p.1.line = site.line ∧ site.statement ≤ p.1.statement := by
        unfold Site.Before at *
        simp only at hbefore
        omega
      obtain ⟨hlt, -⟩ := List.getElem?_eq_some_iff.1 hget
      exact h l.2[site.statement] (mem_placed.2 ⟨l, hl, hsame.1.symm.trans hline,
        List.getElem?_eq_getElem (Nat.lt_of_le_of_lt hsame.2 hlt)⟩)
  simp only [hiff]

end

/-! ## The listing of a program -/

/-- A line of a program with its statements. -/
def parsedLine (l : Nat × String) : Except Stop (Nat × Statements) :=
  return (l.1, ← parseLine Builtin.isName (some l.1) l.2)

/-- The lines of a program with their statements. -/
def Program.parsed (p : Program) : Except Stop Listing :=
  p.lines.mapM parsedLine

section
variable {s s' : Session}

theorem parse_eq_ok {line : Option Int} {text : String} {statements : Statements}
    (h : Action.parse line text s = .ok statements s') :
    s' = s ∧ parseLine Builtin.isName line text = .ok statements := by
  refine ⟨(h ▸ (keeps_parse (P := (· = s)) line text).run s rfl).of_ok.2, ?_⟩
  unfold Action.parse at h
  cases hparse : parseLine Builtin.isName line text with
  | error stop =>
    rw [hparse] at h
    cases h
  | ok statements' =>
    rw [hparse] at h
    obtain ⟨a, s₁, ha, h⟩ := bind_run_eq_ok.1 h
    cases ha
    rw [get_bind_run] at h
    split at h
    · obtain ⟨_, _, -, h⟩ := bind_run_eq_ok.1 h
      cases h
      rfl
    · cases h
      rfl

/-- Actions that change nothing and give what functions give, one after the other. -/
theorem mapM_run_eq_ok {γ α : Type} {g : γ → Action α} {f : γ → Except Stop α}
    (hg : ∀ c a s s', g c s = .ok a s' → s' = s ∧ f c = .ok a) {cs : List γ} {as : List α}
    (h : cs.mapM g s = .ok as s') : s' = s ∧ cs.mapM f = .ok as := by
  induction cs generalizing as s with
  | nil =>
    cases h
    exact ⟨rfl, rfl⟩
  | cons c cs ih =>
    rw [List.mapM_cons] at h ⊢
    obtain ⟨a, s₁, ha, h⟩ := bind_run_eq_ok.1 h
    obtain ⟨as', s₂, has, h⟩ := bind_run_eq_ok.1 h
    cases h
    obtain ⟨rfl, hc⟩ := hg c a s s₁ ha
    obtain ⟨rfl, hcs⟩ := ih has
    rw [hc, hcs]
    exact ⟨rfl, rfl⟩

theorem listing_eq_ok {lines : Listing} (h : Action.listing s = .ok lines s') :
    s' = s ∧ s.program.parsed = .ok lines := by
  rw [Action.listing, get_bind_run] at h
  refine mapM_run_eq_ok (fun l a s s' h ↦ ?_) h
  obtain ⟨statements, s₁, hparse, hline⟩ := bind_run_eq_ok.1 h
  cases hline
  obtain ⟨rfl, hread⟩ := parse_eq_ok hparse
  rw [parsedLine, hread]
  exact ⟨rfl, rfl⟩

theorem Program.parsed_eq_ok {p : Program} {lines : Listing} (h : p.parsed = .ok lines) :
    lines.map Prod.fst = p.lines.map Prod.fst := by
  unfold parsed at h
  generalize p.lines = ls at h
  induction ls generalizing lines with
  | nil =>
    cases h
    rfl
  | cons l ls ih =>
    rw [List.mapM_cons] at h
    obtain ⟨k, hk, h⟩ := bind_eq_ok.1 h
    obtain ⟨ks, hks, h⟩ := bind_eq_ok.1 h
    obtain ⟨statements, -, hk⟩ := bind_eq_ok.1 hk
    cases hk
    cases h
    rw [List.map_cons, List.map_cons, ih hks]

theorem Program.isAscending_parsed {p : Program} {lines : Listing} (h : p.parsed = .ok lines) :
    lines.IsAscending := by
  have hnumbers := List.pairwise_map.2 p.ascending
  rw [← parsed_eq_ok h] at hnumbers
  exact List.pairwise_map.1 hnumbers

/-- A run of the stored program starts before its first statement on a line from 1 on. -/
theorem startProgram_eq_ok {r : Run} (h : startProgram s = .ok r s') :
    ∃ lines, s.program.parsed = .ok lines ∧ collect lines s.reset = .ok () s' ∧
      r = { listing := some lines, site := ⟨1, 0⟩ } := by
  change (Action.listing >>= fun lines ↦ _) s.reset = _ at h
  obtain ⟨lines, s₁, hlisting, h⟩ := bind_run_eq_ok.1 h
  obtain ⟨_, s₂, hcollect, h⟩ := bind_run_eq_ok.1 h
  obtain ⟨_, s₃, hinterval, h⟩ := bind_run_eq_ok.1 h
  obtain ⟨rfl, hparsed⟩ := listing_eq_ok hlisting
  obtain hok | hfails := checkInterval_cases s₂
  · cases hok.symm.trans hinterval
    cases h
    exact ⟨lines, hparsed, hcollect, rfl⟩
  · cases hfails.symm.trans hinterval

end
end LineBasic
