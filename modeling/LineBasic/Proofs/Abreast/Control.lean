import LineBasic.Proofs.Abreast
import LineBasic.Proofs.Comparison.Evaluation

/-!
# Runs with something else under way

Two runs of a statement from sessions that differ in what is under way only: in the calls, or in the
sites that subroutines return to.  As long as neither stops on its own, the runs have the same values
and make the same changes, and what is under way remains in a given relation.

* `Pairing` — the relation, with what it has to be closed under.
* `Pairing.likeness`, `Pairing.comparison` — the comparison of the runs.
* `abreast_eval`, `abreast_callBody` — trees, and calls of functions.
-/

set_option autoImplicit false
namespace LineBasic

/-! ## What is under way -/

/-- What is under way apart from loops: the frames in force and the calls, and where subroutines
return to. -/
structure Control where
  binders : Binders.Stack
  returns : List Site

/-- Something else under way is a change of what most actions leave aside. -/
def Control.put (k : Control) (a : Aside) : Aside :=
  { a with binders := k.binders, returns := k.returns }

namespace Session

/-- What is under way. -/
def control (s : Session) : Control :=
  ⟨s.binders, s.returns⟩

/-- The session with something else under way. -/
def withControl (s : Session) (k : Control) : Session :=
  { s with binders := k.binders, returns := k.returns }

@[simp] theorem withControl_control (s : Session) : s.withControl s.control = s := rfl

end Session

/-- What is under way, as a part of sessions. -/
def Facet.control : Facet Control where
  of := Session.control
  put := Session.withControl
  put_of _ := rfl
  of_put _ _ := rfl

/-! ## Pairings -/

/-- How two runs of a statement at a site are compared. -/
structure Pairing (site : Site) where
  /-- The frames and calls that the runs may have, the first and the second. -/
  binders : Binders.Stack → Binders.Stack → Prop
  /-- The sites that subroutines may return to. -/
  returns : List Site → List Site → Prop
  /-- How the first run may stop on its own. -/
  leaves : Stop → Prop
  /-- How the second run may stop on its own. -/
  escapes : Stop → Prop
  /-- The builtins that may be called. -/
  permits : Builtin → Bool
  frames : ∀ {b b'}, binders b b' → b'.frames = b.frames
  enter : ∀ {b b'} (c : Closure) (args : Frame), binders b b' →
    binders (b.enter c args) (b'.enter c args)
  full : ∀ {b b'}, binders b b' → b'.isFull = b.isFull ∧ b'.tooDeep = b.tooDeep ∨
    leaves (.fault b.tooDeep) ∧ escapes (.fault b'.tooDeep)
  push : permits .gosub = true → ∀ {r r'}, returns r r' → returns (site.next :: r) (site.next :: r')
  pop : permits .comeBack = true → ∀ {r r'}, returns r r' → r = [] ∧ r' = [] ∨
    ∃ back outer outer', r = back :: outer ∧ r' = back :: outer' ∧ returns outer outer'

/-- What may be under way in the two runs. -/
structure Pairing.Holds {site : Site} (W : Pairing site) (k k' : Control) : Prop where
  binders : W.binders k.binders k'.binders
  returns : W.returns k.returns k'.returns

/-- What is compared: runs of sessions that differ in what is under way. -/
@[reducible]
def Pairing.likeness {site : Site} (W : Pairing site) : Likeness where
  sessions := Facet.control.Differ W.Holds
  stops := Eq
  leaves := W.leaves
  escapes := W.escapes

section
variable {site : Site} {W : Pairing site} {α : Type} {Q : α → α → Prop}

theorem abreast_of_commutes {act : Action α} (h : ∀ k, Commutes (·.withControl k) act) :
    Abreast W.likeness Eq act act :=
  Facet.abreast (fun _ ↦ rfl) h

theorem Apart.abreast {act : Action α} (h : Apart act) : Abreast W.likeness Eq act act :=
  abreast_of_commutes fun k ↦ h.commutes k.put

/-! ## Single actions -/

theorem abreast_dataOf (values : List Value) :
    Abreast W.likeness Eq (Builtin.dataOf values) (Builtin.dataOf values) := by
  refine abreast_of_commutes fun k s ↦ ?_
  unfold Builtin.dataOf
  rw [get_bind_run, get_bind_run]
  change (if s.isCollecting = true then _ else _ : Action Value) _ = _
  split
  · rfl
  · rfl

theorem abreast_labelOf (operand : Operand) : Abreast W.likeness (Operand.Same Eq)
    (Builtin.labelOf site operand) (Builtin.labelOf site operand) := by
  rw [Builtin.labelOf_eq]
  have hlabel (k : Control) : Commutes (·.withControl k) (Builtin.labelOf site operand) :=
    Builtin.commutes_labelOf (f := (·.withControl k)) (fun _ ↦ rfl) (fun _ ↦ rfl)
      (fun _ _ ↦ rfl) site operand
  exact .bind (abreast_of_commutes hlabel) fun _ _ _ ↦ .pure (.other nofun)

/-! ## Calls -/

theorem Pairing.allowsCalls (W : Pairing site) : W.likeness.AllowsCalls where
  full h := (W.full h.part.binders).imp_left fun ⟨hfull, hdeep⟩ ↦
    ⟨hfull, congrArg Stop.fault hdeep.symm⟩
  enter := by
    refine fun c args hs ↦ ⟨⟨W.enter c args hs.part.binders, hs.part.returns⟩, ?_⟩
    rw [hs.rest]
    rfl
  leave := by
    refine fun hs hs₁ ↦ ⟨⟨hs.part.binders, hs₁.part.returns⟩, ?_⟩
    rw [hs₁.rest]
    rfl

/-! ## Subroutines -/

theorem abreast_comeBackOf (h : W.permits .comeBack = true) :
    Abreast W.likeness (Operand.Same Eq) Builtin.comeBackOf Builtin.comeBackOf := by
  refine ⟨fun s s' hs ↦ ?_⟩
  obtain ⟨hempty, hempty'⟩ | ⟨back, outer, outer', hfull, hfull', houter⟩ := W.pop h hs.part.returns
  · rw [Builtin.comeBackOf_of_nil hempty, Builtin.comeBackOf_of_nil hempty']
    exact .error rfl hs
  · rw [Builtin.comeBackOf_of_cons hfull, Builtin.comeBackOf_of_cons hfull']
    refine .ok (.jump rfl) ⟨⟨hs.part.binders, houter⟩, ?_⟩
    rw [hs.rest]
    rfl

/-! ## The comparison -/

theorem Operand.Same.eq {x x' : Operand} (h : x.Same Eq x') : x = x' := by
  cases h with
  | jump h => rw [h]
  | other => rfl

theorem Loop.Same.eq {l l' : Loop} (h : l.Same Eq l') : l = l' := by
  obtain ⟨hname, hsource, hhead⟩ := h
  cases l
  cases l'
  cases hname
  cases hsource
  cases hhead
  rfl

theorem Loop.eq_of_same {ls ls' : List Loop} (h : List.Forall₂ (Loop.Same Eq) ls ls') :
    ls = ls' := by
  induction h with
  | nil => rfl
  | cons hl _ ih => rw [hl.eq, ih]

/-- Runs abreast, of statements at the same site. -/
@[reducible]
def Pairing.comparison (W : Pairing site) : Comparison site site where
  rel := Abreast W.likeness
  heads := Eq
  targets := Eq
  permits := W.permits
  pure := .pure
  bind := .bind
  detached h := h.abreast
  write _ _ base way index name v := (Operand.apart_store_element base way index name v _).abreast
  assign name v := abreast_of_commutes fun k ↦ Action.commutes_assign (f := (·.withControl k))
    (fun _ ↦ ⟨rfl, rfl, rfl, rfl, fun _ ↦ rfl⟩) name v
  frames f f' h := by
    refine .get fun s s' hs ↦ ?_
    have hframes : s'.binders.frames = s.binders.frames := W.frames hs.part.binders
    rw [hframes]
    exact (h _).run s s' hs
  inCall c args h := .inCall W.allowsCalls c args h
  loops f f' h := by
    refine .get fun s s' hs ↦ ?_
    have hloops : s'.loops = s.loops := by rw [hs.rest]; rfl
    rw [hloops]
    exact (h _ _ (List.forall₂_same.2 fun _ _ ↦ ⟨rfl, rfl, rfl⟩)).run s s' hs
  putLoops ls ls' h := by
    obtain rfl := Loop.eq_of_same h
    exact abreast_of_commutes fun _ _ ↦ rfl
  head := rfl
  next h := by rw [h]
  finish := rfl
  line _ b x := (b.detached_targetLine x).abreast.mono fun _ _ hline ↦ by rw [hline]
  goSub h := by
    refine .modify fun s s' hs ↦ ⟨⟨hs.part.binders, W.push h hs.part.returns⟩, ?_⟩
    rw [hs.rest]
    rfl
  comeBack := abreast_comeBackOf
  label _ := abreast_labelOf
  resolve _ := rfl
  random _ v := abreast_of_commutes fun k ↦ Builtin.commutes_randomOf (f := (·.withControl k))
    (fun _ ↦ rfl) (fun _ ↦ rfl) ((Builtin.random.detached_number v).commutes k.put)
  collectData _ := abreast_dataOf
  nextDatum := abreast_of_commutes fun k ↦
    Builtin.commutes_nextDatum (f := (·.withControl k)) (fun _ ↦ rfl) (fun _ ↦ rfl) fun _ ↦ rfl
  restore := abreast_of_commutes fun _ _ ↦ rfl
  clear := abreast_of_commutes fun _ _ ↦ rfl

/-- Two ways of entering functions abreast. -/
abbrev Entered (W : Pairing site) (enter enter' : Closure → List Value → Action Value) : Prop :=
  ∀ c args, Abreast W.likeness Eq (enter c args) (enter' c args)

section
variable {enter enter' : Closure → List Value → Action Value} (henter : Entered W enter enter')

include henter

theorem Builtin.abreast_invoke (b : Builtin) (hb : W.permits b = true)
    (separators : List Separator) (xs : List Operand) :
    Abreast W.likeness Eq (b.invoke enter site separators xs)
      (b.invoke enter' site separators xs) := by
  have hxs : List.Forall₂ (Operand.Same W.comparison.targets) xs xs :=
    List.forall₂_same.2 fun x _ ↦ x.same_self fun _ ↦ rfl
  exact (Comparison.gives_invoke (C := W.comparison) henter hb separators hxs).mono fun _ _ ↦
    Operand.Same.eq

/-- Trees that call permitted builtins only are evaluated abreast. -/
theorem abreast_eval {t : Tree} (ht : t.callsOnly W.permits = true) :
    Abreast W.likeness Eq (eval enter site t) (eval enter' site t) :=
  (Comparison.gives_eval (C := W.comparison) henter ht).mono fun _ _ ↦ Operand.Same.eq

/-- Functions are called abreast if their bodies call permitted builtins only. -/
theorem abreast_callBody {c : Closure} (hc : c.body.callsOnly W.permits = true) (args : Frame) :
    Abreast W.likeness Eq (Action.inCall c args do (← eval enter site c.body).resolve)
      (Action.inCall c args do (← eval enter' site c.body).resolve) :=
  Comparison.callBody (C := W.comparison) henter hc args

end
end
end LineBasic
