import LineBasic.Proofs.Evaluation.Arguments
import LineBasic.Proofs.Session.Assigned
import LineBasic.Proofs.Value.Grids

/-!
# Elements of declared arrays

An array that was declared with its dimensions is a map from subscripts to values.  Subscripts are
counted from the index base, and each has to be within its dimension; then an element can be read
and assigned, and what is read is what was assigned last.

* `InRange` — the subscripts of elements.
* `Session.HasArray` — a variable that holds an array with given elements.
* `Filled` — an array that was declared, and assigned elements of.
* `eval_elements` — the result.
-/

set_option autoImplicit false
namespace LineBasic

/-! ## Subscripts -/

/-- A subscript within a dimension, counted from the index base. -/
def IsWithin (base n : Int) (d : Nat) : Prop :=
  base ≤ n ∧ n < base + d

instance (base n : Int) (d : Nat) : Decidable (IsWithin base n d) :=
  inferInstanceAs (Decidable (_ ∧ _))

/-- Subscripts within the dimensions, one for each. -/
abbrev InRange (base : Int) (ns : List Int) (ds : List Nat) : Prop :=
  List.Forall₂ (IsWithin base) ns ds

/-- The subscripts counted from zero, of those counted from the index base. -/
def offsets (base : Int) (ns : List Int) : List Nat :=
  ns.map fun n ↦ (n - base).toNat

/-- The subscripts counted from the index base, of those counted from zero. -/
def counted (base : Int) (is : List Nat) : List Int :=
  is.map fun (i : Nat) ↦ base + (i : Int)

section
variable {base n : Int} {ns : List Int} {ds : List Nat} {d : Nat}

theorem IsWithin.toNat_lt (h : IsWithin base n d) : (n - base).toNat < d := by
  obtain ⟨hlow, hhigh⟩ := h
  omega

theorem IsWithin.add_toNat (h : IsWithin base n d) : base + ((n - base).toNat : Int) = n := by
  obtain ⟨hlow, hhigh⟩ := h
  omega

theorem InRange.isCell (h : InRange base ns ds) : IsCell ds (offsets base ns) := by
  induction h with
  | nil => exact .nil
  | cons hn _ ih => exact .cons hn.toNat_lt ih

theorem InRange.counted_offsets (h : InRange base ns ds) : counted base (offsets base ns) = ns := by
  induction h with
  | nil => rfl
  | cons hn _ ih => exact congrArg₂ List.cons hn.add_toNat ih

theorem counted_injective (base : Int) : Function.Injective (counted base) := by
  intro is js h
  refine List.map_injective_iff.2 (fun i j hij ↦ ?_) h
  have hsum : base + (i : Int) = base + (j : Int) := hij
  omega

/-- One subscript outside its dimension is enough. -/
theorem not_inRange (hmem : (n, d) ∈ ns.zip ds) (hout : ¬ IsWithin base n d) :
    ¬ InRange base ns ds := by
  intro h
  exact hout ((List.forall₂_iff_zip.1 h).2 hmem)

end

/-! ## Following subscripts -/

section
variable {s : Session} {base n : Int} {ns : List Int} {ds w : List Nat} {v : Value}
  {vs : List Value} {cell : List Nat → Value} {row : List Nat → Nat}

theorem Operand.offset?_run (hbase : s.indexBase.whole? = some base) (hv : v.IsInteger n)
    (name : String) (d : Nat) :
    offset? name d v s = if IsWithin base n d then .ok (some (n - base).toNat) s
      else .error (.fault (.subscript name n d)) s := by
  obtain ⟨x, rfl, hx⟩ := hv
  have hposition : Action.position n d s =
      .ok (Quantity.position d (.whole (n - base))) s := by
    rw [Action.position, get_bind_run, Quantity.sub_of_whole? hbase]
    rfl
  have hnumber : Action.ofNumber (Number.truncate x) s = .ok n s := by
    rw [hx]
    rfl
  rw [offset?, bind_run_of_ok hnumber, bind_run_of_ok hposition, Quantity.position_whole]
  have hiff : (0 ≤ n - base ∧ n - base < d) ↔ IsWithin base n d := by
    unfold IsWithin
    omega
  simp only [hiff]
  split <;> rfl

/-- A subscript outside its dimension is refused, whatever subscripts follow. -/
theorem Operand.descend_of_refused {d : Nat} (hbase : s.indexBase.whole? = some base)
    (hv : v.IsInteger n) (hout : ¬ IsWithin base n d) {place : Nat}
    (hsize : (s.heap.elements place).size = d) (start : Nat) (name : String) (count : Nat)
    (way : List Nat) (vs : List Value) :
    descend start name count place way v vs s = .error (.fault (.subscript name n d)) s := by
  have hoffset := offset?_run hbase hv name d
  rw [if_neg hout] at hoffset
  cases vs with
  | nil | cons =>
    rw [descend, get_bind_run, hsize]
    exact bind_run_eq_error.2 (.inl hoffset)

/-- The subscripts after those of a row lead to an element, or one of them is refused. -/
theorem Operand.descend_run (hh : s.heap.Holds ds cell row) (hbase : s.indexBase.whole? = some base)
    (name : String) (count : Nat) (hw : IsRow ds w)
    (hvs : List.Forall₂ Value.IsInteger (v :: vs) ns)
    (hlength : w.length + ns.length = ds.length) :
    (InRange base ns (ds.drop w.length) ∧ ∃ way index, way ++ [index] = w ++ offsets base ns ∧
      descend (row []) name count (row w) w v vs s = .ok (.element (row []) way index name) s) ∨
    ∃ n d, (n, d) ∈ ns.zip (ds.drop w.length) ∧ ¬ IsWithin base n d ∧
      descend (row []) name count (row w) w v vs s = .error (.fault (.subscript name n d)) s := by
  induction vs generalizing w v ns with
  | nil =>
    obtain ⟨n, ns, hv, hnil, rfl⟩ := List.forall₂_cons_left_iff.1 hvs
    obtain rfl := List.forall₂_nil_left_iff.1 hnil
    obtain ⟨d, hd, hdrop⟩ := hw.drop_eq
    have hsize := hh.size w hw d hd
    have hrest : ds.drop (w.length + 1) = [] := List.drop_eq_nil_iff.2 (Nat.le_of_eq hlength.symm)
    rw [hdrop, hrest]
    by_cases hn : IsWithin base n d
    · have hoffset := offset?_run hbase hv name d
      rw [if_pos hn] at hoffset
      refine .inl ⟨.cons hn .nil, w, (n - base).toNat, rfl, ?_⟩
      rw [descend, get_bind_run, hsize]
      exact bind_run_of_ok hoffset
    · exact .inr ⟨n, d, List.mem_singleton_self _, hn, descend_of_refused hbase hv hn hsize ..⟩
  | cons next vs ih =>
    obtain ⟨n, ns, hv, hmore, rfl⟩ := List.forall₂_cons_left_iff.1 hvs
    obtain ⟨d, hd, hdrop⟩ := hw.drop_eq
    have hsize := hh.size w hw d hd
    rw [hdrop]
    by_cases hn : IsWithin base n d
    · have hoffset := offset?_run hbase hv name d
      rw [if_pos hn] at hoffset
      have hpos : ns.length = vs.length + 1 := hmore.length_eq.symm
      rw [List.length_cons] at hlength
      have hi : ∀ d' ∈ ds[w.length]?, (n - base).toNat < d' := fun d' hd' ↦
        Option.some.inj (hd.symm.trans hd') ▸ hn.toNat_lt
      have hw' : IsRow ds (w ++ [(n - base).toNat]) := (isRow_append hw hi).1 (by omega)
      have hlength' : (w ++ [(n - base).toNat]).length + ns.length = ds.length := by
        rw [List.length_append, List.length_singleton]
        omega
      -- the row that the first subscript leads to is where the others go on from
      have hnext : descend (row []) name count (row w) w v (next :: vs) s =
          descend (row []) name count (row (w ++ [(n - base).toNat])) (w ++ [(n - base).toNat])
            next vs s := by
        rw [descend, get_bind_run, hsize, bind_run_of_ok hoffset]
        simp only
        rw [get_bind_run, hh.child? hw']
      have hcases := ih hw' hmore hlength'
      rw [← hnext, List.length_append, List.length_singleton, List.append_assoc] at hcases
      obtain ⟨hin, hrun⟩ | ⟨n', d', hmem, hout, hrun⟩ := hcases
      · exact .inl ⟨.cons hn hin, hrun⟩
      · exact .inr ⟨n', d', List.mem_cons_of_mem _ hmem, hout, hrun⟩
    · exact .inr ⟨n, d, List.mem_cons_self, hn, descend_of_refused hbase hv hn hsize ..⟩

end

/-! ## Arrays of variables -/

/-- A variable that holds the array at a place, of the given dimensions, with the elements that a
function of the subscripts gives. -/
structure Session.HasArray (s : Session) (name : String) (base : Int) (ds : List Nat) (place : Nat)
    (element : List Int → Value) : Prop where
  named : s.vars.lookup? name = some (.array place)
  based : s.indexBase.whole? = some base
  held : ∃ row, row [] = place ∧ s.heap.Holds ds (element ∘ counted base) row

/-- A session after which the array that a variable holds is as it was: the array itself, and those
inside it that fewer than `rank` subscripts lead to. -/
structure Session.LeavesArray (name : String) (rank : Nat) (s s' : Session) : Prop where
  named : s'.vars.lookup? name = s.vars.lookup? name
  based : s'.indexBase = s.indexBase
  rows : ∀ place way inner, s.vars.lookup? name = some (.array place) → way.length < rank →
    s.heap.follow place way = .ok inner → s'.heap.elements inner = s.heap.elements inner

/-- Arguments that come to the given subscripts, and the session that they leave. -/
def ComesTo (enter : Closure → List Value → Action Value) (site : Site) (args : List Tree)
    (s : Session) (ns : List Int) (s' : Session) : Prop :=
  ∃ vs, evalValues enter site args s = .ok vs s' ∧ List.Forall₂ Value.IsInteger vs ns

theorem Builtin.ofName?_congr {name other : String} (h : Text.upper other = Text.upper name) :
    ofName? other = ofName? name := by
  simp only [ofName?, h]

namespace Session.HasArray

variable {enter : Closure → List Value → Action Value} {site : Site} {s s₁ s₂ s' : Session}
  {name other : String} {base : Int} {ns : List Int} {ds : List Nat} {place : Nat}
  {element element' : List Int → Value} {args : List Tree} {separators : List Separator} {e : Tree}
  {v : Value}

theorem of_leaves (h : s.HasArray name base ds place element)
    (hleaves : LeavesArray name ds.length s s') : s'.HasArray name base ds place element where
  named := hleaves.named.trans h.named
  based := hleaves.based ▸ h.based
  held := by
    obtain ⟨row, rfl, hh⟩ := h.held
    exact ⟨row, rfl, hh.congr fun w hw ↦
      hleaves.rows (row []) w (row w) h.named hw.length_lt (hh.follow hw)⟩

/-- A name in any case of letters applies the array to the subscripts. -/
theorem eval_call (h : s₁.HasArray name base ds place element)
    (hname : Builtin.ofName? name = none) (hother : Text.upper other = Text.upper name)
    {vs : List Value} (hargs : evalValues enter site args s = .ok vs s₁) (hvs : vs ≠ []) :
    eval enter site (.call other args separators) s = Operand.subscripted place [] other vs s₁ := by
  have hother' : Builtin.ofName? other = none := (Builtin.ofName?_congr hother).trans hname
  have hlookup : Action.lookup other s₁ = .ok (.array place) s₁ :=
    Action.lookup_eq_ok.2
      ⟨(lookup_eq_ok_iff hother').2 ((lookup?_congr _ hother).trans h.named), rfl⟩
  obtain ⟨v, vs, rfl⟩ := List.exists_cons_of_ne_nil hvs
  rw [eval, hother']
  simp only
  rw [bind_run_of_ok hargs]
  exact bind_run_of_ok hlookup

/-- Calling the array gives the element that the subscripts are those of, or refuses one of them. -/
theorem eval_call_cases (h : s₁.HasArray name base ds place element)
    (hname : Builtin.ofName? name = none) (hother : Text.upper other = Text.upper name)
    (hds : ds ≠ []) (hargs : ComesTo enter site args s ns s₁) (hlength : ns.length = ds.length)
    (separators : List Separator) :
    (InRange base ns ds ∧ ∃ way index, way ++ [index] = offsets base ns ∧
      eval enter site (.call other args separators) s =
        .ok (.element place way index other) s₁) ∨
    ∃ n d, (n, d) ∈ ns.zip ds ∧ ¬ IsWithin base n d ∧
      eval enter site (.call other args separators) s =
        .error (.fault (.subscript other n d)) s₁ := by
  obtain ⟨vs, hargs, hvs⟩ := hargs
  obtain ⟨row, rfl, hh⟩ := h.held
  have hne : vs ≠ [] := by
    rintro rfl
    cases hvs
    exact hds (List.eq_nil_of_length_eq_zero hlength.symm)
  rw [h.eval_call hname hother hargs hne]
  obtain ⟨v, vs, rfl⟩ := List.exists_cons_of_ne_nil hne
  exact Operand.descend_run hh h.based other _ (isRow_nil hds) hvs
    ((Nat.zero_add _).trans hlength)

/-- The element has the value that the subscripts are mapped to. -/
theorem resolve_element (h : s.HasArray name base ds place element) (hin : InRange base ns ds)
    {way : List Nat} {index : Nat} (hway : way ++ [index] = offsets base ns) :
    (Operand.element place way index other).resolve s = .ok (element ns) s := by
  obtain ⟨row, rfl, hh⟩ := h.held
  have hread := hh.readElement (hway ▸ hin.isCell)
  rw [Function.comp_apply, hway, hin.counted_offsets] at hread
  rw [Operand.resolve, get_bind_run, hread]
  rfl

/-- A write to the element changes what its subscripts are mapped to, and no others. -/
theorem store_element (h : s.HasArray name base ds place element) (hin : InRange base ns ds)
    {way : List Nat} {index : Nat} (hway : way ++ [index] = offsets base ns) (v : Value)
    (other statement : String) : ∃ inner,
    (Operand.element place way index other).store v statement s =
      .ok other { s with heap := s.heap.set inner index v } ∧
    { s with heap := s.heap.set inner index v }.HasArray name base ds place
      (fun ms ↦ if ms = ns then v else element ms) := by
  obtain ⟨row, rfl, hh⟩ := h.held
  have hcell : IsCell ds (way ++ [index]) := hway ▸ hin.isCell
  refine ⟨row way, ?_, h.named, h.based, row, rfl, ?_⟩
  · rw [Operand.store, get_bind_run, hh.writeElement hcell]
    rfl
  · have hiff (is : List Nat) : is = way ++ [index] ↔ counted base is = ns := by
      rw [hway, ← (counted_injective base).eq_iff, hin.counted_offsets]
    have hset := hh.set hcell v
    simp only [hiff] at hset
    exact hset

/-- An assignment to an element.  The array may have changed between the two sides, as long as it
is the same one. -/
theorem eval_assign (h : s₁.HasArray name base ds place element)
    (hname : Builtin.ofName? name = none) (hother : Text.upper other = Text.upper name)
    (hds : ds ≠ []) (hargs : ComesTo enter site args s ns s₁) (hin : InRange base ns ds)
    (hv : (do (← eval enter site e).resolve : Action Value) s₁ = .ok v s₂)
    (h' : s₂.HasArray name base ds place element') : ∃ inner index,
    eval enter site (.binary .assign (.call other args separators) e) s =
      .ok (.assignment other v) { s₂ with heap := s₂.heap.set inner index v } ∧
    { s₂ with heap := s₂.heap.set inner index v }.HasArray name base ds place
      (fun ms ↦ if ms = ns then v else element' ms) := by
  obtain ⟨-, way, index, hway, htarget⟩ | ⟨n, d, hmem, hout, -⟩ :=
    h.eval_call_cases hname hother hds hargs hin.length_eq separators
  · obtain ⟨x, s₂', hx, hv⟩ := bind_run_eq_ok.1 hv
    obtain ⟨inner, hstore, hset⟩ := h'.store_element hin hway v other Builtin.assign.name
    refine ⟨inner, index, ?_, hset⟩
    refine (eval_binary_eq_ok (b := .assign) rfl (LineBasic.checkEnabled_eq_ok rfl rfl)).2
      ⟨_, s₁, x, s₂', htarget, hx, ?_⟩
    have hassign : Builtin.assign.assignOf (.element place way index other) x s₂' =
        .ok (.assignment other v) { s₂ with heap := s₂.heap.set inner index v } :=
      (bind_run_of_ok hv).trans (bind_run_of_ok hstore)
    exact hassign
  · exact absurd hin (not_inRange hmem hout)

end Session.HasArray

/-! ## Declarations -/

/-- Arguments of a builtin that come to the given sizes, and the session that they leave. -/
def Sizes (enter : Closure → List Value → Action Value) (site : Site) (args : List Tree)
    (s : Session) (ds : List Nat) (s' : Session) : Prop :=
  ∃ vs, Supplies enter site args s vs s' ∧ List.Forall₂ Value.IsInteger vs (ds.map Int.ofNat)

section
variable {enter : Closure → List Value → Action Value} {site : Site} {s s₁ : Session}
  {keyword : String} {ds : List Nat} {args : List Tree} {vs : List Value}

theorem Builtin.dimOf_run {d : Nat}
    (hvs : List.Forall₂ Value.IsInteger vs ((d :: ds).map Int.ofNat)) (s : Session) :
    Builtin.dim.dimOf vs s = zeros d ds s := by
  have hnegative : ((d :: ds).map Int.ofNat).any (· < 0) = false := by
    simp [List.any_eq_false]
  have hsizes : (ds.map Int.ofNat).map Int.toNat = ds := by
    rw [List.map_map]
    exact List.map_id ds
  rw [dimOf, bind_run_of_ok (Builtin.dim.mapM_integer hvs s), List.map_cons]
  simp only
  rw [← List.map_cons, if_neg (by rw [hnegative]; decide), hsizes]
  rfl

/-- A declaration makes an array of zeros. -/
theorem eval_dim (hkeyword : Builtin.ofName? keyword = some .dim) (hds : ds ≠ [])
    (hargs : Sizes enter site args s ds s₁) (separators : List Separator) : ∃ h' row,
    (do (← eval enter site (.call keyword args separators)).resolve : Action Value) s =
      .ok (.array (row [])) { s₁ with heap := h' } ∧
    h'.Holds ds (fun _ ↦ .number 0) row := by
  obtain ⟨vs, hargs, hvs⟩ := hargs
  obtain ⟨d, ds, rfl⟩ := List.exists_cons_of_ne_nil hds
  have happlies : (Tree.call keyword args separators).Applies .dim args := .call hkeyword
  obtain ⟨separators', heval⟩ :=
    eval_of_supplies happlies (checkEnabled_eq_ok rfl rfl) rfl rfl hargs
  obtain ⟨h', row, hzeros, -, hholds, -⟩ := makes_zeros d ds s₁
  have hinvoke : Builtin.dim.invoke enter site separators' (vs.map Operand.value) =
      (Operand.resolveAll (vs.map Operand.value) >>= fun vs ↦
        Builtin.dim.dimOf vs >>= fun v ↦ pure (.value v)) := rfl
  have hdim : eval enter site (.call keyword args separators) s =
      .ok (.value (.array (row []))) { s₁ with heap := h' } := by
    rw [heval, hinvoke, Operand.resolveAll_values, pure_bind]
    exact bind_run_of_ok ((Builtin.dimOf_run hvs s₁).trans hzeros)
  exact ⟨h', row, bind_run_of_ok hdim, hholds⟩

end

/-! ## Arrays that are assigned to -/

/-- The value that the last assignment to the given subscripts assigns, or zero.  The assignments
are given by their subscripts and values, the latest first. -/
def lastAssigned : List (List Int × Value) → List Int → Value
  | [], _ => .number 0
  | (ms, v) :: ws, ns => if ns = ms then v else lastAssigned ws ns

/-- A session with an array that was declared with the given dimensions, that a variable holds and
that the given elements were assigned of since then. -/
inductive Filled (name : String) (base : Int) (ds : List Nat) (place : Nat) :
    List (List Int × Value) → Session → Prop
  /-- The declaration of the array. -/
  | dim {enter : Closure → List Value → Action Value} {site : Site} {s s₁ s' : Session}
      {other keyword : String} {args : List Tree} {separators : List Separator} {x : Operand}
      (hother : Text.upper other = Text.upper name) (hkeyword : Builtin.ofName? keyword = some .dim)
      (hargs : Sizes enter site args s ds s₁)
      (heval : eval enter site (.binary .assign (.ident other) (.call keyword args separators)) s =
        .ok x s')
      (hplace : s'.vars.lookup? name = some (.array place))
      (hbase : s'.indexBase.whole? = some base) : Filled name base ds place [] s'
  /-- Anything that has nothing to do with the array. -/
  | other {s s' : Session} {ws : List (List Int × Value)} (h : Filled name base ds place ws s)
      (hleaves : s.LeavesArray name ds.length s') : Filled name base ds place ws s'
  /-- An assignment to an element.  The subscripts and the value may be anything, assignments to
  elements among them. -/
  | assign {enter : Closure → List Value → Action Value} {site : Site} {s s₁ s₂ s' : Session}
      {other : String} {args : List Tree} {separators : List Separator} {ns : List Int} {e : Tree}
      {v : Value} {x : Operand} {ws ws' : List (List Int × Value)}
      (hother : Text.upper other = Text.upper name)
      (hargs : ComesTo enter site args s ns s₁) (hlength : ns.length = ds.length)
      (h : Filled name base ds place ws s₁)
      (hv : (do (← eval enter site e).resolve : Action Value) s₁ = .ok v s₂)
      (h' : Filled name base ds place ws' s₂)
      (heval : eval enter site (.binary .assign (.call other args separators) e) s = .ok x s') :
      Filled name base ds place ((ns, v) :: ws') s'

section
variable {enter : Closure → List Value → Action Value} {site : Site} {s s' : Session}
  {name : String} {base : Int} {ds : List Nat} {place : Nat} {ws : List (List Int × Value)}

/-- An assignment to what there is not fails before its right side is evaluated. -/
theorem eval_assign_of_error {l e : Tree} {stop : Stop} (h : eval enter site l s = .error stop s') :
    eval enter site (.binary .assign l e) s = .error stop s' := by
  have hassign : Builtin.ofOperator? .assign = some .assign := rfl
  rw [eval, hassign]
  simp only
  rw [callBuiltin_eq (checkEnabled_eq_ok rfl rfl)]
  exact bind_run_eq_error.2 (.inl (bind_run_eq_error.2 (.inl h)))

/-- What the elements are after the assignments. -/
theorem Filled.hasArray (hname : Builtin.ofName? name = none) (hds : ds ≠ [])
    (h : Filled name base ds place ws s) : s.HasArray name base ds place (lastAssigned ws) := by
  induction h with
  | dim hother hkeyword hargs heval hplace hbase =>
    have hname' := (Builtin.ofName?_congr hother).trans hname
    obtain ⟨v, s₁, hv, hassign, -⟩ := eval_assign_eq_ok.1 heval
    obtain ⟨h', row, hdim, hholds⟩ := eval_dim hkeyword hds hargs _
    cases hv.symm.trans hdim
    have hlookup := (Session.uses_iff hname').1 (Session.uses_of_assign hname' hassign)
    rw [Session.lookup?_congr _ hother, hplace] at hlookup
    cases hlookup
    obtain ⟨vars, -, rfl⟩ := Session.eq_of_assign hassign
    exact ⟨hplace, hbase, row, rfl, hholds⟩
  | other _ hleaves ih => exact ih.of_leaves hleaves
  | @assign _ _ _ _ _ _ _ _ separators _ _ _ _ _ _ hother hargs hlength _ hv _ heval ih ih' =>
    obtain ⟨hin, -⟩ | ⟨n, d, -, -, herror⟩ :=
      ih.eval_call_cases hname hother hds hargs hlength separators
    · obtain ⟨inner, index, hassign, hset⟩ :=
        ih.eval_assign hname hother hds hargs hin hv ih'
      cases heval.symm.trans hassign
      exact hset
    · cases heval.symm.trans (eval_assign_of_error herror)

end

/-! ## The result -/

/-- An array that was declared with its dimensions is a map from subscripts to values.  The
declaration makes the array and assigns it, if the variable can be assigned.  From then on, an
element can be read and assigned if and only if each of its subscripts, counted from the index base,
is within its dimension; if one is not, it is named and nothing is changed, nor is the right side
evaluated.  What is read is what was assigned last to the same subscripts, or zero. -/
theorem eval_elements :
    (∀ enter site s s₁ name keyword args separators ds base, Builtin.ofName? name = none →
      Builtin.ofName? keyword = some .dim → ds ≠ [] → Sizes enter site args s ds s₁ →
      s₁.indexBase.whole? = some base → ∃ place h',
        (do (← eval enter site (.call keyword args separators)).resolve : Action Value) s =
          .ok (.array place) { s₁ with heap := h' } ∧
        ∀ s', { s₁ with heap := h' }.assign name (.array place) = .ok s' →
          eval enter site (.binary .assign (.ident name) (.call keyword args separators)) s =
            .ok (.assignment name (.array place)) s' ∧ Filled name base ds place [] s') ∧
    ∀ name base ds place ws s₁, Builtin.ofName? name = none → ds ≠ [] →
      Filled name base ds place ws s₁ →
      ∀ enter site s other args separators ns, Text.upper other = Text.upper name →
      ComesTo enter site args s ns s₁ → ns.length = ds.length →
        (InRange base ns ds →
          (do (← eval enter site (.call other args separators)).resolve : Action Value) s =
            .ok (lastAssigned ws ns) s₁ ∧
          ∀ e v s₂ ws', (do (← eval enter site e).resolve : Action Value) s₁ = .ok v s₂ →
            Filled name base ds place ws' s₂ → ∃ inner index,
            eval enter site (.binary .assign (.call other args separators) e) s =
              .ok (.assignment other v) { s₂ with heap := s₂.heap.set inner index v } ∧
            Filled name base ds place ((ns, v) :: ws')
              { s₂ with heap := s₂.heap.set inner index v }) ∧
        (¬ InRange base ns ds → ∃ n d, (n, d) ∈ ns.zip ds ∧ ¬ IsWithin base n d ∧
          (do (← eval enter site (.call other args separators)).resolve : Action Value) s =
            .error (.fault (.subscript other n d)) s₁ ∧
          ∀ e, eval enter site (.binary .assign (.call other args separators) e) s =
            .error (.fault (.subscript other n d)) s₁) := by
  refine ⟨fun enter site s s₁ name keyword args separators ds base hname hkeyword hds hargs
      hbase ↦ ?_,
    fun name base ds place ws s₁ hname hds h enter site s other args separators ns hother hargs
      hlength ↦ ?_⟩
  · obtain ⟨h', row, hdim, -⟩ := eval_dim hkeyword hds hargs separators
    refine ⟨row [], h', hdim, fun s' hassign ↦ ?_⟩
    have heval : eval enter site (.binary .assign (.ident name) (.call keyword args separators)) s =
        .ok (.assignment name (.array (row []))) s' :=
      eval_assign_eq_ok.2 ⟨_, _, hdim, hassign, rfl⟩
    have hplace := (Session.uses_iff hname).1 (Session.uses_of_assign hname hassign)
    obtain ⟨vars, -, rfl⟩ := Session.eq_of_assign hassign
    exact ⟨heval, .dim rfl hkeyword hargs heval hplace hbase⟩
  · have harray := h.hasArray hname hds
    obtain ⟨hin, way, index, hway, heval⟩ | ⟨n, d, hmem, hout, herror⟩ :=
      harray.eval_call_cases hname hother hds hargs hlength separators
    · refine ⟨fun _ ↦ ⟨?_, fun e v s₂ ws' hv h' ↦ ?_⟩, fun hout ↦ absurd hin hout⟩
      · exact (bind_run_of_ok heval).trans (harray.resolve_element hin hway)
      · obtain ⟨inner, index, hassign, -⟩ :=
          harray.eval_assign hname hother hds hargs hin hv (h'.hasArray hname hds)
        exact ⟨inner, index, hassign, .assign hother hargs hlength h hv h' hassign⟩
    · refine ⟨fun hin ↦ absurd hin (not_inRange hmem hout), fun _ ↦ ⟨n, d, hmem, hout, ?_, ?_⟩⟩
      · exact bind_run_eq_error.2 (.inl herror)
      · exact fun e ↦ eval_assign_of_error herror

/-- After `DIM A(2, 2)` and `A(1, 2) = 7`, with the index base one. -/
theorem eval_elements_square : ∃ s s₁ s₂ : Session, s.indexBase.whole? = some 1 ∧
    (∃ x, eval (callWithin ⟨1, 0⟩ 0) ⟨1, 0⟩
      (.binary .assign (.ident "A") (.call "DIM" [.number 2, .number 2] [])) s = .ok x s₁) ∧
    (∃ x, eval (callWithin ⟨1, 0⟩ 0) ⟨1, 0⟩
      (.binary .assign (.call "A" [.number 1, .number 2] []) (.number 7)) s₁ = .ok x s₂) ∧
    (do (← eval (callWithin ⟨1, 0⟩ 0) ⟨1, 0⟩ (.call "A" [.number 1, .number 2] [])).resolve :
      Action Value) s₂ = .ok (.number 7) s₂ ∧
    (do (← eval (callWithin ⟨1, 0⟩ 0) ⟨1, 0⟩ (.call "A" [.number 2, .number 2] [])).resolve :
      Action Value) s₂ = .ok (.number 0) s₂ ∧
    eval (callWithin ⟨1, 0⟩ 0) ⟨1, 0⟩
      (.binary .assign (.call "A" [.number 3, .number 1] []) (.number 7)) s₂ =
        .error (.fault (.subscript "A" 3 2)) s₂ := by
  let enter := callWithin ⟨1, 0⟩ 0
  let s : Session := .start { indexBase := 1 } {} .unavailable 0
  have hname : Builtin.ofName? "A" = none := by decide +kernel
  have hdim : Builtin.ofName? "DIM" = some .dim := by decide +kernel
  have hsizes : Sizes enter ⟨1, 0⟩ [.number 2, .number 2] s [2, 2] s :=
    ⟨_, rfl, .cons ⟨2, rfl, rfl⟩ (.cons ⟨2, rfl, rfl⟩ .nil)⟩
  have hone (s : Session) : ComesTo enter ⟨1, 0⟩ [.number 1, .number 2] s [1, 2] s :=
    ⟨_, rfl, .cons ⟨1, rfl, rfl⟩ (.cons ⟨2, rfl, rfl⟩ .nil)⟩
  have htwo (s : Session) : ComesTo enter ⟨1, 0⟩ [.number 2, .number 2] s [2, 2] s :=
    ⟨_, rfl, .cons ⟨2, rfl, rfl⟩ (.cons ⟨2, rfl, rfl⟩ .nil)⟩
  have hthree (s : Session) : ComesTo enter ⟨1, 0⟩ [.number 3, .number 1] s [3, 1] s :=
    ⟨_, rfl, .cons ⟨3, rfl, rfl⟩ (.cons ⟨1, rfl, rfl⟩ .nil)⟩
  obtain ⟨hdeclared, helements⟩ := eval_elements
  obtain ⟨place, h', hread, hassigned⟩ :=
    hdeclared enter ⟨1, 0⟩ s s "A" "DIM" _ [] [2, 2] 1 hname hdim (List.cons_ne_nil _ _) hsizes rfl
  obtain ⟨s₁, hassign⟩ : ∃ s₁, { s with heap := h' }.assign "A" (.array place) = .ok s₁ := by
    cases hread
    exact ⟨_, rfl⟩
  obtain ⟨hs₁, hfilled⟩ := hassigned s₁ hassign
  have hat {ws : List (List Int × Value)} {s : Session} (h : Filled "A" 1 [2, 2] place ws s) :=
    helements "A" 1 [2, 2] place ws s hname (List.cons_ne_nil _ _) h enter ⟨1, 0⟩ s "A"
  obtain ⟨-, hwrite⟩ := (hat hfilled _ [] _ rfl (hone s₁) rfl).1
    (.cons (by decide) (.cons (by decide) .nil))
  obtain ⟨inner, index, hs₂, hfilled'⟩ := hwrite (.number 7) (.number 7) s₁ [] rfl hfilled
  refine ⟨s, s₁, _, rfl, ⟨_, hs₁⟩, ⟨_, hs₂⟩, ?_, ?_, ?_⟩
  · exact ((hat hfilled' _ [] _ rfl (hone _) rfl).1 (.cons (by decide) (.cons (by decide) .nil))).1
  · exact ((hat hfilled' _ [] _ rfl (htwo _) rfl).1 (.cons (by decide) (.cons (by decide) .nil))).1
  · obtain ⟨n, d, hmem, hout, -, herror⟩ := (hat hfilled' _ [] _ rfl (hthree _) rfl).2
      (not_inRange (.head _) (by decide))
    have hpairs : (n, d) = (3, 2) ∨ (n, d) = (1, 2) := by simpa using hmem
    obtain heq | heq := hpairs
    · cases heq
      exact herror _
    · cases heq
      exact absurd (by decide) hout

end LineBasic
