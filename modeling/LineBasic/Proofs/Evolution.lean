import LineBasic.Proofs.Lockstep.Session
import Mathlib.Logic.Relation

/-!
# What statements do to sessions

A statement changes a session by single changes: a new array, an element written, a variable
assigned, a text printed, and so on.  The list of them is all that is known here of statements; what
holds after each change holds after a statement.

An element handle that was made in one session may be used in a later one.  It then still leads to
an element, unless an array that it leads through was replaced in the meantime.

* `Session.Change`, `Session.Evolves` — single changes and what they add up to.
* `Operand.access`, `Operand.IsLive` — whether a handle leads to an element.
* `Session.Evolves.exists_replaces` — how a live handle comes to lead nowhere.
-/

set_option autoImplicit false
namespace LineBasic

/-! ## Changes -/

namespace Session

/-- A single change that a statement makes to a session. -/
inductive Change : Session → Session → Prop
  /-- A new array. -/
  | allocated {s : Session} (elements : Array Value) :
      Change s { s with heap := (s.heap.alloc elements).2 }
  /-- An element of an array is replaced. -/
  | written {s : Session} {place index : Nat} (v : Value)
      (h : index < (s.heap.elements place).size) :
      Change s { s with heap := s.heap.set place index v }
  | assigned {s s' : Session} {name : String} {v : Value} (h : s.assign name v = .ok s') :
      Change s s'
  /-- All variables are forgotten. -/
  | cleared {s : Session} : Change s { s with vars := .empty }
  /-- Other frames and calls are in force. -/
  | framed {s : Session} (binders : Binders.Stack) : Change s { s with binders }
  | returns {s : Session} (returns : List Site) : Change s { s with returns }
  | loops {s : Session} (loops : List Loop) : Change s { s with loops }
  | labels {s : Session} (labels : Table String Int) : Change s { s with labels }
  /-- Values are added to the data. -/
  | collected {s : Session} (values : List Value) : Change s { s with data := s.data ++ values }
  | cursor {s : Session} (cursor : Nat) : Change s { s with cursor }
  | indexBase {s : Session} (base : Int) : Change s { s with indexBase := base }
  | debugging {s : Session} (isDebugging : Bool) : Change s { s with isDebugging }
  | tracing {s : Session} (isTracing : Bool) : Change s { s with isTracing }
  | printed {s : Session} (text : String) : Change s { s with console := s.console.print text }
  /-- A line of input is read. -/
  | lineRead {s : Session} {line : String} {console : Console}
      (h : s.console.readLine? = some (line, console)) : Change s { s with console }
  | bus {s : Session} (bus : Bus) : Change s { s with bus }
  | random {s : Session} : Change s { s with random := s.random.next }

/-- A session becomes another by changes. -/
abbrev Evolves : Session → Session → Prop :=
  Relation.ReflTransGen Change

variable {s s' : Session}

theorem Change.settings (h : s.Change s') : s'.settings = s.settings := by
  cases h with
  | assigned h =>
    obtain ⟨vars, -, rfl⟩ := eq_of_assign h
    rfl
  | _ => rfl

theorem Change.isProduction (h : s.Change s') : s'.isProduction = s.isProduction := by
  cases h with
  | assigned h =>
    obtain ⟨vars, -, rfl⟩ := eq_of_assign h
    rfl
  | _ => rfl

/-- Statements leave the stored program alone. -/
theorem Change.program (h : s.Change s') : s'.program = s.program := by
  cases h with
  | assigned h =>
    obtain ⟨vars, -, rfl⟩ := eq_of_assign h
    rfl
  | _ => rfl

/-- A new index base is an integer. -/
theorem Change.indexBase_eq (h : s.Change s') :
    s'.indexBase = s.indexBase ∨ ∃ n, s'.indexBase = .whole n := by
  cases h with
  | assigned h =>
    obtain ⟨vars, -, rfl⟩ := eq_of_assign h
    exact .inl rfl
  | indexBase base => exact .inr ⟨base, rfl⟩
  | _ => exact .inl rfl

theorem Evolves.settings (h : s.Evolves s') : s'.settings = s.settings := by
  induction h with
  | refl => rfl
  | tail _ hchange ih => exact hchange.settings.trans ih

theorem Evolves.isProduction (h : s.Evolves s') : s'.isProduction = s.isProduction := by
  induction h with
  | refl => rfl
  | tail _ hchange ih => exact hchange.isProduction.trans ih

theorem Evolves.program (h : s.Evolves s') : s'.program = s.program := by
  induction h with
  | refl => rfl
  | tail _ hchange ih => exact hchange.program.trans ih

/-- The index base becomes an integer or remains what it is. -/
theorem Evolves.indexBase (h : s.Evolves s') (hbase : s'.indexBase.whole? = none) :
    s.indexBase.whole? = none := by
  induction h with
  | refl => exact hbase
  | tail _ hchange ih =>
    obtain heq | ⟨n, heq⟩ := hchange.indexBase_eq
    · exact ih (heq ▸ hbase)
    · rw [heq] at hbase
      cases hbase

/-- Whether a setting has a value that a statement may not be able to work with. -/
def IsUnfit (s : Session) : Prop :=
  s.indexBase.whole? = none ∨ s.settings.memorySize.real? = none

theorem Evolves.isUnfit (h : s.Evolves s') (hunfit : s'.IsUnfit) : s.IsUnfit :=
  hunfit.imp h.indexBase fun hsize ↦ h.settings ▸ hsize

end Session

/-! ## Elements -/

namespace Heap

variable {h : Heap} {place index : Nat}

/-- What is in an array remains there when there is a new one. -/
theorem getElem?_alloc {v : Value} (hv : (h.elements place)[index]? = some v)
    (elements : Array Value) : ((h.alloc elements).2.elements place)[index]? = some v := by
  by_cases hplace : place < h.size
  · rwa [elements_alloc_of_lt h elements hplace]
  · have hunused : h.elements place = #[] := by
      have hsize : h.arrays.size ≤ place := Nat.le_of_not_lt hplace
      simp [Heap.elements, Array.getElem?_eq_none hsize]
    rw [hunused] at hv
    cases hv

/-- What is in an array when an element is replaced, there or in another array. -/
theorem getElem?_set (h : Heap) (place index : Nat) (v : Value) (place' index' : Nat) :
    ((h.set place index v).elements place')[index']? =
      if place = place' ∧ index = index' then ((h.elements place')[index']?).map fun _ ↦ v
      else (h.elements place')[index']? := by
  simp only [set, elements, Array.getElem?_modify]
  by_cases hplace : place = place'
  · subst hplace
    cases harray : h.arrays[place]? with
    | none => simp
    | some elements =>
      by_cases hindex : index = index'
      · subst hindex
        by_cases hsize : index < elements.size
        · simp [hsize]
        · simp [hsize]
      · simp [hindex]
  · simp [hplace]

/-- A heap in which every element is still there, and every array in an array is the same one. -/
structure Keeps (h h' : Heap) : Prop where
  isSome : ∀ place index : Nat,
    ((h.elements place)[index]?).isSome → ((h'.elements place)[index]?).isSome
  array : ∀ place index inner : Nat, (h.elements place)[index]? = some (.array inner) →
    (h'.elements place)[index]? = some (.array inner)

theorem Keeps.refl (h : Heap) : h.Keeps h :=
  ⟨fun _ _ ↦ id, fun _ _ _ ↦ id⟩

theorem keeps_alloc (h : Heap) (elements : Array Value) : h.Keeps (h.alloc elements).2 where
  isSome place index hsome := by
    obtain ⟨v, hv⟩ := Option.isSome_iff_exists.1 hsome
    rw [getElem?_alloc hv]
    rfl
  array place index inner hinner := getElem?_alloc hinner elements

/-- A write keeps all arrays in arrays, unless there was another one where it writes. -/
theorem keeps_set {v : Value}
    (hkeep : ∀ inner, h.child? place index = some inner → v = .array inner) :
    h.Keeps (h.set place index v) where
  isSome place' index' hsome := by
    rw [getElem?_set]
    split
    · rwa [Option.isSome_map]
    · exact hsome
  array place' index' inner hinner := by
    rw [getElem?_set]
    split
    · rename_i heq
      obtain ⟨rfl, rfl⟩ := heq
      have hchild : h.child? place index = some inner := by rw [child?, hinner]
      rw [hinner, hkeep inner hchild]
      rfl
    · exact hinner

variable {h' : Heap} {base : Nat} {way : List Nat}

theorem Keeps.follow (hkeeps : h.Keeps h') {inner : Nat} (hfollow : h.follow base way = .ok inner) :
    h'.follow base way = .ok inner := by
  induction way generalizing base with
  | nil => exact hfollow
  | cons index way ih =>
    rw [Heap.follow] at hfollow ⊢
    split at hfollow
    · cases hfollow
    · rename_i next hnext
      rw [hkeeps.array _ _ _ hnext]
      exact ih hfollow
    · cases hfollow

theorem readElement_eq_ok {v : Value} :
    h.readElement base way index = .ok v ↔
      ∃ place, h.follow base way = .ok place ∧ (h.elements place)[index]? = some v := by
  rw [readElement, bind_eq_ok]
  refine exists_congr fun place ↦ and_congr_right fun _ ↦ ?_
  split
  · rename_i w hw
    rw [hw]
    exact ⟨fun heq ↦ congrArg some (Except.ok.inj heq),
      fun heq ↦ congrArg Except.ok (Option.some.inj heq)⟩
  · rename_i hnone
    rw [hnone]
    exact ⟨nofun, nofun⟩

end Heap

/-! ## Handles -/

namespace Operand

/-- What an access to an operand finds out: that it leads to an element, or to something in an
array, or why it leads nowhere.  All other operands can be accessed. -/
def access (h : Heap) : Operand → Except Stop Unit
  | element base way index _ => (h.readElement base way index).map fun _ ↦ ()
  | inexact base way _ => (h.follow base way).map fun _ ↦ ()
  | _ => .ok ()

/-- An operand that can be accessed.  Only index bases that are no integers lead to something in an
array that is no element. -/
structure IsLive (s : Session) (operand : Operand) : Prop where
  access : operand.access s.heap = .ok ()
  exact : ∀ base way name, operand = .inexact base way name → s.indexBase.whole? = none

theorem access_element {h : Heap} {base index : Nat} {way : List Nat} {name : String} :
    (element base way index name).access h = .ok () ↔
      ∃ v, h.readElement base way index = .ok v := by
  rw [access]
  cases h.readElement base way index with
  | ok v => exact ⟨fun _ ↦ ⟨v, rfl⟩, fun _ ↦ rfl⟩
  | error stop => exact ⟨nofun, nofun⟩

theorem access_inexact {h : Heap} {base : Nat} {way : List Nat} {name : String} :
    (inexact base way name).access h = .ok () ↔ ∃ place, h.follow base way = .ok place := by
  rw [access]
  cases h.follow base way with
  | ok place => exact ⟨fun _ ↦ ⟨place, rfl⟩, fun _ ↦ rfl⟩
  | error stop => exact ⟨nofun, nofun⟩

theorem access_of_keeps {h h' : Heap} (hkeeps : h.Keeps h') {operand : Operand}
    (haccess : operand.access h = .ok ()) : operand.access h' = .ok () := by
  cases operand with
  | element base way index name =>
    obtain ⟨v, hread⟩ := access_element.1 haccess
    obtain ⟨place, hfollow, hv⟩ := Heap.readElement_eq_ok.1 hread
    obtain ⟨w, hw⟩ := Option.isSome_iff_exists.1 (hkeeps.isSome place index (by rw [hv]; rfl))
    exact access_element.2 ⟨w, Heap.readElement_eq_ok.2 ⟨place, hkeeps.follow hfollow, hw⟩⟩
  | inexact base way name =>
    obtain ⟨place, hfollow⟩ := access_inexact.1 haccess
    exact access_inexact.2 ⟨place, hkeeps.follow hfollow⟩
  | _ => rfl

end Operand

namespace Session

/-- Something else is put in the place of an array in an array. -/
def Replaces (s s' : Session) : Prop :=
  ∃ place index inner v, s.heap.child? place index = some inner ∧ v ≠ .array inner ∧
    s' = { s with heap := s.heap.set place index v }

/-- A change keeps all elements and all arrays in arrays, or it replaces one of these. -/
theorem Change.keeps_or_replaces {s s' : Session} (h : s.Change s') :
    s.heap.Keeps s'.heap ∨ s.Replaces s' := by
  cases h with
  | allocated elements => exact .inl (s.heap.keeps_alloc elements)
  | @written place index v _ =>
    by_cases hkeep : ∀ inner, s.heap.child? place index = some inner → v = .array inner
    · exact .inl (Heap.keeps_set hkeep)
    · obtain ⟨inner, hinner⟩ := Classical.not_forall.1 hkeep
      obtain ⟨hchild, hne⟩ := Classical.not_imp.1 hinner
      exact .inr ⟨place, index, inner, v, hchild, hne, rfl⟩
  | assigned h =>
    obtain ⟨vars, -, rfl⟩ := eq_of_assign h
    exact .inl (.refl _)
  | _ => exact .inl (.refl _)

/-- Where an operand can no longer be accessed, an array in an array was replaced. -/
theorem Evolves.exists_replaces {s s' : Session} (h : s.Evolves s') {operand : Operand}
    (hlive : operand.access s.heap = .ok ()) {stop : Stop}
    (hdead : operand.access s'.heap = .error stop) :
    ∃ s₁ s₂, s.Evolves s₁ ∧ s₁.Replaces s₂ ∧ s₂.Evolves s' := by
  induction h using Relation.ReflTransGen.head_induction_on with
  | refl =>
    rw [hlive] at hdead
    cases hdead
  | @head s t hchange hrest ih =>
    obtain hkeeps | hreplaces := hchange.keeps_or_replaces
    · obtain ⟨s₁, s₂, h₁, h₁₂, h₂⟩ := ih (Operand.access_of_keeps hkeeps hlive)
      exact ⟨s₁, s₂, .head hchange h₁, h₁₂, h₂⟩
    · exact ⟨s, t, .refl, hreplaces, hrest⟩

end Session
end LineBasic
