import LineBasic.Value

/-!
# The heap of arrays

Every array that a program makes gets a place of its own, and keeps its length for good; only its
elements can be replaced.  The view of a heap is `elements`, the elements at a place.
-/

set_option autoImplicit false
namespace LineBasic

/-- The arrays of a session, by place. -/
structure Heap where
  arrays : Array (Array Value)

namespace Heap

/-- No arrays. -/
def empty : Heap := ⟨#[]⟩

/-- The number of places in use. -/
def size (h : Heap) : Nat := h.arrays.size

/-- The elements of the array at a place; an unused place has none. -/
def elements (h : Heap) (place : Nat) : Array Value :=
  h.arrays[place]?.getD #[]

/-- A new array: its place and the heap that has it. -/
def alloc (h : Heap) (elements : Array Value) : Nat × Heap :=
  (h.arrays.size, ⟨h.arrays.push elements⟩)

/-- Replaces an element.  A place or an index outside the heap changes nothing. -/
def set (h : Heap) (place index : Nat) (v : Value) : Heap :=
  ⟨h.arrays.modify place fun elements ↦ elements.setIfInBounds index v⟩

/-- The array one step inside another, if there is one. -/
def child? (h : Heap) (place index : Nat) : Option Nat :=
  match (h.elements place)[index]? with
  | some (.array inner) => some inner
  | _ => none

theorem elements_alloc_new (h : Heap) (elements : Array Value) :
    (h.alloc elements).2.elements (h.alloc elements).1 = elements := by
  simp [alloc, Heap.elements]

theorem elements_alloc_of_lt (h : Heap) (elements : Array Value) {place : Nat}
    (hp : place < h.size) :
    (h.alloc elements).2.elements place = h.elements place := by
  have hp' : place < h.arrays.size := hp
  simp [alloc, Heap.elements, Array.getElem?_push, Nat.ne_of_lt hp']

theorem size_set (h : Heap) (place index : Nat) (v : Value) :
    (h.set place index v).size = h.size := by
  simp [set, size]

/-- Assignments do not change the length of any array. -/
theorem size_elements_set (h : Heap) (place index other : Nat) (v : Value) :
    ((h.set place index v).elements other).size = (h.elements other).size := by
  simp only [set, elements, Array.getElem?_modify]
  split
  · cases h.arrays[other]? <;> simp
  · rfl

end Heap

end LineBasic
