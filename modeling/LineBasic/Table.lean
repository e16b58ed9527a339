/-!
# Tables

A table maps keys to values and remembers the order in which the keys were first entered.  It is
described by `get?`.
-/

set_option autoImplicit false
namespace LineBasic

/-- A finite map with its entries in order of entry. -/
structure Table (κ α : Type) where
  entries : List (κ × α) := []

namespace Table

variable {κ α : Type} [DecidableEq κ]

/-- The table without entries. -/
def empty : Table κ α := {}

/-- The value of a key. -/
def get? (t : Table κ α) (k : κ) : Option α :=
  (t.entries.find? fun e ↦ e.1 == k).map Prod.snd

/-- Whether a key has a value. -/
def contains (t : Table κ α) (k : κ) : Bool :=
  (t.get? k).isSome

/-- The entries with the value of a key replaced, or entered at the end. -/
def put (k : κ) (v : α) : List (κ × α) → List (κ × α)
  | [] => [(k, v)]
  | e :: es => if e.1 == k then (k, v) :: es else e :: put k v es

/-- Gives a key a value. -/
def insert (t : Table κ α) (k : κ) (v : α) : Table κ α :=
  ⟨put k v t.entries⟩

/-- The keys, in order of entry. -/
def keys (t : Table κ α) : List κ :=
  t.entries.map Prod.fst

/-- The values, in order of entry of their keys. -/
def values (t : Table κ α) : List α :=
  t.entries.map Prod.snd

@[simp] theorem get?_empty (k : κ) : (empty : Table κ α).get? k = none := rfl

theorem find?_put_self (k : κ) (v : α) (es : List (κ × α)) :
    (put k v es).find? (fun e ↦ e.1 == k) = some (k, v) := by
  induction es with
  | nil => simp [put]
  | cons e es ih =>
    rw [put]
    split
    · simp
    · rename_i h
      simp [h, ih]

theorem find?_put_of_ne {k k' : κ} (v : α) (es : List (κ × α)) (h : k' ≠ k) :
    (put k v es).find? (fun e ↦ e.1 == k') = es.find? (fun e ↦ e.1 == k') := by
  induction es with
  | nil => simp [put, h.symm]
  | cons e es ih =>
    rw [put]
    split
    · rename_i he
      have he : e.1 = k := by simpa using he
      simp [he, h.symm]
    · simp only [List.find?_cons, ih]

@[simp] theorem get?_insert_self (t : Table κ α) (k : κ) (v : α) :
    (t.insert k v).get? k = some v := by
  simp [get?, insert, find?_put_self]

theorem get?_insert_of_ne (t : Table κ α) {k k' : κ} (v : α) (h : k' ≠ k) :
    (t.insert k v).get? k' = t.get? k' := by
  simp [get?, insert, find?_put_of_ne v t.entries h]

end Table

end LineBasic
