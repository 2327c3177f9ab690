import JavaFloor.Bytes

/-!
# Named slots

A bank of slots holds one object under each name, all of them the same empty object at first.
-/

namespace JavaFloor

/-- An object under each name. -/
abbrev Slots (α : Type) := Bytes → α

namespace Slots

variable {α : Type}

/-- Puts an object into a slot. -/
def set (slots : Slots α) (name : Bytes) (a : α) : Slots α := fun n =>
  if n = name then a else slots n

@[simp]
theorem set_self (slots : Slots α) (name : Bytes) (a : α) : slots.set name a name = a :=
  if_pos rfl

@[simp]
theorem set_of_ne (slots : Slots α) {name n : Bytes} (a : α) (h : n ≠ name) :
    slots.set name a n = slots n :=
  if_neg h

@[simp]
theorem set_set (slots : Slots α) (name : Bytes) (a b : α) :
    (slots.set name a).set name b = slots.set name b := by
  funext n
  by_cases h : n = name
  · rw [h, set_self, set_self]
  · rw [set_of_ne _ _ h, set_of_ne _ _ h, set_of_ne _ _ h]

@[simp]
theorem set_eq_self (slots : Slots α) (name : Bytes) : slots.set name (slots name) = slots := by
  funext n
  by_cases h : n = name
  · rw [h, set_self]
  · rw [set_of_ne _ _ h]

theorem set_comm (slots : Slots α) {name other : Bytes} (h : name ≠ other) (a b : α) :
    (slots.set name a).set other b = (slots.set other b).set name a := by
  funext n
  by_cases hother : n = other
  · rw [hother, set_self, set_of_ne _ _ h.symm, set_self]
  · by_cases hname : n = name
    · rw [hname, set_of_ne _ _ h, set_self, set_self]
    · rw [set_of_ne _ _ hother, set_of_ne _ _ hname, set_of_ne _ _ hname, set_of_ne _ _ hother]

end Slots

end JavaFloor
