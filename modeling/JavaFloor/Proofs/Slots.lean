import JavaFloor.Slots
import Mathlib.Logic.Equiv.Basic

/-!
# Objects that change slots

To move an object into an empty slot is to let the two slots change places
(`Slots.set_set_eq_swap`). So what holds of all slots, wherever an object stands, is kept by moves.
-/

namespace JavaFloor

namespace Slots

/-- What is moved into an empty slot changes places with what was there. -/
theorem set_set_eq_swap {α : Type} {slots : Slots α} {slot other : Bytes} {empty : α}
    (hslot : slots slot = empty) (hne : other ≠ slot) :
    (slots.set other empty).set slot (slots other) = slots ∘ Equiv.swap slot other := by
  funext n
  by_cases hn : n = slot
  · simp [hn]
  · by_cases hn' : n = other
    · simp [hn', hne, hslot]
    · simp [hn, hn', Equiv.swap_apply_of_ne_of_ne]

end Slots

end JavaFloor
