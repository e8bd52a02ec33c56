/-!
# Dictionaries

A dictionary has at most one value for a key. An entry takes the place of an earlier one with the
same key.
-/

namespace MiniPascal

/-- Values by their keys. -/
structure Dictionary (α β : Type) where
  pairs : List (α × β) := []
  deriving DecidableEq

namespace Dictionary

variable {α β : Type} [DecidableEq α] (d : Dictionary α β) {a b : α}

/-- The value for a key. -/
def get? (a : α) : Option β := (d.pairs.find? fun x ↦ x.1 = a).map Prod.snd

/-- The dictionary with another value for a key. -/
def insert (a : α) (v : β) : Dictionary α β := ⟨(a, v) :: d.pairs.filter fun x ↦ x.1 ≠ a⟩

@[simp] theorem get?_empty (a : α) : ({} : Dictionary α β).get? a = none := rfl

@[simp] theorem get?_insert_self (a : α) (v : β) : (d.insert a v).get? a = some v := by
  simp [get?, insert]

theorem get?_insert_of_ne (h : b ≠ a) (v : β) : (d.insert a v).get? b = d.get? b := by
  have hab : ¬a = b := fun hab ↦ h hab.symm
  simp only [get?, insert, List.find?_cons, hab, decide_false, List.find?_filter]
  congr 2
  funext x
  by_cases hx : x.1 = b <;> simp [hx, h]

theorem get?_insert (v : β) : (d.insert a v).get? b = if b = a then some v else d.get? b := by
  split
  · next h => rw [h, get?_insert_self]
  · next h => exact d.get?_insert_of_ne h v

theorem mem_pairs_of_get? {v : β} (h : d.get? a = some v) : (a, v) ∈ d.pairs := by
  obtain ⟨x, hx, rfl⟩ := Option.map_eq_some_iff.1 h
  have hkey : x.1 = a := by simpa using List.find?_some hx
  rw [← hkey]
  exact List.mem_of_find?_eq_some hx

end Dictionary

end MiniPascal
