import Mathlib.Data.List.Count
import Mathlib.Tactic

/-! Counting the members of a table with a property, one member of which is replaced. -/

namespace Mynfs

theorem countP_set_add {α : Type} {l : List α} {i : Nat} {x : α} (p : α → Bool) (h : l[i]? = some x) (y : α) :
    (l.set i y).countP p + (p x).toNat = l.countP p + (p y).toNat := by
  obtain ⟨hlt, rfl⟩ := List.getElem?_eq_some_iff.mp h
  have hpos : p l[i] → 0 < l.countP p := fun hp => List.countP_pos_iff.mpr ⟨l[i], l.getElem_mem hlt, hp⟩
  rw [List.countP_set hlt]
  cases hx : p l[i] with
  | false => cases p y <;> simp
  | true =>
    have := hpos hx
    cases p y <;> simp <;> omega

end Mynfs
