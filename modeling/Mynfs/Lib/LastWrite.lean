import Mathlib.Data.List.Induction

/-! Folds whose steps write a value to a register or leave it: in the end it has that of the last write. -/

namespace LastWrite
variable {α β σ : Type} {step : σ → α → σ} {g : σ → β} {written : α → Option β}

theorem get_foldl (h : ∀ s a, g (step s a) = (written a).getD (g s)) : ∀ (l : List α) (s : σ),
    g (l.foldl step s) = (l.filterMap written).getLast?.getD (g s)
  | [], _ => rfl
  | a :: l, s => by
    rw [List.foldl_cons, get_foldl h, h, List.filterMap_cons]
    cases written a with
    | none => rfl
    | some b => rw [List.getLast?_cons]; rfl

/-- Where just the selected steps write, the last write is that of the last selected step. -/
theorem getLast?_filterMap {p : α → Bool} {l : List α} (h : ∀ a ∈ l, (written a).isSome = p a) :
    (l.filterMap written).getLast? = (l.filter p).getLast?.bind written := by
  induction l using List.reverseRecOn with
  | nil => rfl
  | append_singleton l a ih =>
    have ih := ih fun b hb => h b (List.mem_append_left _ hb)
    have ha := h a (List.mem_append_right _ List.mem_cons_self)
    rw [List.filterMap_append, List.filter_append, List.getLast?_append, List.getLast?_append, ih]
    cases hw : written a <;> simp [hw, ← ha]

end LastWrite
