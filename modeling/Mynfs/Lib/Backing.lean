import Mathlib.Data.Set.Basic
import Mathlib.Order.Basic

/-! Progress reports that must not run ahead of what is settled. A report of `count` positions, which promises at most
    `limit`, is *backed* if all that was handed out below the limit is settled or pending: it is right once nothing is. -/

/-- `top` is a position, `count` and `limit` are numbers of positions. -/
structure Backed (start count limit top : Nat) (settled pending : Set Nat) : Prop where
  count_le : count ≤ limit
  count_top : start + count ≤ top
  pending_lt : ∀ b ∈ pending, b < top
  held : ∀ b, start ≤ b → b < start + limit → b < top → b ∈ settled ∨ b ∈ pending

namespace Backed

variable {start count limit top : Nat} {settled pending : Set Nat}

theorem settled_of_idle (h : Backed start count limit top settled pending) (hidle : pending = ∅) {b : Nat}
    (hlo : start ≤ b) (hhi : b < start + count) : b ∈ settled := by
  have hlimit := h.count_le
  have htop := h.count_top
  refine (h.held b hlo (by omega) (by omega)).resolve_right fun hb => ?_
  rw [hidle] at hb
  exact hb

/-- The part `old` of what is pending gives way to `new`. -/
theorem exchange {old new rest : Set Nat} (h : Backed start count limit top settled (old ∪ rest)) {count' limit' : Nat}
    (hlimit : limit' ≤ limit) (hcount : count' ≤ limit') (htop : start + count' ≤ top) (hsub : new ⊆ old)
    (hkept : ∀ b ∈ old, start ≤ b → b < start + limit' → b ∈ settled ∨ b ∈ new) :
    Backed start count' limit' top settled (new ∪ rest) := by
  refine ⟨hcount, htop, fun b hb => h.pending_lt b (Set.union_subset_union_left rest hsub hb), fun b hlo hb hlt => ?_⟩
  rcases h.held b hlo (by omega) hlt with hb' | hb' | hb'
  · exact .inl hb'
  · exact (hkept b hb' hlo hb).imp_right .inl
  · exact .inr (.inr hb')

section
variable (h : Backed start count limit top settled pending) {top' : Nat}
include h

theorem settle {settled' : Set Nat} (hset : settled ⊆ settled') : Backed start count limit top settled' pending :=
  ⟨h.count_le, h.count_top, h.pending_lt, fun b hlo hb hlt => (h.held b hlo hb hlt).imp_left fun hb' => hset hb'⟩

theorem extend {pending' : Set Nat} (htop : top ≤ top')
    (hsub : pending ⊆ pending') (hlt : ∀ b ∈ pending', b < top') (hnew : ∀ b, top ≤ b → b < top' → b ∈ pending') :
    Backed start count limit top' settled pending' := by
  refine ⟨h.count_le, le_trans h.count_top htop, hlt, fun b hlo hb hlt' => ?_⟩
  by_cases hold : b < top
  · exact (h.held b hlo hb hold).imp_right fun hb' => hsub hb'
  · exact .inr (hnew b (not_lt.mp hold) hlt')

theorem grow (htop : top ≤ top') : Backed start count limit top' settled (pending ∪ { b | top ≤ b ∧ b < top' }) := by
  refine h.extend htop Set.subset_union_left (fun b hb => ?_) fun b hlo hhi => .inr ⟨hlo, hhi⟩
  rcases hb with hb | hb
  · exact lt_of_lt_of_le (h.pending_lt b hb) htop
  · exact hb.2

end

end Backed
