import Mathlib.Logic.Basic

/-! Writing values to scattered addresses, or to none; the later of two positions with one address wins. -/

namespace Scatter

variable {A B : Type} [DecidableEq A] {addr : Nat → Option A} {vals : Nat → B} {mem : A → B} {a : A} {n : Nat}

/-- Write `vals i` to the address of position `i`, for the first `n` positions. -/
def scatter (addr : Nat → Option A) (vals : Nat → B) (mem : A → B) : Nat → A → B
  | 0, a => mem a
  | n + 1, a => if addr n = some a then vals n else scatter addr vals mem n a

theorem scatter_of_forall_ne (h : ∀ i < n, addr i ≠ some a) : scatter addr vals mem n a = mem a := by
  induction n with
  | zero => rfl
  | succ n ih =>
    rw [scatter, if_neg (h n (Nat.lt_succ_self n))]
    exact ih fun i hi => h i (Nat.lt_succ_of_lt hi)

theorem scatter_of_unique {i : Nat} (hi : i < n) (ha : addr i = some a) (huniq : ∀ j < n, addr j = some a → j = i) :
    scatter addr vals mem n a = vals i := by
  induction n with
  | zero => exact absurd hi (Nat.not_lt_zero i)
  | succ n ih =>
    rw [scatter]
    split
    next hn => rw [huniq n (Nat.lt_succ_self n) hn]
    next hn =>
      have hne : i ≠ n := fun h => hn (h ▸ ha)
      exact ih (Nat.lt_of_le_of_ne (Nat.le_of_lt_succ hi) hne) fun j hj => huniq j (Nat.lt_succ_of_lt hj)

end Scatter
