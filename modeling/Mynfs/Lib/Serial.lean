import Mathlib.Data.BitVec
import Mathlib.Tactic

/-! Serial numbers of `w` bits, compared through the sign of their difference: the order of the unwrapped counters while
    these are less than `2 ^ (w - 1)` apart. -/

namespace Serial

variable {w : Nat} {a b base : BitVec w} {x y : Int}

/-- The distance from `b` up to `a`, as a signed number. -/
def diff (a b : BitVec w) : Int := (a - b).toInt

/-- `a` comes after `b` in serial order. -/
def newer (a b : BitVec w) : Bool := decide (0 < diff a b)

theorem newer_iff : newer a b = true ↔ 0 < diff a b := by simp [newer]

theorem not_newer_iff : newer a b = false ↔ diff a b ≤ 0 := by simp [newer]

@[simp] theorem diff_self (a : BitVec w) : diff a a = 0 := by simp [diff]

@[simp] theorem newer_self (a : BitVec w) : newer a a = false := by simp [newer]

theorem ofInt_sub (x y : Int) : BitVec.ofInt w x - BitVec.ofInt w y = BitVec.ofInt w (x - y) := by
  apply BitVec.eq_of_toInt_eq
  rw [BitVec.toInt_sub, BitVec.toInt_ofInt, BitVec.toInt_ofInt, BitVec.toInt_ofInt, Int.bmod_sub_bmod, Int.sub_bmod_bmod]

theorem diff_ofInt (hw : 0 < w) (hlo : -2 ^ (w - 1) ≤ x - y) (hhi : x - y < 2 ^ (w - 1)) :
    diff (BitVec.ofInt w x) (BitVec.ofInt w y) = x - y := by
  rw [diff, ofInt_sub]
  exact BitVec.toInt_ofInt_eq_self hw hlo hhi

/-- Within half the range, serial comparison is that of the integers. -/
theorem newer_ofInt (hw : 0 < w) (hlo : -2 ^ (w - 1) ≤ x - y) (hhi : x - y < 2 ^ (w - 1)) :
    newer (BitVec.ofInt w x) (BitVec.ofInt w y) = decide (y < x) := by
  rw [newer, diff_ofInt hw hlo hhi]
  simp only [Int.sub_pos]

/-- The position of `a` counted from `base`. -/
def rank (base a : BitVec w) : Nat := (a - base).toNat

/-- `a` is one of the `2 ^ (w - 1)` values from `base` on. -/
def InWindow (base a : BitVec w) : Prop := rank base a < 2 ^ (w - 1)

instance (base a : BitVec w) : Decidable (InWindow base a) := inferInstanceAs (Decidable (_ < _))

theorem ofInt_rank (base a : BitVec w) : BitVec.ofInt w (rank base a) = a - base := by
  rw [rank, BitVec.ofInt_natCast, BitVec.ofNat_toNat, BitVec.setWidth_eq]

variable (hw : 0 < w) (ha : InWindow base a) (hb : InWindow base b)
include hw ha hb

theorem diff_eq_rank : diff a b = (rank base a : Int) - rank base b := by
  have hsub : a - b = (a - base) - (b - base) := (sub_sub_sub_cancel_right a b base).symm
  have hlt : ∀ {c : BitVec w}, InWindow base c → (rank base c : Int) < 2 ^ (w - 1) := fun hc => by
    exact_mod_cast hc
  have h1 := hlt ha
  have h2 := hlt hb
  rw [diff, hsub, ← ofInt_rank base a, ← ofInt_rank base b, ofInt_sub]
  exact BitVec.toInt_ofInt_eq_self hw (by omega) (by omega)

/-- Within half the range from `base`, it is that of the distances from `base`. -/
theorem newer_iff_rank : newer a b = true ↔ rank base b < rank base a := by
  rw [newer_iff, diff_eq_rank hw ha hb]
  omega

theorem not_newer_iff_rank : newer a b = false ↔ rank base a ≤ rank base b := by
  rw [not_newer_iff, diff_eq_rank hw ha hb]
  omega

omit hw ha hb

theorem rank_inj (h : rank base a = rank base b) : a = b := by
  have hsub : a - base = b - base := BitVec.eq_of_toNat_eq h
  calc a = a - base + base := (BitVec.sub_add_cancel a base).symm
    _ = b - base + base := by rw [hsub]
    _ = b := BitVec.sub_add_cancel b base

end Serial
