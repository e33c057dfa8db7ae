import Mathlib.Data.List.Count
import Mathlib.Tactic

/-! A reader/writer semaphore with downgrade, and what the parties hold: if it counts them (`Guards`), an exclusive hold
    is the only one. -/

namespace RwSem

/-- What a party holds. -/
inductive Hold
  | none
  | shared
  | exclusive
deriving DecidableEq

/-- A semaphore by its counts. -/
structure Sem where
  readers : Nat := 0
  writer : Bool := false
deriving DecidableEq

namespace Sem
variable (l : Sem)

def downRead : Option Sem := if l.writer then none else some { l with readers := l.readers + 1 }

def upRead : Sem := { l with readers := l.readers - 1 }

def downWrite : Option Sem := if l.writer ∨ l.readers ≠ 0 then none else some { l with writer := true }

def upWrite : Sem := { l with writer := false }

def downgradeWrite : Sem := { readers := l.readers + 1, writer := false }

end Sem

/-- The semaphore counts the holds. -/
structure Guards (l : Sem) (holds : List Hold) : Prop where
  shared : l.readers = holds.count .shared
  exclusive : l.writer.toNat = holds.count .exclusive
  apart : l.writer → l.readers = 0

variable {holds : List Hold} {i : Nat} {a : Hold}

theorem count_set (h : holds[i]? = some a) (b c : Hold) :
    (holds.set i b).count c + (if a = c then 1 else 0) = holds.count c + (if b = c then 1 else 0) := by
  induction holds generalizing i with
  | nil => cases h
  | cons x xs ih =>
    cases i with
    | zero =>
      cases h
      simp only [List.set_cons_zero, List.count_cons, beq_iff_eq]
      omega
    | succ i =>
      have hrest := ih (i := i) h
      simp only [List.set_cons_succ, List.count_cons]
      omega

theorem count_pos (h : holds[i]? = some a) : 0 < holds.count a :=
  List.count_pos_iff.mpr (List.mem_of_getElem? h)

theorem guards_init (n : Nat) : Guards {} (List.replicate n Hold.none) := by
  refine ⟨?_, ?_, nofun⟩ <;> rw [List.count_replicate] <;> rfl

namespace Guards
variable {l l' : Sem} {j : Nat}

section
variable (h : Guards l holds)
include h

/-- A writer is alone. -/
theorem alone (hi : holds[i]? = some .exclusive) {a : Hold} (hj : holds[j]? = some a) (hne : j ≠ i) : a = .none := by
  have hcount := count_pos hi
  have hle := l.writer.toNat_le
  have hexcl := h.exclusive
  cases a with
  | none => rfl
  | shared =>
    have hshared := h.shared
    have hpos := count_pos hj
    have hw : l.writer := by
      rw [← Bool.toNat_eq_one]
      omega
    have hzero := h.apart hw
    omega
  | exclusive =>
    have hother : (holds.set i .none)[j]? = some .exclusive := by rwa [List.getElem?_set_ne hne.symm]
    have hpos := count_pos hother
    have hset := count_set hi .none .exclusive
    simp only [if_true, reduceCtorEq, if_false] at hset
    omega

/-- No writer beside a reader. -/
theorem not_exclusive (hi : holds[i]? = some .shared) : .exclusive ∉ holds := by
  intro hmem
  obtain ⟨j, hj⟩ := List.mem_iff_getElem?.mp hmem
  have hne : i ≠ j := by
    rintro rfl
    rw [hi] at hj
    cases hj
  have := h.alone hj hi hne
  cases this

theorem downRead (hi : holds[i]? = some .none) (hl : l.downRead = some l') :
    Guards l' (holds.set i .shared) ∧ .exclusive ∉ holds := by
  unfold Sem.downRead at hl
  split at hl
  · cases hl
  next hw =>
    cases hl
    have hshared := count_set hi .shared .shared
    have hexcl := count_set hi .shared .exclusive
    have hnone : holds.count .exclusive = 0 := by
      rw [← h.exclusive, Bool.eq_false_iff.mpr hw]
      rfl
    exact ⟨⟨h.shared ▸ hshared.symm, h.exclusive.trans hexcl.symm, fun hw' => absurd hw' hw⟩, List.count_eq_zero.mp hnone⟩

theorem upRead (hi : holds[i]? = some .shared) : Guards l.upRead (holds.set i .none) := by
  have hshared := count_set hi .none .shared
  have hexcl := count_set hi .none .exclusive
  simp only [reduceCtorEq, if_false, if_true, Nat.add_zero] at hshared hexcl
  refine ⟨?_, h.exclusive.trans hexcl.symm, fun hw => ?_⟩
  · have := h.shared
    change l.readers - 1 = _
    omega
  · change l.readers - 1 = 0
    rw [h.apart hw]

theorem downWrite (hi : holds[i]? = some .none) (hl : l.downWrite = some l') :
    Guards l' (holds.set i .exclusive) ∧ .exclusive ∉ holds := by
  unfold Sem.downWrite at hl
  split at hl
  · cases hl
  next hfree =>
    cases hl
    rw [not_or, Decidable.not_not] at hfree
    obtain ⟨hw, hr⟩ := hfree
    have hshared := count_set hi .exclusive .shared
    have hexcl := count_set hi .exclusive .exclusive
    simp only [reduceCtorEq, if_false, if_true, Nat.add_zero] at hshared hexcl
    have hnone : holds.count .exclusive = 0 := by
      rw [← h.exclusive, Bool.eq_false_iff.mpr hw]
      rfl
    refine ⟨⟨h.shared.trans hshared.symm, ?_, fun _ => hr⟩, List.count_eq_zero.mp hnone⟩
    rw [hexcl, hnone]
    rfl

theorem upWrite (hi : holds[i]? = some .exclusive) : Guards l.upWrite (holds.set i .none) := by
  have hshared := count_set hi .none .shared
  have hexcl := count_set hi .none .exclusive
  simp only [reduceCtorEq, if_false, if_true, Nat.add_zero] at hshared hexcl
  refine ⟨h.shared.trans hshared.symm, ?_, nofun⟩
  have := h.exclusive
  have := l.writer.toNat_le
  change 0 = _
  omega

theorem downgradeWrite (hi : holds[i]? = some .exclusive) : Guards l.downgradeWrite (holds.set i .shared) := by
  have hshared := count_set hi .shared .shared
  have hexcl := count_set hi .shared .exclusive
  simp only [reduceCtorEq, if_false, if_true, Nat.add_zero] at hshared hexcl
  refine ⟨?_, ?_, nofun⟩
  · rw [hshared, ← h.shared]
    rfl
  · have := h.exclusive
    have := l.writer.toNat_le
    change 0 = _
    omega

end

end Guards

end RwSem
