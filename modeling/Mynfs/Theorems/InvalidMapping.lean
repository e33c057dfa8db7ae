import Mynfs.Inode.Invalidate

/-! Pages out of date are marked or about to be removed, until an invalidation fails. -/

namespace Mynfs.DataCache
variable {isReg : Bool} {s t : DataCache} {e : DataEvent}

/-- No page known to be out of date is forgotten. -/
def Remembered (s : DataCache) : Prop := 0 < s.stale → s.invalidData ∨ s.invalidating.isSome

/-- The invalidation leaves no such page, or the flag was set again meanwhile. -/
def Settles (isReg : Bool) (s : DataCache) : DataEvent → Prop
  | .finish _ sync inval left =>
    s.stale = 0 ∨ s.invalidData ∨ (isReg → 0 ≤ sync) ∧ (0 ≤ inval ∨ left = 0)
  | _ => True

section
variable {left : Nat} {sync inval : Int}

theorem invalidateMapping_invalidData : (s.nfsInvalidateMapping isReg sync inval left).1.invalidData = s.invalidData := by
  unfold nfsInvalidateMapping
  split
  · rfl
  · split
    · rfl
    · split <;> rfl

theorem invalidateMapping_stale : (s.nfsInvalidateMapping isReg sync inval left).1.stale = 0 ↔
    s.stale = 0 ∨ (isReg → 0 ≤ sync) ∧ (0 ≤ inval ∨ left = 0) := by
  unfold nfsInvalidateMapping nrpages
  split
  · simp
    omega
  split
  next hsync =>
    simp only [hsync.1, forall_const]
    omega
  next hsync =>
    have hok : isReg → 0 ≤ sync := fun hr => Int.not_lt.mp fun hlt => hsync ⟨hr, hlt⟩
    rw [and_iff_right hok]
    split
    · show min left s.stale = 0 ↔ _
      omega
    · show (0 : Nat) = 0 ↔ _
      omega

theorem finish_remembered_iff {i : Nat} (ht : step isReg s (.finish i sync inval left) = some t) :
    t.Remembered ↔ Settles isReg s (.finish i sync inval left) := by
  obtain ⟨-, rfl⟩ := Machine.of_guard_some ht
  simp only [Remembered, Settles, leave, invalidateMapping_invalidData, Nat.pos_iff_ne_zero, Option.isSome_none,
    Bool.false_eq_true, or_false, ne_eq, invalidateMapping_stale]
  tauto

end

theorem step_remembered_iff (h : s.Remembered) (ht : step isReg s e = some t) : t.Remembered ↔ Settles isReg s e := by
  cases e with
  | finish i sync inval left => exact finish_remembered_iff ht
  | readPage =>
    cases ht
    exact iff_of_true h trivial
  | reclaimPage stale =>
    cases ht
    refine iff_of_true ?_ trivial
    cases stale
    · exact h
    · exact fun hpos => h (Nat.lt_of_lt_of_le hpos (Nat.sub_le ..))
  | setCacheInvalid data =>
    cases ht
    refine iff_of_true (fun hpos => ?_) trivial
    cases data
    · have hpages : s.nrpages ≠ 0 := Nat.ne_of_gt (Nat.add_pos_left hpos _)
      simpa [hpages] using h hpos
    · have hpages : s.nrpages ≠ 0 := Nat.ne_of_gt hpos
      simp [hpages]
  | call i =>
    cases ht
    exact iff_of_true h trivial
  | killed i err =>
    obtain ⟨-, rfl⟩ := Machine.of_guard_some ht
    exact iff_of_true h trivial
  | look i =>
    obtain ⟨-, ht⟩ := Machine.of_guard ht
    split at ht <;> cases ht
    · exact iff_of_true (fun _ => .inr rfl) trivial
    · exact iff_of_true h trivial

/-- Nothing is forgotten in a run exactly if each invalidation succeeds, or is asked for again before it ends. -/
theorem clear_invalid_mapping_remembers (isReg : Bool) (es : List DataEvent) (u : DataCache)
    (h : Machine.exec (step isReg) {} es = some u) :
    Machine.Always (step isReg) Remembered {} es ↔ Machine.Along (step isReg) (Settles isReg) {} es :=
  Machine.always_iff_along (I := fun _ => True) (fun _ _ _ _ hs ht => ⟨trivial, step_remembered_iff hs ht⟩) trivial
    (fun hpos => absurd hpos (Nat.lt_irrefl 0)) h

theorem clear_invalid_mapping_remembers_read :
    Machine.Always (step true) Remembered {} [.readPage, .setCacheInvalid true, .call 0, .look 0, .finish 0 0 0 0] := by
  refine (clear_invalid_mapping_remembers true _ _ rfl).mpr ?_
  simp [Machine.Along, Settles]

/-- The pages could not be written back: the call returns the error, and a later one finds nothing to do. -/
theorem clear_invalid_mapping_forgets : ∃ u, Machine.exec (step true) {}
      [.readPage, .setCacheInvalid true, .call 0, .look 0, .finish 0 (-5) 0 0, .call 1, .look 1] = some u ∧
    u.rets = [(0, -5), (1, 0)] ∧ u.stale = 1 ∧ u.invalidData = false ∧ ¬ u.Remembered :=
  ⟨_, rfl, rfl, rfl, rfl, fun h => absurd (h Nat.one_pos) (by decide)⟩

end Mynfs.DataCache
