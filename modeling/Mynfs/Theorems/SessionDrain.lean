import Mynfs.Theorems.ForeSlots

/-! The drain is a barrier: from the check under the lock on, every way to a slot sees the bit. -/

namespace Mynfs

open SlotTable List Option Machine

variable {tbl : SlotTable}

theorem SlotTable.freeSlot_drain (he : tbl.Exact) (slotid : U32) : (tbl.nfs4FreeSlot slotid).draining = tbl.draining ∧
    ((tbl.nfs4FreeSlot slotid).complete → tbl.complete ∨ (tbl.nfs4FreeSlot slotid).usedSlots = ∅) := by
  rw [← (he.nfs4FreeSlot slotid).none_iff]
  unfold SlotTable.nfs4FreeSlot nfs4SlotTblDrainComplete
  dsimp only
  split_ifs
  · exact ⟨rfl, .inl⟩
  · exact ⟨rfl, fun _ => .inr rfl⟩
  · exact ⟨rfl, .inl⟩
  · exact ⟨rfl, .inl⟩

theorem SlotTable.allocSlot_drain (hw : tbl.WellFormed) (mem : Nat) :
    (tbl.nfs4AllocSlot mem).1.draining = tbl.draining ∧ (tbl.nfs4AllocSlot mem).1.complete = tbl.complete := by
  obtain ⟨m, -, ⟨e, heq⟩ | ⟨slotid, -, -, -, heq⟩⟩ := allocSlot_cases hw.numbered hw.limited.bitmap mem <;>
    rw [heq] <;> exact ⟨rfl, rfl⟩

namespace ForeChannel
variable {s t : ForeChannel}

theorem Held.owned_eq_nil (h : Held s) (hnone : s.tbl.usedSlots = ∅) : s.owned = [] := by
  refine eq_nil_iff_forall_not_mem.mpr fun owner howner => ?_
  have hmem := h.heldIn.used owner.2 (mem_append_left _ (mem_map_of_mem howner))
  rw [hnone] at hmem
  exact absurd hmem (Finset.notMem_empty _)

/-- While the manager waits, every way to a slot sees the bit, and only privileged tasks have slots. -/
structure Guarded (s : ForeChannel) : Prop where
  held : s.Held
  bit : s.manager = .draining ∨ s.manager = .waiting ∨ s.drained → s.tbl.draining
  entry : s.manager = .waiting ∨ s.drained →
    ∀ task, s.locked = some (.setupSequence task) → task.saPrivileged
  barrier : (s.manager = .waiting ∧ s.tbl.complete) ∨ s.drained →
    ∀ owner ∈ s.owned, owner.1.saPrivileged

namespace Guarded

section
variable (h : Guarded s) {task : SeqTask} {i : Nat} {slotid : U32}
include h

/-- A step that is not the manager's: what it gives a slot to, or sends on its way to one, has seen the bit. -/
theorem keep (hheld : t.Held) (hdrain : t.tbl.draining = s.tbl.draining)
    (hcmp : t.tbl.complete = s.tbl.complete) (hman : t.manager = s.manager) (hdrained : t.drained = s.drained)
    (howned : ∀ owner ∈ t.owned, owner ∈ s.owned ∨ (s.manager = .waiting ∨ s.drained → owner.1.saPrivileged))
    (hentry : ∀ task, t.locked = some (.setupSequence task) → s.tbl.draining → task.saPrivileged) : Guarded t := by
  refine ⟨hheld, ?_, ?_, ?_⟩
  · rw [hman, hdrained, hdrain]
    exact h.bit
  · rw [hman, hdrained]
    intro hclosed task hlocked
    exact hentry task hlocked (h.bit (.inr hclosed))
  · rw [hman, hdrained, hcmp]
    intro hclosed owner howner
    rcases howned owner howner with hbefore | hnew
    · exact h.barrier hclosed owner hbefore
    · exact hnew (hclosed.imp_left And.left)

theorem same (hheld : t.Held) (hsame : SameUse s.tbl t.tbl) (hman : t.manager = s.manager)
    (hdrained : t.drained = s.drained) (howned : t.owned = s.owned)
    (hentry : ∀ task, t.locked = some (.setupSequence task) → s.tbl.draining → task.saPrivileged) : Guarded t :=
  h.keep hheld hsame.draining_eq hsame.complete_eq hman hdrained (howned ▸ fun _ => .inl) hentry

theorem setupSequence (hlocked : s.locked = none) (task : SeqTask) (hheld : (s.setupSequence task).Held) :
    Guarded (s.setupSequence task) := by
  unfold ForeChannel.setupSequence at hheld ⊢
  split_ifs at hheld ⊢ with _ hpass
  · exact h
  · exact h.same hheld (SameUse.refl _) rfl rfl rfl (by rw [hlocked]; nofun)
  · refine h.same hheld (SameUse.refl _) rfl rfl rfl fun other hother hbit => ?_
    cases some.inj hother
    simpa [hbit] using hpass

theorem allocSlot (hlocked : s.locked = some (.setupSequence task)) (mem : Nat)
    (hheld : (s.allocSlot mem task).Held) : Guarded (s.allocSlot mem task) := by
  obtain ⟨hdrain, hcmp⟩ := allocSlot_drain h.held.wellFormed mem
  unfold ForeChannel.allocSlot at hheld ⊢
  dsimp only at hheld ⊢
  generalize s.tbl.nfs4AllocSlot mem = result at hheld hdrain hcmp ⊢
  obtain ⟨tbl, e | slotid⟩ := result
  · exact h.keep hheld hdrain hcmp rfl rfl (fun _ => .inl) nofun
  · refine h.keep hheld hdrain hcmp rfl rfl (fun owner howner => ?_) nofun
    refine (mem_append.mp howner).imp_right fun hnew hclosed => ?_
    rw [mem_singleton.mp hnew]
    exact h.entry hclosed task hlocked

theorem tryWakeNext (mem : Nat) (hheld : (s.tryWakeNext mem).Held) : Guarded (s.tryWakeNext mem) := by
  obtain ⟨hdrain, hcmp⟩ := allocSlot_drain h.held.wellFormed mem
  unfold ForeChannel.tryWakeNext at hheld ⊢
  generalize s.tbl.nfs4AllocSlot mem = result at hheld hdrain hcmp ⊢
  obtain ⟨tbl, e | slotid⟩ := result <;> exact h.keep hheld hdrain hcmp rfl rfl (fun _ => .inl) nofun

theorem nfs41ReleaseSlot (hheld : (s.nfs41ReleaseSlot i slotid).Held) : Guarded (s.nfs41ReleaseSlot i slotid) := by
  refine h.keep hheld rfl rfl rfl rfl (fun _ howner => .inl (mem_of_mem_eraseIdx howner)) fun task htask => ?_
  unfold ForeChannel.nfs41ReleaseSlot at htask
  split at htask <;> cases htask

theorem nfs41AssignSlot {table : Bool}
    (hheld : (s.nfs41AssignSlot i task slotid table).Held) : Guarded (s.nfs41AssignSlot i task slotid table) := by
  unfold ForeChannel.nfs41AssignSlot at hheld ⊢
  by_cases hpass : (s.tbl.draining && !task.saPrivileged)
  · rw [if_pos hpass] at hheld ⊢
    exact h.same hheld (SameUse.refl _) rfl rfl rfl nofun
  · rw [if_neg hpass] at hheld ⊢
    refine h.keep hheld rfl rfl rfl rfl (fun owner howner => ?_) (by cases table <;> nofun)
    refine (mem_append.mp howner).imp_right fun hnew hclosed => ?_
    rw [mem_singleton.mp hnew]
    simpa [h.bit (.inr hclosed)] using hpass

theorem freeSlot (hheld : ({ s with tbl := s.tbl.nfs4FreeSlot slotid, locked := none } : ForeChannel).Held) :
    Guarded { s with tbl := s.tbl.nfs4FreeSlot slotid, locked := none } := by
  obtain ⟨hdrain, hcmp⟩ := freeSlot_drain h.held.wellFormed.exact slotid
  refine ⟨hheld, ?_, nofun, ?_⟩
  · rw [hdrain]
    exact h.bit
  · rintro (⟨hwaiting, hdone⟩ | hdrained)
    · rcases hcmp hdone with hdone | hempty
      · exact h.barrier (.inl ⟨hwaiting, hdone⟩)
      · rw [hheld.owned_eq_nil hempty]
        nofun
    · exact h.barrier (.inr hdrained)

theorem step {e : DrainEvent} (hs : s.step e = some t) : Guarded t := by
  have hheld := h.held.moves (moves_of_step h.held.wellFormed hs)
  cases e with
  | setupSequence task =>
    obtain ⟨hguard, rfl⟩ := of_guard_some hs
    exact h.setupSequence (isNone_iff_eq_none.mp hguard.1) task hheld
  | allocSlot mem =>
    simp only [ForeChannel.step] at hs
    split at hs
    next task hlocked =>
      cases hs
      exact h.allocSlot hlocked mem hheld
    · cases hs
  | releaseSlot i =>
    simp only [ForeChannel.step] at hs
    split at hs
    · obtain ⟨-, rfl⟩ := of_guard_some hs
      exact h.nfs41ReleaseSlot hheld
    · cases hs
  | wakeUpFirst i =>
    simp only [ForeChannel.step] at hs
    split at hs
    · split at hs
      · cases hs
        exact h.nfs41AssignSlot hheld
      · obtain ⟨-, rfl⟩ := of_guard_some hs
        exact h.same hheld (SameUse.refl _) rfl rfl rfl (by simp)
    · cases hs
  | freeSlot =>
    simp only [ForeChannel.step] at hs
    split at hs
    · cases hs
      exact h.freeSlot hheld
    · cases hs
  | tryWakeNext mem =>
    obtain ⟨-, rfl⟩ := of_guard_some hs
    exact h.tryWakeNext mem hheld
  | leaveWaitq i =>
    cases hs
    exact ⟨hheld, h.bit, h.entry, h.barrier⟩
  | setTargetSlotid target =>
    obtain ⟨-, rfl⟩ := of_guard_some hs
    exact h.same hheld ((setTargetSlotidLocked_sameUse _ _).trans (setMaxSlotidLocked_sameUse _ _)) rfl rfl rfl (by rintro _ ⟨⟩)
  | updateTargetSlotid i highest target =>
    simp only [ForeChannel.step] at hs
    split at hs
    next slot _ =>
      obtain ⟨-, rfl⟩ := of_guard_some hs
      exact h.same hheld (s.updateTargetSlotid_sameUse slot.generation highest target) rfl rfl rfl (by rintro _ ⟨⟩)
    · cases hs
  | sessionRecover =>
    cases hs
    exact ⟨hheld, fun _ => rfl, h.entry, h.barrier⟩
  | drainSlotTbl =>
    obtain ⟨-, rfl⟩ := of_guard_some hs
    refine ⟨hheld, fun _ => rfl, fun hclosed => h.entry (.inr ?_), fun hclosed => h.barrier (.inr ?_)⟩ <;>
      simpa using hclosed
  | checkHighestUsed =>
    obtain ⟨⟨hman, hlocked⟩, hs⟩ := of_guard hs
    have hbit := h.bit (.inl hman)
    have hentry : ∀ task, s.locked = some (.setupSequence task) → task.saPrivileged := by
      rw [isNone_iff_eq_none.mp hlocked]
      simp
    split at hs
    · cases hs
      exact ⟨hheld, fun _ => hbit, fun _ => hentry, fun hclosed => h.barrier (.inr (by simpa using hclosed))⟩
    next hnone =>
      cases hs
      refine ⟨hheld, fun _ => hbit, fun _ => hentry, fun _ => ?_⟩
      rw [hheld.owned_eq_nil (h.held.wellFormed.exact.none_iff.mp (not_not.mp hnone))]
      simp
  | endWait interrupted =>
    obtain ⟨hman, hs⟩ := of_guard hs
    split at hs
    · cases hs
      refine ⟨hheld, fun hclosed => h.bit (.inr (.inr ?_)), fun hclosed => h.entry (.inr ?_),
        fun hclosed => h.barrier (.inr ?_)⟩ <;> simpa using hclosed
    · obtain ⟨hdone, rfl⟩ := of_guard_some hs
      exact ⟨hheld, fun _ => h.bit (.inr (.inl hman)), fun _ => h.entry (.inl hman), fun _ => h.barrier (.inl ⟨hman, hdone⟩)⟩
  | endDrainSlotTable =>
    obtain ⟨-, hs⟩ := of_guard hs
    split at hs
    · cases hs
      exact ⟨hheld, by simp, by simp, by simp⟩
    · cases hs
      exact h
  | endDrainWake =>
    obtain ⟨-, rfl⟩ := of_guard_some hs
    refine ⟨hheld, fun hclosed => h.bit (.inr (.inr ?_)), by simp, fun hclosed => h.barrier (.inr ?_)⟩ <;> simpa using hclosed

end

theorem init (mem : Nat) {maxReqs : U32} (hreqs : maxReqs ≠ 0) : Guarded (ForeChannel.init mem maxReqs) :=
  ⟨ForeSession.held_init mem hreqs, by simp [ForeChannel.init], nofun, nofun⟩

end Guarded

/-- Once `nfs4_drain_slot_tbl` has returned 0, and until the bit is cleared, only privileged tasks have slots. -/
theorem privileged_of_drained (mem : Nat) (maxReqs : U32) (hreqs : maxReqs ≠ 0) (evs : List DrainEvent) (s : ForeChannel)
    (hrun : exec step (init mem maxReqs) evs = some s) (hdrained : s.drained) :
    s.tbl.draining ∧ ∀ owner ∈ s.owned, owner.1.saPrivileged := by
  have hguarded := exec_invariant (fun s e t (h : Guarded s) hs => h.step hs) (Guarded.init mem hreqs) hrun
  exact ⟨hguarded.bit (.inr (.inr hdrained)), hguarded.barrier (.inr hdrained)⟩

def drainRun : List DrainEvent :=
  [.setupSequence ⟨1, false⟩, .allocSlot 0, .drainSlotTbl, .checkHighestUsed, .setupSequence ⟨2, false⟩,
    .setupSequence ⟨3, true⟩, .allocSlot 0, .releaseSlot 0, .wakeUpFirst 1, .setTargetSlotid 0, .tryWakeNext 0,
    .releaseSlot 0, .wakeUpFirst 0, .freeSlot, .setupSequence ⟨4, true⟩, .allocSlot 0, .endWait false]

theorem privileged_of_drained_run : ∃ s, exec step (init 1 1) drainRun = some s ∧ s.drained ∧
    s.owned = [(⟨4, true⟩, 0)] ∧ s.waitq = [⟨2, false⟩] ∧ ∀ owner ∈ s.owned, owner.1.saPrivileged := by
  refine exists_exec (P := fun s => s.drained ∧ s.owned = [(⟨4, true⟩, 0)] ∧ s.waitq = [⟨2, false⟩]) (by decide) fun s hrun h => ?_
  exact ⟨h.1, h.2.1, h.2.2, (privileged_of_drained 1 1 (by decide) drainRun s hrun h.1).2⟩

/-- No two tasks have one slot. A task's slot exists and has its bit, and outside locked sections no other has. -/
theorem slot_has_one_owner (mem : Nat) (maxReqs : U32) (hreqs : maxReqs ≠ 0) (evs : List DrainEvent) (s : ForeChannel)
    (hrun : exec step (init mem maxReqs) evs = some s) : (s.owned.map Prod.snd).Nodup ∧
    (∀ owner ∈ s.owned, owner.2.toNat ∈ s.tbl.usedSlots ∧ ∃ slot, s.tbl.slots[owner.2.toNat]? = some slot) ∧
    (s.locked = none → ∀ n ∈ s.tbl.usedSlots, ∃ owner ∈ s.owned, owner.2.toNat = n) := by
  have h : s.Held := exec_invariant (fun _ _ _ hi hs => Held.moves hi (moves_of_step hi.wellFormed hs))
    (ForeSession.held_init mem hreqs) hrun
  refine ⟨(nodup_append.mp h.heldIn.nodup).1, fun owner howner => ⟨?_, h.slot_of_owned howner⟩, fun hlocked n hn => ?_⟩
  · exact h.heldIn.used owner.2 (mem_append_left _ (mem_map_of_mem howner))
  · obtain ⟨slotid, hslotid, heq⟩ := h.used n hn
    rw [held, hlocked, Locked.slots, append_nil] at hslotid
    obtain ⟨owner, howner, rfl⟩ := mem_map.mp hslotid
    exact ⟨owner, howner, heq⟩

theorem slot_has_one_owner_run : ∃ s, exec step (init 1 1) drainRun = some s ∧
    ∀ n ∈ s.tbl.usedSlots, ∃ owner ∈ s.owned, owner.2.toNat = n := by
  refine exists_exec (P := fun s => s.locked = none) (by decide) fun s hrun hlocked => ?_
  exact (slot_has_one_owner 1 1 (by decide) drainRun s hrun).2.2 hlocked

end ForeChannel

end Mynfs
