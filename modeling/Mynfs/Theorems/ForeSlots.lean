import Mynfs.Session.Fore
import Mynfs.Theorems.SlotTable

/-! Slots of the fore channel. `Moves` is what a step does to the table, to the tasks with slots and to the slot handed
    over. -/

namespace Mynfs

open List Option Finset Machine

/-! ### Who holds which slot -/

def Locked.slots : Option Locked → List U32
  | some (.wakeAndAssign slotid _) | some (.freeSlot slotid) => [slotid]
  | some (.setupSequence _) | some .wakeSlotTable | none => []

/-- Slots held by one task each, with their bits set. -/
structure HeldIn (held : List U32) (used : Finset Nat) : Prop where
  nodup : held.Nodup
  used : ∀ slotid ∈ held, slotid.toNat ∈ used

namespace HeldIn
variable {held held' : List U32} {used : Finset Nat} {slotid : U32}

theorem perm (h : HeldIn held used) (hperm : held.Perm held') : HeldIn held' used :=
  ⟨hperm.nodup_iff.mp h.nodup, fun slotid hmem => h.used slotid (hperm.mem_iff.mpr hmem)⟩

theorem take (h : HeldIn held used) (hfree : slotid.toNat ∉ used) : HeldIn (held ++ [slotid]) (insert slotid.toNat used) := by
  refine ⟨?_, fun other hother => ?_⟩
  · refine nodup_append.mpr ⟨h.nodup, nodup_singleton slotid, fun other hother last hlast heq => ?_⟩
    obtain rfl := List.mem_singleton.mp hlast
    exact hfree (heq ▸ h.used other hother)
  · rcases mem_append.mp hother with hother | hother
    · exact mem_insert_of_mem (h.used other hother)
    · rw [List.mem_singleton.mp hother]
      exact mem_insert_self _ _

theorem free (h : HeldIn (held ++ [slotid]) used) : HeldIn held (used.erase slotid.toNat) := by
  obtain ⟨hnodup, -, hdisjoint⟩ := nodup_append.mp h.nodup
  refine ⟨hnodup, fun other hother => mem_erase.mpr ⟨fun heq => ?_, ?_⟩⟩
  · exact hdisjoint other hother slotid (List.mem_singleton_self slotid) (BitVec.toNat_inj.mp heq)
  · exact h.used other (mem_append_left _ hother)

end HeldIn

open SlotTable

namespace ForeChannel
variable {s t : ForeChannel} {e : DrainEvent} {task : SeqTask}

def held (s : ForeChannel) : List U32 := s.owned.map (·.2) ++ Locked.slots s.locked

/-! ### What a step can do -/

/-- What a step does to the slots. -/
inductive Moves (s : ForeChannel) (e : DrainEvent) (t : ForeChannel) : Prop
  | idle (draining complete : Bool) (htbl : t.tbl = { s.tbl with draining := draining, complete := complete })
      (howned : t.owned = s.owned) (hslots : Locked.slots t.locked = Locked.slots s.locked)
  | grown (m : Nat) (hle : s.tbl.maxSlots.toNat + m ≤ 1024) (htbl : t.tbl = s.tbl.extend m 1)
      (howned : t.owned = s.owned) (hslots : Locked.slots t.locked = Locked.slots s.locked)
  | taken (m : Nat) (slotid : U32) (hle : s.tbl.maxSlots.toNat + m ≤ 1024) (hfree : slotid.toNat ∉ s.tbl.usedSlots)
      (hlt : slotid.toNat < s.tbl.maxSlots.toNat + m)
      (htbl : t.tbl = (s.tbl.extend m 1).nfs4LockSlot slotid.toNat slotid) (howned : t.owned = s.owned)
      (hbefore : Locked.slots s.locked = []) (hslots : Locked.slots t.locked = [slotid])
  | given (m : Nat) (slotid : U32) (task : SeqTask) (hle : s.tbl.maxSlots.toNat + m ≤ 1024)
      (hfree : slotid.toNat ∉ s.tbl.usedSlots) (hlt : slotid.toNat < s.tbl.maxSlots.toNat + m)
      (htbl : t.tbl = ((s.tbl.extend m 1).nfs4LockSlot slotid.toNat slotid).modifySlot slotid.toNat fun slot =>
        { slot with privileged := task.saPrivileged })
      (howned : t.owned = s.owned ++ [(task, slotid)])
      (hbefore : Locked.slots s.locked = []) (hslots : Locked.slots t.locked = [])
  | released (i : Nat) (owner : SeqTask × U32) (hget : s.owned[i]? = some owner)
      (htbl : t.tbl = s.tbl.modifySlot owner.2.toNat fun slot =>
        { slot with seqNr := if slot.seqDone then slot.seqNr + 1 else slot.seqNr, seqDone := false })
      (howned : t.owned = s.owned.eraseIdx i)
      (hbefore : Locked.slots s.locked = []) (hslots : Locked.slots t.locked = [owner.2])
  | assigned (i : Nat) (slotid : U32) (table : Bool) (task : SeqTask) (he : e = .wakeUpFirst i)
      (hlocked : s.locked = some (.wakeAndAssign slotid table)) (htask : s.waitq[i]? = some task)
      (hpass : s.tbl.draining = false ∨ task.saPrivileged)
      (htbl : t.tbl = s.tbl.assignSlot slotid) (howned : t.owned = s.owned ++ [(task, slotid)])
      (hslots : Locked.slots t.locked = [])
  | freed (slotid : U32) (htbl : t.tbl = s.tbl.nfs4FreeSlot slotid) (howned : t.owned = s.owned)
      (hbefore : Locked.slots s.locked = [slotid]) (hslots : Locked.slots t.locked = [])
  | retargeted (target : U32) (htbl : t.tbl = (s.nfs41SetTargetSlotid target).tbl) (howned : t.owned = s.owned)
      (hslots : Locked.slots t.locked = Locked.slots s.locked)
  | updated (generation : Nat) (highest target : U32)
      (htbl : t.tbl = (s.nfs41UpdateTargetSlotid generation highest target).tbl) (howned : t.owned = s.owned)
      (hslots : Locked.slots t.locked = Locked.slots s.locked)

theorem moves_idle_of_eq (htbl : t.tbl = s.tbl) (howned : t.owned = s.owned)
    (hslots : Locked.slots t.locked = Locked.slots s.locked) : Moves s e t :=
  .idle s.tbl.draining s.tbl.complete htbl howned hslots

theorem moves_allocSlot (hw : s.tbl.WellFormed) (hlocked : s.locked = some (.setupSequence task)) (mem : Nat) :
    Moves s e (s.allocSlot mem task) := by
  obtain ⟨m, hle, ⟨error, heq⟩ | ⟨slotid, -, hfree, hlt, heq⟩⟩ := allocSlot_cases hw.numbered hw.limited.bitmap mem
  · refine .grown m hle ?_ ?_ ?_ <;> unfold ForeChannel.allocSlot <;> dsimp only <;> rw [heq]
    rw [hlocked]
    rfl
  · refine .given m slotid task hle hfree hlt ?_ ?_ (by rw [hlocked]; rfl) ?_ <;> unfold ForeChannel.allocSlot <;> dsimp only <;>
      rw [heq] <;> rfl

theorem moves_tryWakeNext (hw : s.tbl.WellFormed) (hlocked : s.locked = some .wakeSlotTable) (mem : Nat) :
    Moves s e (s.tryWakeNext mem) := by
  obtain ⟨m, hle, ⟨error, heq⟩ | ⟨slotid, -, hfree, hlt, heq⟩⟩ := allocSlot_cases hw.numbered hw.limited.bitmap mem
  · refine .grown m hle ?_ ?_ ?_ <;> unfold ForeChannel.tryWakeNext <;> rw [heq]
    rw [hlocked]
    rfl
  · refine .taken m slotid hle hfree hlt ?_ ?_ (by rw [hlocked]; rfl) ?_ <;> unfold ForeChannel.tryWakeNext <;> rw [heq]
    rfl

theorem moves_wakeUpFirst {i : Nat} {slotid : U32} {table : Bool}
    (hlocked : s.locked = some (.wakeAndAssign slotid table)) (htask : s.waitq[i]? = some task) :
    Moves s (.wakeUpFirst i) (s.nfs41AssignSlot i task slotid table) := by
  unfold ForeChannel.nfs41AssignSlot
  split
  · exact moves_idle_of_eq rfl rfl (by rw [hlocked]; rfl)
  next hpass =>
    refine .assigned i slotid table task rfl hlocked htask ?_ rfl rfl ?_
    · cases hdrain : s.tbl.draining with
      | false => exact .inl rfl
      | true => exact .inr (by simpa [hdrain] using hpass)
    · cases table <;> rfl

/-- A step takes, passes on or frees one slot, or none. -/
theorem moves_of_step (hw : s.tbl.WellFormed) (hs : s.step e = some t) : Moves s e t := by
  cases e with
  | setupSequence task =>
    obtain ⟨hguard, rfl⟩ := of_guard_some hs
    have hlocked := isNone_iff_eq_none.mp hguard.1
    unfold ForeChannel.setupSequence
    split_ifs
    · exact moves_idle_of_eq rfl rfl rfl
    · exact moves_idle_of_eq rfl rfl rfl
    · exact moves_idle_of_eq rfl rfl (by rw [hlocked]; rfl)
  | allocSlot mem =>
    simp only [ForeChannel.step] at hs
    split at hs
    next task hlocked =>
      cases hs
      exact moves_allocSlot hw hlocked mem
    · cases hs
  | releaseSlot i =>
    simp only [ForeChannel.step] at hs
    split at hs
    next task slotid hget =>
      obtain ⟨hlocked, rfl⟩ := of_guard_some hs
      refine .released i (task, slotid) hget rfl rfl (by rw [isNone_iff_eq_none.mp hlocked]; rfl) ?_
      unfold ForeChannel.nfs41ReleaseSlot
      split <;> rfl
    · cases hs
  | wakeUpFirst i =>
    simp only [ForeChannel.step] at hs
    split at hs
    next slotid table hlocked =>
      split at hs
      next task htask =>
        cases hs
        exact moves_wakeUpFirst hlocked htask
      · obtain ⟨-, rfl⟩ := of_guard_some hs
        exact moves_idle_of_eq rfl rfl (by rw [hlocked]; rfl)
    · cases hs
  | freeSlot =>
    simp only [ForeChannel.step] at hs
    split at hs
    next slotid hlocked =>
      cases hs
      exact .freed slotid rfl rfl (by rw [hlocked]; rfl) rfl
    · cases hs
  | tryWakeNext mem =>
    obtain ⟨hlocked, rfl⟩ := of_guard_some hs
    exact moves_tryWakeNext hw hlocked mem
  | leaveWaitq i =>
    cases hs
    exact moves_idle_of_eq rfl rfl rfl
  | setTargetSlotid target =>
    obtain ⟨hlocked, rfl⟩ := of_guard_some hs
    exact .retargeted target rfl rfl (by rw [isNone_iff_eq_none.mp hlocked]; rfl)
  | updateTargetSlotid i highest target =>
    simp only [ForeChannel.step] at hs
    split at hs
    next slot _ =>
      obtain ⟨hlocked, rfl⟩ := of_guard_some hs
      exact .updated slot.generation highest target rfl rfl (by rw [isNone_iff_eq_none.mp hlocked]; rfl)
    · cases hs
  | sessionRecover =>
    cases hs
    exact .idle true s.tbl.complete rfl rfl rfl
  | drainSlotTbl =>
    obtain ⟨-, rfl⟩ := of_guard_some hs
    exact .idle true s.tbl.complete rfl rfl rfl
  | checkHighestUsed =>
    obtain ⟨-, hs⟩ := of_guard hs
    split at hs
    · cases hs
      exact .idle s.tbl.draining false rfl rfl rfl
    · cases hs
      exact moves_idle_of_eq rfl rfl rfl
  | endWait interrupted =>
    obtain ⟨-, hs⟩ := of_guard hs
    split at hs
    · cases hs
      exact moves_idle_of_eq rfl rfl rfl
    · obtain ⟨-, rfl⟩ := of_guard_some hs
      exact moves_idle_of_eq rfl rfl rfl
  | endDrainSlotTable =>
    obtain ⟨-, hs⟩ := of_guard hs
    split at hs
    · cases hs
      exact .idle false s.tbl.complete rfl rfl rfl
    · cases hs
      exact moves_idle_of_eq rfl rfl rfl
  | endDrainWake =>
    obtain ⟨hguard, rfl⟩ := of_guard_some hs
    exact moves_idle_of_eq rfl rfl (by rw [isNone_iff_eq_none.mp hguard.2]; rfl)

/-! ### Holders -/

/-- The table is well formed, and the slots in use are exactly those of the tasks and the one on its way. -/
structure Held (s : ForeChannel) : Prop where
  wellFormed : s.tbl.WellFormed
  heldIn : HeldIn s.held s.tbl.usedSlots
  used : ∀ n ∈ s.tbl.usedSlots, ∃ slotid ∈ s.held, slotid.toNat = n

theorem updateTargetSlotid_sameUse (s : ForeChannel) (generation : Nat) (highest target : U32) :
    SameUse s.tbl (s.nfs41UpdateTargetSlotid generation highest target).tbl := by
  refine SameUse.trans ?_ (setMaxSlotidLocked_sameUse _ _)
  have htarget := SameUse.ite (c := (s.nfs41IsOutlierTargetSlotid (minU32 target (nfs4MaxSlotTable - 1))).2) (SameUse.refl s.tbl)
    (setTargetSlotidLocked_sameUse s.tbl (minU32 target (nfs4MaxSlotTable - 1)))
  exact SameUse.ite (htarget.trans (setServerSlotidLocked_sameUse _ _)) htarget

namespace Held

theorem same (h : Held s) (hw : t.tbl.WellFormed) (hused : t.tbl.usedSlots = s.tbl.usedSlots) (howned : t.owned = s.owned)
    (hslots : Locked.slots t.locked = Locked.slots s.locked) : Held t := by
  have hheld : t.held = s.held := by rw [held, howned, hslots]; rfl
  refine ⟨hw, ?_, ?_⟩ <;> rw [hheld, hused]
  · exact h.heldIn
  · exact h.used

variable {slotid : U32}

variable (h : Held s)
include h

theorem take (hw : t.tbl.WellFormed) (hfree : slotid.toNat ∉ s.tbl.usedSlots)
    (hused : t.tbl.usedSlots = insert slotid.toNat s.tbl.usedSlots) (hheld : t.held.Perm (s.held ++ [slotid])) : Held t := by
  refine ⟨hw, ?_, fun n hn => ?_⟩
  · rw [hused]
    exact (h.heldIn.take hfree).perm hheld.symm
  · rw [hused] at hn
    rcases mem_insert.mp hn with rfl | hn
    · exact ⟨slotid, hheld.mem_iff.mpr (List.mem_append_right _ (List.mem_singleton_self slotid)), rfl⟩
    · obtain ⟨other, hother, heq⟩ := h.used n hn
      exact ⟨other, hheld.mem_iff.mpr (mem_append_left _ hother), heq⟩

theorem pass (hw : t.tbl.WellFormed) (hused : t.tbl.usedSlots = s.tbl.usedSlots) (hheld : t.held.Perm s.held) : Held t := by
  refine ⟨hw, hused ▸ h.heldIn.perm hheld.symm, fun n hn => ?_⟩
  obtain ⟨slotid, hslotid, heq⟩ := h.used n (hused ▸ hn)
  exact ⟨slotid, hheld.mem_iff.mpr hslotid, heq⟩

theorem free (htbl : t.tbl = s.tbl.nfs4FreeSlot slotid) (howned : t.owned = s.owned)
    (hbefore : Locked.slots s.locked = [slotid]) (hslots : Locked.slots t.locked = []) : Held t := by
  have hheld : s.held = t.held ++ [slotid] := by rw [held, held, howned, hbefore, hslots, append_nil]
  have hused : t.tbl.usedSlots = s.tbl.usedSlots.erase slotid.toNat := htbl ▸ (freeSlot_rest ..).1
  refine ⟨htbl ▸ h.wellFormed.nfs4FreeSlot slotid, ?_, fun n hn => ?_⟩
  · rw [hused]
    exact HeldIn.free (hheld ▸ h.heldIn)
  · rw [hused] at hn
    obtain ⟨hne, hn⟩ := mem_erase.mp hn
    obtain ⟨other, hother, heq⟩ := h.used n hn
    rw [hheld] at hother
    rcases mem_append.mp hother with hother | hother
    · exact ⟨other, hother, heq⟩
    · exact absurd (List.mem_singleton.mp hother ▸ heq.symm) hne

theorem moves (hm : Moves s e t) : Held t := by
  have hw := h.wellFormed
  have hmax : ∀ m, s.tbl.maxSlots.toNat + m ≤ 1024 → (s.tbl.extend m 1).maxSlots.toNat = s.tbl.maxSlots.toNat + m :=
    fun m hle => toNat_add_small (by omega)
  cases hm with
  | idle draining complete htbl howned hslots =>
    refine h.same ?_ (by rw [htbl]) howned hslots
    rw [htbl]
    exact ⟨hw.numbered.congr rfl rfl, hw.exact.congr rfl rfl hw.exact.lt, ⟨hw.limited.bitmap, hw.limited.server, hw.limited.target⟩⟩
  | grown m hle htbl howned hslots => exact h.same (htbl ▸ hw.extend hle) (by rw [htbl]; rfl) howned hslots
  | taken m slotid hle hfree hlt htbl howned hbefore hslots =>
    have hw' : t.tbl.WellFormed := htbl ▸ (hw.extend hle).nfs4LockSlot (hmax m hle ▸ hlt) _
    refine h.take hw' hfree (by rw [htbl]; rfl) ?_
    rw [held, held, howned, hbefore, hslots, append_nil]
  | given m slotid task hle hfree hlt htbl howned hbefore hslots =>
    have hlocked := (hw.extend hle).nfs4LockSlot (hmax m hle ▸ hlt) slotid.toNat
    have hw' : t.tbl.WellFormed := by
      rw [htbl]
      refine hlocked.modifySlot ?_
      exact fun _ _ => rfl
    refine h.take hw' hfree (by rw [htbl]; rfl) ?_
    rw [held, held, howned, hbefore, hslots, append_nil, append_nil, map_append]
    rfl
  | released i owner hget htbl howned hbefore hslots =>
    have hw' : t.tbl.WellFormed := by
      rw [htbl]
      refine hw.modifySlot ?_
      exact fun _ _ => rfl
    refine h.pass hw' (by rw [htbl]; rfl) ?_
    obtain ⟨hi, rfl⟩ := List.getElem?_eq_some_iff.mp hget
    have hsplit := (getElem_cons_eraseIdx_perm hi).map Prod.snd
    rw [held, held, howned, hbefore, hslots, append_nil]
    exact (perm_append_singleton _ _).trans hsplit
  | assigned i slotid table task he hlocked htask hpass htbl howned hslots =>
    refine h.pass (htbl ▸ hw.assignSlot slotid) (by rw [htbl]; rfl) ?_
    rw [held, held, howned, hlocked, hslots, append_nil, map_append]
    rfl
  | freed slotid htbl howned hbefore hslots => exact h.free htbl howned hbefore hslots
  | retargeted target htbl howned hslots =>
    refine h.same (htbl ▸ wellFormed_setTargetSlotid hw target) ?_ howned hslots
    rw [htbl]
    exact (setTargetSlotidLocked_sameUse s.tbl target).used_eq
  | updated generation highest target htbl howned hslots =>
    exact h.same (htbl ▸ wellFormed_updateTargetSlotid hw generation highest target)
      (htbl ▸ (s.updateTargetSlotid_sameUse generation highest target).used_eq) howned hslots

theorem slot_of_owned {owner : SeqTask × U32} (howner : owner ∈ s.owned) : ∃ slot, s.tbl.slots[owner.2.toNat]? = some slot := by
  have hused := h.heldIn.used owner.2 (mem_append_left _ (mem_map_of_mem howner))
  have hlt := h.wellFormed.exact.lt _ hused
  rw [← h.wellFormed.numbered.length] at hlt
  exact ⟨_, getElem?_eq_getElem hlt⟩

end Held

end ForeChannel

/-! ### Slots from one table to the next -/

/-- Every slot `n` of `tbl'` comes from the one with its number in `tbl`, in relation `Q n` to it, or is new. -/
def SlotTable.Carries (Q : Nat → Slot → Slot → Prop) (tbl tbl' : SlotTable) : Prop :=
  ∀ n slot', tbl'.slots[n]? = some slot' → (∃ slot, tbl.slots[n]? = some slot ∧ Q n slot slot') ∨
    tbl.slots.length ≤ n ∧ slot'.seqNr = 1 ∧ slot'.seqDone = false

namespace SlotTable
variable {Q : Nat → Slot → Slot → Prop} {tbl tbl' : SlotTable} {m i : Nat}

variable (hQ : ∀ n slot, Q n slot slot)
include hQ

theorem carries_of_take (k : Nat) (hslots : tbl'.slots = tbl.slots.take k) : Carries Q tbl tbl' := by
  intro n slot' hget
  rw [hslots, getElem?_take] at hget
  obtain ⟨-, hget⟩ := of_guard hget
  exact .inl ⟨slot', hget, hQ n slot'⟩

theorem carries_of_eq (hslots : tbl'.slots = tbl.slots) : Carries Q tbl tbl' :=
  fun n slot' hget => .inl ⟨slot', hslots ▸ hget, hQ n slot'⟩

theorem carries_extend (m : Nat) : Carries Q tbl (tbl.extend m 1) := by
  intro n slot' hget
  change (tbl.slots ++ _)[n]? = some slot' at hget
  rcases Nat.lt_or_ge n tbl.slots.length with hlt | hge
  · rw [getElem?_append_left hlt] at hget
    exact .inl ⟨slot', hget, hQ n slot'⟩
  · rw [getElem?_append_right hge, getElem?_map] at hget
    obtain ⟨k, -, rfl⟩ := map_eq_some_iff.mp hget
    exact .inr ⟨hge, rfl, rfl⟩

omit hQ

theorem Carries.modifySlot (h : Carries Q tbl tbl') {f : Slot → Slot} (hf : ∀ a b, Q i a b → Q i a (f b))
    (hnew : ∀ b, b.seqNr = 1 → b.seqDone = false → (f b).seqNr = 1 ∧ (f b).seqDone = false) :
    Carries Q tbl (tbl'.modifySlot i f) := by
  intro n slot' hget
  change (tbl'.slots.modify i f)[n]? = some slot' at hget
  rw [getElem?_modify] at hget
  obtain ⟨b, hb, rfl⟩ := map_eq_some_iff.mp hget
  split
  next hi =>
    subst hi
    rcases h i b hb with ⟨slot, hslot, hq⟩ | ⟨hge, hseq, hdone⟩
    · exact .inl ⟨slot, hslot, hf slot b hq⟩
    · exact .inr ⟨hge, hnew b hseq hdone⟩
  · exact h n b hb

end SlotTable

namespace ForeChannel
variable {s t : ForeChannel} {e : DrainEvent} {Q : Nat → Slot → Slot → Prop}

theorem slots_updateTargetSlotid (s : ForeChannel) (generation : Nat) (highest target : U32) :
    ∃ k, (s.nfs41UpdateTargetSlotid generation highest target).tbl.slots = s.tbl.slots.take k := by
  have hshrink : ∀ (tbl : SlotTable) (highest : U32), tbl.slots = s.tbl.slots →
      ∃ k, (tbl.nfs41SetServerSlotidLocked highest).slots = s.tbl.slots.take k := by
    intro tbl highest hslots
    unfold nfs41SetServerSlotidLocked nfs4ShrinkSlotTable
    split_ifs
    · exact ⟨s.tbl.slots.length, by rw [hslots, take_length]⟩
    · exact ⟨s.tbl.slots.length, by rw [← hslots, take_length]⟩
    · exact ⟨(highest + 1).toNat, by rw [← hslots]⟩
  have hset : ∀ tbl : SlotTable, tbl.slots = s.tbl.slots →
      ∃ k, ((if tbl.generation = generation then tbl.nfs41SetServerSlotidLocked (minU32 highest (nfs4MaxSlotTable - 1))
        else tbl).nfs41SetMaxSlotidLocked (minU32 target (nfs4MaxSlotTable - 1))).slots = s.tbl.slots.take k := by
    intro tbl hslots
    split
    · exact hshrink tbl _ hslots
    · exact ⟨s.tbl.slots.length, by rw [take_length]; exact hslots⟩
  unfold nfs41UpdateTargetSlotid
  dsimp only
  by_cases hout : (s.nfs41IsOutlierTargetSlotid (minU32 target (nfs4MaxSlotTable - 1))).2
  · rw [if_pos hout]
    exact hset _ rfl
  · rw [if_neg hout]
    exact hset _ (s.tbl.setTargetSlotidLocked_rest _).1

/-- What a step does to the slots, apart from setting their privilege, counting their numbers on and dating them. -/
theorem Moves.carries (hm : Moves s e t) (hQ : ∀ n slot, Q n slot slot)
    (hpriv : ∀ n, n ∉ s.tbl.usedSlots → ∀ a b x, Q n a b → Q n a { b with privileged := x })
    (hgeneration : ∀ n a b x, Q n a b → Q n a { b with generation := x })
    (hrelease : ∀ n a b, Q n a b → Q n a { b with seqNr := if b.seqDone then b.seqNr + 1 else b.seqNr, seqDone := false }) :
    Carries Q s.tbl t.tbl := by
  have hlock : ∀ m slotid, Carries Q s.tbl ((s.tbl.extend m 1).nfs4LockSlot slotid.toNat slotid) := fun m slotid => by
    refine Carries.modifySlot ?_ ?_ ?_
    · exact carries_extend hQ m
    · exact fun a b hq => hgeneration _ a b _ hq
    · exact fun _ hseq hdone => ⟨hseq, hdone⟩
  cases hm with
  | idle draining complete htbl howned hslots => exact carries_of_eq hQ (by rw [htbl])
  | grown m hle htbl howned hslots => exact htbl ▸ carries_extend hQ m
  | taken m slotid hle hfree hlt htbl howned hbefore hslots => exact htbl ▸ hlock m slotid
  | given m slotid task hle hfree hlt htbl howned hbefore hslots =>
    rw [htbl]
    refine (hlock m slotid).modifySlot ?_ ?_
    · exact fun a b hq => hpriv _ hfree a b _ hq
    · exact fun _ hseq hdone => ⟨hseq, hdone⟩
  | released i owner hget htbl howned hbefore hslots =>
    rw [htbl]
    refine (carries_of_eq hQ rfl).modifySlot ?_ ?_
    · exact fun a b hq => hrelease _ a b hq
    · intro b hseq hdone
      rw [hdone, hseq]
      exact ⟨rfl, rfl⟩
  | assigned i slotid table task he hlocked htask hpass htbl howned hslots =>
    rw [htbl]
    refine (carries_of_eq hQ rfl).modifySlot ?_ ?_
    · exact fun a b hq => hgeneration _ a b _ hq
    · exact fun _ hseq hdone => ⟨hseq, hdone⟩
  | freed slotid htbl howned hbefore hslots => exact carries_of_eq hQ (htbl ▸ (freeSlot_rest s.tbl slotid).2.1)
  | retargeted target htbl howned hslots =>
    exact carries_of_eq hQ (htbl ▸ (s.tbl.setTargetSlotidLocked_rest target).1)
  | updated generation highest target htbl howned hslots =>
    obtain ⟨k, hk⟩ := slots_updateTargetSlotid s generation highest target
    exact carries_of_take hQ k (htbl ▸ hk)

end ForeChannel

/-! ### Processing a result -/

/-- Who holds the slot after a result was processed, and what is left of it. -/
structure SequenceOutcome.Leaves (o : SequenceOutcome) (slot : Slot) : Prop where
  slotNr : o.slot.slotNr = slot.slotNr
  task : o.holder = .task → o.slot.privileged = slot.privileged
  probe : o.holder = .probe → o.slot.privileged
  waiter : o.holder ≠ .waiter

namespace Sequence
variable {env : SequenceEnv} {task : RpcTask} {slot : Slot} (slot' : Slot)

theorem leaves_out (hnr : slot'.slotNr = slot.slotNr) (hpriv : slot'.privileged = slot.privileged)
    (effects : List SequenceEffect) : (out task slot' effects).Leaves slot :=
  ⟨hnr, fun _ => hpriv, nofun, nofun⟩

theorem leaves_outRetry (hnr : slot'.slotNr = slot.slotNr) (hpriv : slot'.privileged = slot.privileged) :
    (outRetry task slot').Leaves slot := by
  unfold outRetry
  split
  · exact ⟨hnr, fun _ => hpriv, nofun, nofun⟩
  · exact leaves_out slot' hnr hpriv []

theorem leaves_ite {p : Prop} [Decidable p] {o o' : SequenceOutcome} (h : o.Leaves slot) (h' : o'.Leaves slot) :
    (if p then o else o').Leaves slot := by
  split
  · exact h
  · exact h'

variable (hassign : env.assign = none)
include hassign

variable (hnr : slot'.slotNr = slot.slotNr)
include hnr

theorem leaves_retryNowait (hpriv : slot'.privileged = slot.privileged) : (retryNowait env task slot').Leaves slot := by
  unfold retryNowait nfs41ReleaseSlot
  rw [hassign]
  split
  · exact ⟨hnr, nofun, nofun, nofun⟩
  · exact leaves_out slot' hnr hpriv []

theorem leaves_sessionRecover (status : Int) : (sessionRecover env task status slot').Leaves slot := by
  unfold sessionRecover nfs41ReleaseSlot
  rw [hassign]
  exact ⟨hnr, nofun, nofun, nofun⟩

theorem leaves_probeAndRetry : (probeAndRetry env task slot').Leaves slot := by
  unfold probeAndRetry nfs4ProbeSequence nfs41ReleaseSlot
  rw [hassign]
  cases env.probe with
  | notAttached => cases task.canRestart <;> exact ⟨hnr, nofun, nofun, nofun⟩
  | notRun => cases task.canRestart <;> exact ⟨hnr, nofun, nofun, nofun⟩
  | started => cases task.canRestart <;> exact ⟨hnr, nofun, fun _ => rfl, nofun⟩

end Sequence

open Sequence in
/-- A result leaves the slot with its task or a probe. -/
theorem leaves_process (env : SequenceEnv) (hassign : env.assign = none) (task : RpcTask) (res : SequenceRes) (slot : Slot) :
    (nfs41SequenceProcess env task res slot).Leaves slot := by
  have hsent : (nfs4SlotSequenceRecordSent slot slot.seqNr).slotNr = slot.slotNr ∧
      (nfs4SlotSequenceRecordSent slot slot.seqNr).privileged = slot.privileged := by
    unfold nfs4SlotSequenceRecordSent
    split <;> exact ⟨rfl, rfl⟩
  have hacked : (nfs4SlotSequenceAcked slot slot.seqNr).slotNr = slot.slotNr ∧
      (nfs4SlotSequenceAcked slot slot.seqNr).privileged = slot.privileged := hsent
  unfold nfs41SequenceProcess
  generalize status task res = st
  generalize nfs4SlotSequenceAcked slot slot.seqNr = acked at hacked
  generalize nfs4SlotSequenceRecordSent slot slot.seqNr = sent at hsent
  -- one line for each case of the switch on the status
  refine leaves_ite (leaves_out slot rfl rfl []) ?_
  refine leaves_ite (leaves_out { acked with seqDone := true } hacked.1 hacked.2 _) ?_
  refine leaves_ite (leaves_out { sent with seqDone := true } hsent.1 hsent.2 []) ?_
  refine leaves_ite (leaves_outRetry slot rfl rfl) ?_
  refine leaves_ite (leaves_retryNowait { acked with seqNr := acked.seqNr + 1 } hassign hacked.1 hacked.2) ?_
  refine leaves_ite (leaves_ite (leaves_sessionRecover slot hassign rfl st) (leaves_retryNowait slot hassign rfl rfl)) ?_
  refine leaves_ite ?_ (leaves_ite (leaves_sessionRecover slot hassign rfl st) ⟨rfl, fun _ => rfl, nofun, nofun⟩)
  refine leaves_ite (leaves_ite ?_ ?_) (leaves_outRetry { sent with seqNr := sent.seqNrHighestSent } hsent.1 hsent.2)
  · exact leaves_probeAndRetry { sent with seqNr := sent.seqNr - 1 } hassign hsent.1
  · exact leaves_retryNowait { sent with seqNr := sent.seqNr - 1 } hassign hsent.1 hsent.2

theorem process_of_not_sent {env : SequenceEnv} {task : RpcTask} (hsent : task.wasSent = false) (res : SequenceRes) (slot : Slot) :
    nfs41SequenceProcess env task res slot = Sequence.out task slot [] := by
  exact if_pos (.inl hsent)

namespace ForeSession
variable {s t : ForeSession} {chan c : ForeChannel} {i : Nat} {slotid maxReqs : U32} {slot slot' : Slot} {e : DrainEvent}
  {owner : SeqTask × U32} {task : SeqTask} {tbl : SlotTable}

open ForeChannel

def StaysFirst (_ : Nat) (a b : Slot) : Prop := a.seqNr = 1 → a.seqDone = false → b.seqNr = 1 ∧ b.seqDone = false

theorem carries_staysFirst (hm : Moves c e chan) : Carries StaysFirst c.tbl chan.tbl := by
  refine hm.carries (fun _ _ hseq hdone => ⟨hseq, hdone⟩) (fun _ _ a b x hq => hq) (fun _ a b x hq => hq) fun _ a b hq hseq hdone => ?_
  obtain ⟨hseq', hdone'⟩ := hq hseq hdone
  rw [hdone', hseq']
  exact ⟨rfl, rfl⟩

/-- As long as nothing was sent on a slot it is at its first number, 1. -/
structure Fresh (s : ForeSession) : Prop where
  held : s.chan.Held
  sent : s.sent ⊆ s.begun
  fresh : ∀ n slot, s.chan.tbl.slots[n]? = some slot → n ∉ s.begun → slot.seqNr = 1 ∧ slot.seqDone = false
  firsts : ∀ nr ∈ s.firsts, nr = 1

theorem owned_lt (hheld : chan.Held) (howner : owner ∈ chan.owned) : owner.2.toNat < chan.tbl.slots.length := by
  obtain ⟨slot, hslot⟩ := hheld.slot_of_owned howner
  exact lt_of_getElem? hslot

theorem Fresh.withChannel (h : s.Fresh) (hheld : chan.Held) (hc : Carries StaysFirst s.chan.tbl chan.tbl) :
    (s.withChannel chan).Fresh := by
  refine ⟨hheld, fun n hn => ?_, fun n slot' hget hnot => ?_, h.firsts⟩
  · obtain ⟨hn, owner, howner, rfl⟩ := mem_filter.mp hn
    exact mem_filter.mpr ⟨h.sent hn, owned_lt hheld howner⟩
  · have hlt : n < chan.tbl.slots.length := lt_of_getElem? hget
    have hnot' : n ∉ s.begun := fun hn => hnot (mem_filter.mpr ⟨hn, hlt⟩)
    rcases hc n slot' hget with ⟨slot, hslot, hstays⟩ | ⟨-, hnew⟩
    · obtain ⟨hseq, hdone⟩ := h.fresh n slot hslot hnot'
      exact hstays hseq hdone
    · exact hnew

theorem Fresh.channelStep (h : s.Fresh) (hs : s.channelStep e = some t) : t.Fresh := by
  obtain ⟨chan, hstep, rfl⟩ := map_eq_some_iff.mp hs
  have hm := moves_of_step h.held.wellFormed hstep
  exact h.withChannel (h.held.moves hm) (carries_staysFirst hm)

theorem held_putSlot (hheld : s.chan.Held) (hslot : s.chan.tbl.slots[slotid.toNat]? = some slot) (hnr : slot'.slotNr = slot.slotNr) :
    (s.putSlot slotid slot').chan.Held := by
  refine hheld.same (hheld.wellFormed.modifySlot fun a ha => ?_) rfl rfl rfl
  cases hslot.symm.trans ha
  exact hnr

theorem Fresh.putSlot (h : s.Fresh) (hslot : s.chan.tbl.slots[slotid.toNat]? = some slot) (hnr : slot'.slotNr = slot.slotNr)
    (hkeep : slotid.toNat ∉ s.sent → slot' = slot) : (s.putSlot slotid slot').Fresh := by
  refine ⟨held_putSlot h.held hslot hnr, fun n hn => h.sent (mem_of_mem_erase hn), fun n b hget hnot => ?_, h.firsts⟩
  change (s.chan.tbl.slots.modify slotid.toNat fun _ => slot')[n]? = some b at hget
  rw [getElem?_modify] at hget
  obtain ⟨a, ha, hab⟩ := map_eq_some_iff.mp hget
  split at hab
  next hn =>
    subst hn
    cases hslot.symm.trans ha
    rw [← hab, hkeep fun hsent => hnot (h.sent hsent)]
    exact h.fresh _ slot ha hnot
  · subst hab
    exact h.fresh n a ha hnot

theorem held_probe (hheld : chan.Held) (hget : chan.owned[i]? = some (task, slotid)) (probe : SeqTask) :
    ({ chan with owned := chan.owned.set i (probe, slotid) } : ForeChannel).Held := by
  refine hheld.pass ⟨hheld.wellFormed.numbered, hheld.wellFormed.exact, hheld.wellFormed.limited⟩ rfl ?_
  have hsame : (chan.owned.set i (probe, slotid)).map (·.2) = chan.owned.map (·.2) := by
    refine ext_getElem? fun k => ?_
    rw [getElem?_map, getElem?_map, getElem?_set]
    split
    next hk =>
      subst hk
      rw [if_pos (lt_of_getElem? hget), hget]
      rfl
    · rfl
  unfold ForeChannel.held
  rw [hsame]

theorem Fresh.transmit (h : s.Fresh) (hslot : s.chan.tbl.slots[slotid.toNat]? = some slot) : (s.transmit slotid slot).Fresh := by
  refine ⟨h.held, insert_subset_insert _ h.sent, fun n slot hget hnot => ?_, fun nr hnr => ?_⟩
  · exact h.fresh n slot hget fun hn => hnot (mem_insert_of_mem hn)
  · unfold ForeSession.transmit at hnr
    split at hnr
    · exact h.firsts nr hnr
    next hfirst =>
      rcases mem_append.mp hnr with hnr | hnr
      · exact h.firsts nr hnr
      · rw [List.mem_singleton.mp hnr]
        exact (h.fresh _ slot hslot hfirst).1

theorem Fresh.processed (h : s.Fresh) (hget : s.chan.owned[i]? = some (task, slotid))
    (hslot : s.chan.tbl.slots[slotid.toNat]? = some slot) {probeId : Nat} {o : SequenceOutcome} (ho : o.Leaves slot)
    (hkeep : slotid.toNat ∉ s.sent → o.slot = slot) (hs : s.processed i slotid probeId o = some t) : t.Fresh := by
  have hput : (s.putSlot slotid o.slot).Fresh := h.putSlot hslot ho.slotNr hkeep
  unfold ForeSession.processed at hs
  split at hs
  · cases hs
    have hheld : ({ (s.putSlot slotid o.slot).chan with owned := s.chan.owned.set i (⟨probeId, true⟩, slotid) } : ForeChannel).Held :=
      held_probe hput.held hget ⟨probeId, true⟩
    exact ⟨hheld, hput.sent, hput.fresh, hput.firsts⟩
  · exact exec_invariant (fun _ _ _ hi hstep => hi.channelStep hstep) hput hs

/-! ### Setting the session up -/

theorem carries_realloc (hn : tbl.Numbered) (hpos : 1 ≤ maxReqs.toNat) (mem : Nat) :
    Carries StaysFirst tbl (tbl.nfs4ReallocSlotTable mem maxReqs 1).1 := by
  have hstays : ∀ n slot, StaysFirst n slot slot := fun _ _ hseq hdone => ⟨hseq, hdone⟩
  obtain ⟨m, -, heq | ⟨⟨highest, heq⟩, -⟩⟩ := reallocSlotTable_cases hn hpos mem 1
  all_goals rw [heq]
  · exact carries_extend hstays m
  · intro n slot' hget
    obtain ⟨b, hb, rfl⟩ : ∃ b, ((tbl.extend m 1).nfs4ShrinkSlotTable (highest + 1)).slots[n]? = some b ∧
        slot' = { b with seqNr := 1, seqNrHighestSent := 1, seqNrLastAcked := 1 - 1 } := by
      change (List.map _ _)[n]? = some slot' at hget
      rw [getElem?_map] at hget
      obtain ⟨b, hb, heq⟩ := map_eq_some_iff.mp hget
      exact ⟨b, hb, heq.symm⟩
    have hb' : (tbl.extend m 1).slots[n]? = some b := by
      unfold nfs4ShrinkSlotTable at hb
      split at hb
      · exact hb
      · rw [getElem?_take] at hb
        obtain ⟨-, hb⟩ := of_guard hb
        exact hb
    rcases carries_extend hstays m n b hb' with ⟨slot, hslot, hq⟩ | ⟨hge, -, hdone⟩
    · exact .inl ⟨slot, hslot, fun hseq hdone => ⟨rfl, (hq hseq hdone).2⟩⟩
    · exact .inr ⟨hge, rfl, hdone⟩

theorem reallocSlotTable_rest (c : ForeChannel) (mem : Nat) (maxReqs : U32) :
    (c.nfs4ReallocSlotTable mem maxReqs 1).1.tbl = (c.tbl.nfs4ReallocSlotTable mem maxReqs 1).1 ∧
    (c.nfs4ReallocSlotTable mem maxReqs 1).1.owned = c.owned ∧ (c.nfs4ReallocSlotTable mem maxReqs 1).1.locked = c.locked := by
  unfold ForeChannel.nfs4ReallocSlotTable
  generalize c.tbl.nfs4ReallocSlotTable mem maxReqs 1 = result
  obtain ⟨tbl', _ | _⟩ := result <;> exact ⟨rfl, rfl, rfl⟩

theorem held_realloc (hheld : c.Held) (howned : c.owned = []) (hlocked : c.locked = none)
    (hpos : 1 ≤ maxReqs.toNat) (mem : Nat) : (c.nfs4ReallocSlotTable mem maxReqs 1).1.Held := by
  have hnone : c.held = [] := by rw [ForeChannel.held, howned, hlocked]; rfl
  have hused : c.tbl.usedSlots = ∅ := eq_empty_of_forall_notMem fun n hn => by
    obtain ⟨slotid, hslotid, -⟩ := hheld.used n hn
    rw [hnone] at hslotid
    cases hslotid
  have hw := hheld.wellFormed.nfs4ReallocSlotTable hused hpos mem 1
  have hused' : (c.tbl.nfs4ReallocSlotTable mem maxReqs 1).1.usedSlots = ∅ := by
    obtain ⟨m, -, heq | ⟨-, -, -, -, heq⟩⟩ := reallocSlotTable_cases hheld.wellFormed.numbered hpos mem 1
    · rw [heq]
      exact hused
    · exact heq.trans hused
  obtain ⟨htbl, howned', hlocked'⟩ := reallocSlotTable_rest c mem maxReqs
  have hheld' : (c.nfs4ReallocSlotTable mem maxReqs 1).1.held = c.held := by
    rw [ForeChannel.held, howned', hlocked']
    rfl
  refine ⟨htbl ▸ hw, ?_, fun n hn => ?_⟩
  · rw [hheld', hnone]
    exact ⟨nodup_nil, nofun⟩
  · rw [htbl, hused'] at hn
    exact absurd hn (notMem_empty n)

theorem one_le_of_ne_zero {x : U32} (h : x ≠ 0) : 1 ≤ x.toNat :=
  Nat.one_le_iff_ne_zero.mpr fun hzero => h (BitVec.eq_of_toNat_eq hzero)

theorem init_eq (mem : Nat) (maxReqs : U32) :
    ForeChannel.init mem maxReqs = (ForeChannel.nfs4ReallocSlotTable { tbl := {} } mem maxReqs 1).1 := by
  unfold ForeChannel.init ForeChannel.nfs4ReallocSlotTable
  generalize SlotTable.nfs4ReallocSlotTable mem {} maxReqs 1 = result
  obtain ⟨tbl', _ | _⟩ := result <;> rfl

theorem held_init (mem : Nat) (hreqs : maxReqs ≠ 0) : (ForeChannel.init mem maxReqs).Held := by
  have hempty : ({ tbl := {} } : ForeChannel).Held :=
    ⟨wellFormed_empty, ⟨nodup_nil, nofun⟩, fun n hn => absurd hn (notMem_empty n)⟩
  rw [init_eq]
  exact held_realloc hempty rfl rfl (one_le_of_ne_zero hreqs) mem

theorem fresh_init (mem : Nat) (hreqs : maxReqs ≠ 0) : (init mem maxReqs).Fresh := by
  refine ⟨held_init mem hreqs, Finset.Subset.refl _, fun n slot hget _ => ?_, nofun⟩
  rcases carries_realloc wellFormed_empty.numbered (one_le_of_ne_zero hreqs) mem n slot hget with ⟨old, hold, -⟩ | ⟨-, hnew⟩
  · cases hold
  · exact hnew

def FindsSlot (s : ForeSession) : ForeEvent → Prop
  | .slotSeqidInUse _ slotid _ => slotid.toNat < s.chan.tbl.maxSlots.toNat ∨ s.chan.tbl.maxSlotid < slotid
  | _ => True

theorem tbl_slotSeqidInUse (hn : tbl.Numbered)
    (hfinds : slotid.toNat < tbl.maxSlots.toNat ∨ tbl.maxSlotid < slotid) (mem : Nat) (seqNr : U32) :
    (tbl.nfs4SlotSeqidInUse mem slotid seqNr).1 = tbl := by
  unfold nfs4SlotSeqidInUse nfs4LookupSlot nfs4FindOrCreateSlot
  rcases hfinds with hlt | hgt
  · rw [hn.findIdx_some hlt]
    split_ifs <;> rfl
  · rw [if_neg (BitVec.not_le.mpr hgt)]

/-- No step but a call moves a slot from its first number. -/
theorem Fresh.step (h : s.Fresh) {e : ForeEvent} (hfinds : s.FindsSlot e) (hs : s.step e = some t) : t.Fresh := by
  cases e with
  | channel e => exact h.channelStep hs
  | slotSeqidInUse mem slotid seqNr =>
    obtain ⟨-, rfl⟩ := of_guard_some hs
    have hsame := tbl_slotSeqidInUse h.held.wellFormed.numbered hfinds mem seqNr
    refine h.withChannel (h.held.same (hsame.symm ▸ h.held.wellFormed) (by rw [hsame]) rfl rfl) ?_
    exact carries_of_eq (fun _ _ hseq hdone => ⟨hseq, hdone⟩) (by rw [hsame])
  | transmit i =>
    simp only [ForeSession.step] at hs
    split at hs
    next task slotid hget =>
      split at hs
      next slot hslot =>
        obtain ⟨-, rfl⟩ := of_unless_some hs
        exact h.transmit hslot
      · cases hs
    · cases hs
  | process i probe probeId tkStatus rpcProc canRestart res =>
    simp only [ForeSession.step] at hs
    split at hs
    next task slotid hget =>
      split at hs
      next slot hslot =>
        refine h.processed hget hslot (leaves_process _ rfl _ res slot) (fun hsent => ?_) hs
        rw [process_of_not_sent (decide_eq_false hsent)]
        rfl
      · cases hs
    · cases hs
  | resetSession mem maxReqs =>
    obtain ⟨hguard, rfl⟩ := of_guard_some hs
    obtain ⟨-, howned, hlocked, hreqs⟩ := hguard
    have hpos := one_le_of_ne_zero hreqs
    refine h.withChannel (held_realloc h.held howned (isNone_iff_eq_none.mp hlocked) hpos mem) ?_
    rw [(reallocSlotTable_rest s.chan mem maxReqs).1]
    exact carries_realloc h.held.wellFormed.numbered hpos mem

/-- As long as no CB_SEQUENCE asks for a slot that is not there yet, the first request on every slot has number 1. -/
theorem first_seqNr_of_run (mem : Nat) (maxReqs : U32) (hreqs : maxReqs ≠ 0) (events : List ForeEvent)
    (hfinds : Along step FindsSlot (init mem maxReqs) events) (s : ForeSession)
    (hrun : exec step (init mem maxReqs) events = some s) : ∀ nr ∈ s.firsts, nr = 1 :=
  (exec_invariant_along (fun _ _ _ hfinds (h : Fresh _) hs => h.step hfinds hs) hfinds (fresh_init mem hreqs) hrun).firsts

instance (s : ForeSession) : ∀ e, Decidable (s.FindsSlot e)
  | .slotSeqidInUse _ _ _ => inferInstanceAs (Decidable (_ ∨ _))
  | .channel _ | .transmit _ | .process .. | .resetSession _ _ => inferInstanceAs (Decidable True)

def shrinkAndCallback (slotid : U32) : List ForeEvent :=
  let take (id : Nat) : List ForeEvent := [.channel (.setupSequence ⟨id, false⟩), .channel (.allocSlot 1)]
  let giveBack : List ForeEvent := [.channel (.wakeUpFirst 0), .channel .freeSlot]
  let reply (highest : U32) : List ForeEvent :=
    [.transmit 0, .process 0 .notAttached 0 0 .other true ⟨0, 0, 0, highest, highest⟩, .channel (.tryWakeNext 1)]
  [.channel (.setTargetSlotid 0), .channel (.tryWakeNext 0)] ++ giveBack ++ take 1 ++ reply 0 ++
    [.channel (.releaseSlot 0)] ++ giveBack ++ [.channel (.setTargetSlotid 2), .channel (.tryWakeNext 0)] ++ giveBack ++
    take 2 ++ reply 2 ++ giveBack ++ [.slotSeqidInUse 1 slotid 7] ++ take 3 ++ take 4 ++ [.transmit 1, .transmit 2]

theorem first_seqNr_of_run_found : ∃ s, exec step (init 3 3) (shrinkAndCallback 1) = some s ∧
    s.firsts.length = 3 ∧ ∀ nr ∈ s.firsts, nr = 1 := by
  refine exists_exec (P := fun s => s.firsts.length = 3) (by decide +kernel) fun s hrun hlen => ?_
  exact ⟨hlen, first_seqNr_of_run 3 3 (by decide) (shrinkAndCallback 1) (by decide +kernel) s hrun⟩

/-- With a referring call on slot 2 `nfs4_lookup_slot` creates it, and its first request has sequence number 0. -/
theorem first_seqNr_zero : ∃ s, exec step (init 3 3) (shrinkAndCallback 2) = some s ∧ s.firsts = [1, 1, 0] := by
  exact exists_exec (by decide +kernel) fun _ _ => id

end ForeSession

end Mynfs
