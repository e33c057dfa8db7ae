import Mynfs.Theorems.ForeSlots

/-! A slot is privileged as its task is, unless it was handed over: `nfs41_assign_slot` does not set `privileged`. -/

namespace Mynfs

open SlotTable List Option Machine

namespace ForeChannel
variable {c d : ForeChannel} {e : DrainEvent} {x : Option U32} {slotid : U32} {slot slot' : Slot} {i : Nat}

def PrivilegedBut (x : Option U32) (c : ForeChannel) : Prop :=
  ∀ owner ∈ c.owned, x ≠ some owner.2 → ∃ slot, c.tbl.slots[owner.2.toNat]? = some slot ∧ slot.privileged = owner.1.saPrivileged

def waking (c : ForeChannel) : Option U32 :=
  match c.locked with
  | some (.wakeAndAssign slotid _) => some slotid
  | _ => none

/-- A slot that is handed to a queued task is privileged as the task is. -/
def HandsOverAlike (c : ForeChannel) : DrainEvent → Prop
  | .wakeUpFirst i => ∀ slotid ∈ c.waking, ∀ task ∈ c.waitq[i]?, c.tbl.draining = false ∨ task.saPrivileged →
      c.tbl.slots[slotid.toNat]?.map Slot.privileged = some task.saPrivileged
  | _ => True

instance (c : ForeChannel) : ∀ e, Decidable (c.HandsOverAlike e)
  | .wakeUpFirst _ => Option.decidableForallMem c.waking
  | .setupSequence _ | .allocSlot _ | .releaseSlot _ | .freeSlot | .tryWakeNext _ | .leaveWaitq _ | .setTargetSlotid _
  | .updateTargetSlotid .. | .sessionRecover | .drainSlotTbl | .checkHighestUsed | .endWait _ | .endDrainSlotTable
  | .endDrainWake => inferInstanceAs (Decidable True)

theorem Moves.privileged_eq (hm : Moves c e d) (hused : slotid.toNat ∈ c.tbl.usedSlots)
    (hslot : c.tbl.slots[slotid.toNat]? = some slot) (hslot' : d.tbl.slots[slotid.toNat]? = some slot') :
    slot'.privileged = slot.privileged := by
  have hcarries : Carries (fun n a b => n ∈ c.tbl.usedSlots → b.privileged = a.privileged) c.tbl d.tbl :=
    hm.carries (fun _ _ _ => rfl) (fun _ hfree _ _ _ _ hused => absurd hused hfree) (fun _ _ _ _ hq => hq) fun _ _ _ hq => hq
  rcases hcarries _ slot' hslot' with ⟨old, hold, hsame⟩ | ⟨hge, -⟩
  · cases hslot.symm.trans hold
    exact hsame hused
  · exact absurd (lt_of_getElem? hslot) (not_lt.mpr hge)

theorem Moves.owner_cases (hm : Moves c e d) {owner : SeqTask × U32} (howner : owner ∈ d.owned) : owner ∈ c.owned ∨
    (∃ tbl : SlotTable, d.tbl = tbl.modifySlot owner.2.toNat fun slot => { slot with privileged := owner.1.saPrivileged }) ∨
    ∃ i table, e = .wakeUpFirst i ∧ c.locked = some (.wakeAndAssign owner.2 table) ∧ c.waitq[i]? = some owner.1 ∧
      (c.tbl.draining = false ∨ owner.1.saPrivileged) := by
  cases hm with
  | idle _ _ _ howned _ | grown _ _ _ howned _ | taken _ _ _ _ _ _ howned _ _ | freed _ _ howned _ _
  | retargeted _ _ howned _ | updated _ _ _ _ howned _ =>
    exact .inl (howned ▸ howner)
  | given m slotid task _ _ _ htbl howned _ _ =>
    rw [howned] at howner
    rcases mem_append.mp howner with howner | howner
    · exact .inl howner
    · obtain rfl := mem_singleton.mp howner
      exact .inr (.inl ⟨_, htbl⟩)
  | released i owner' _ _ howned _ _ =>
    rw [howned] at howner
    exact .inl (mem_of_mem_eraseIdx howner)
  | assigned i slotid table task he hlocked htask hpass _ howned _ =>
    rw [howned] at howner
    rcases mem_append.mp howner with howner | howner
    · exact .inl howner
    · obtain rfl := mem_singleton.mp howner
      exact .inr (.inr ⟨i, table, he, hlocked, htask, hpass⟩)

theorem PrivilegedBut.moves (h : PrivilegedBut x c) (hheld : c.Held) (hm : Moves c e d) (hhand : c.HandsOverAlike e) :
    PrivilegedBut x d := by
  intro owner howner hx
  obtain ⟨slot', hslot'⟩ := (hheld.moves hm).slot_of_owned howner
  refine ⟨slot', hslot', ?_⟩
  rcases hm.owner_cases howner with hold | ⟨tbl, htbl⟩ | ⟨i, table, rfl, hlocked, htask, hpass⟩
  · obtain ⟨slot, hslot, hsame⟩ := h owner hold hx
    have hused := hheld.heldIn.used owner.2 (mem_append_left _ (mem_map_of_mem hold))
    exact (hm.privileged_eq hused hslot hslot').trans hsame
  · rw [htbl] at hslot'
    change (tbl.slots.modify _ _)[_]? = _ at hslot'
    rw [getElem?_modify] at hslot'
    obtain ⟨slot, -, hset⟩ := map_eq_some_iff.mp hslot'
    rw [if_pos rfl] at hset
    exact hset ▸ rfl
  · obtain ⟨slot, hslot, hsame⟩ := map_eq_some_iff.mp (hhand owner.2 (by rw [waking, hlocked]; rfl) owner.1 htask hpass)
    have hin : owner.2 ∈ c.held := by
      rw [ForeChannel.held, hlocked]
      exact mem_append_right _ (mem_singleton_self _)
    exact (hm.privileged_eq (hheld.heldIn.used _ hin) hslot hslot').trans hsame

theorem PrivilegedBut.releaseSlot (hheld : c.Held) {task : SeqTask} (hget : c.owned[i]? = some (task, slotid))
    (h : PrivilegedBut (some slotid) c) (hs : c.step (.releaseSlot i) = some d) : PrivilegedBut none d := by
  have hm := moves_of_step hheld.wellFormed hs
  have hbut := h.moves hheld hm trivial
  have howned : d.owned = c.owned.eraseIdx i := by
    simp only [ForeChannel.step, hget] at hs
    obtain ⟨-, hs⟩ := of_guard hs
    exact (some.inj hs) ▸ rfl
  intro owner howner _
  refine hbut owner howner fun heq => ?_
  rw [howned] at howner
  obtain ⟨k, hne, hk⟩ := mem_eraseIdx_iff_getElem?.mp howner
  have hnodup : (c.owned.map (·.2)).Nodup := hheld.heldIn.nodup.of_append_left
  have hlt : k < (c.owned.map (·.2)).length := by
    rw [length_map]
    exact lt_of_getElem? hk
  refine hne ((getElem?_inj hlt hnodup).mp ?_)
  rw [getElem?_map, getElem?_map, hk, hget]
  exact heq.symm

theorem PrivilegedBut.putSlot (h : PrivilegedBut none c) : PrivilegedBut (some slotid)
    { c with tbl := c.tbl.modifySlot slotid.toNat fun _ => slot' } := by
  intro owner howner hne
  obtain ⟨slot, hslot, hsame⟩ := h owner howner nofun
  refine ⟨slot, ?_, hsame⟩
  change (c.tbl.slots.modify slotid.toNat fun _ => slot')[_]? = _
  rw [getElem?_modify, hslot]
  exact congrArg some (if_neg fun heq => hne (congrArg some (BitVec.eq_of_toNat_eq heq)))

end ForeChannel

namespace ForeSession
variable {s t : ForeSession} {i : Nat} {slotid : U32} {slot : Slot}

open ForeChannel

def HandsOverAlike (s : ForeSession) : ForeEvent → Prop
  | .channel e => s.chan.HandsOverAlike e
  | _ => True

/-- Every slot of a task is held by it alone, and is privileged as the task is. -/
structure PrivilegedAlike (s : ForeSession) : Prop where
  held : s.chan.Held
  alike : s.chan.PrivilegedBut none

theorem PrivilegedAlike.channelStep (h : s.PrivilegedAlike) {e : DrainEvent} (hhand : s.chan.HandsOverAlike e)
    (hs : s.channelStep e = some t) : t.PrivilegedAlike := by
  obtain ⟨chan, hstep, rfl⟩ := map_eq_some_iff.mp hs
  have hm := moves_of_step h.held.wellFormed hstep
  exact ⟨h.held.moves hm, h.alike.moves h.held hm hhand⟩

/-- The result of a task is processed. -/
structure Processing (i : Nat) (task : SeqTask) (slotid : U32) (s : ForeSession) : Prop where
  held : s.chan.Held
  get : s.chan.owned[i]? = some (task, slotid)
  alike : s.chan.PrivilegedBut (some slotid)

namespace Processing
variable {task : SeqTask}

section
variable (h : Processing i task slotid s)
include h

theorem channelStep {e : DrainEvent}
    (he : e = .sessionRecover ∨ ∃ k highest target, e = .updateTargetSlotid k highest target) (hs : s.channelStep e = some t) :
    Processing i task slotid t := by
  obtain ⟨chan, hstep, rfl⟩ := map_eq_some_iff.mp hs
  have hm := moves_of_step h.held.wellFormed hstep
  rcases he with rfl | ⟨k, highest, target, rfl⟩
  · refine ⟨h.held.moves hm, ?_, h.alike.moves h.held hm trivial⟩
    cases hstep
    exact h.get
  · refine ⟨h.held.moves hm, ?_, h.alike.moves h.held hm trivial⟩
    simp only [ForeChannel.step] at hstep
    split at hstep
    · obtain ⟨-, rfl⟩ := of_guard_some hstep
      exact h.get
    · cases hstep

theorem privilegedAlike (hslot : s.chan.tbl.slots[slotid.toNat]? = some slot)
    (hsame : slot.privileged = task.saPrivileged) : s.PrivilegedAlike := by
  refine ⟨h.held, fun owner howner _ => ?_⟩
  by_cases heq : owner.2 = slotid
  · obtain rfl : owner = (task, slotid) :=
      inj_on_of_nodup_map h.held.heldIn.nodup.of_append_left howner (mem_of_getElem? h.get) heq
    exact ⟨slot, hslot, hsame⟩
  · exact h.alike owner howner fun hx => heq (some.inj hx).symm

theorem probe (hslot : s.chan.tbl.slots[slotid.toNat]? = some slot) (hsame : slot.privileged) (probeId : Nat) :
    ({ s with chan := { s.chan with owned := s.chan.owned.set i (⟨probeId, true⟩, slotid) } } : ForeSession).PrivilegedAlike := by
  have hheld := held_probe h.held h.get ⟨probeId, true⟩
  have hprobe : (⟨probeId, true⟩, slotid) ∈ s.chan.owned.set i (⟨probeId, true⟩, slotid) :=
    mem_set (List.getElem?_eq_some_iff.mp h.get).1 _
  refine ⟨hheld, fun owner howner _ => ?_⟩
  by_cases heq : owner.2 = slotid
  · obtain rfl : owner = (⟨probeId, true⟩, slotid) :=
      inj_on_of_nodup_map hheld.heldIn.nodup.of_append_left howner hprobe heq
    exact ⟨slot, hslot, hsame⟩
  · rcases mem_or_eq_of_mem_set howner with hold | rfl
    · exact h.alike owner hold fun hx => heq (some.inj hx).symm
    · exact absurd rfl heq

theorem releaseSlot (hs : s.channelStep (.releaseSlot i) = some t) : t.PrivilegedAlike := by
  obtain ⟨chan, hstep, rfl⟩ := map_eq_some_iff.mp hs
  exact ⟨h.held.moves (moves_of_step h.held.wellFormed hstep), PrivilegedBut.releaseSlot h.held h.get h.alike hstep⟩

end

end Processing

variable (h : s.PrivilegedAlike)
include h

theorem PrivilegedAlike.processed {task : SeqTask} (hget : s.chan.owned[i]? = some (task, slotid))
    (hslot : s.chan.tbl.slots[slotid.toNat]? = some slot) {probeId : Nat} {o : SequenceOutcome} (ho : o.Leaves slot)
    (hs : s.processed i slotid probeId o = some t) : t.PrivilegedAlike := by
  have hput : Processing i task slotid (s.putSlot slotid o.slot) := ⟨held_putSlot h.held hslot ho.slotNr, hget, h.alike.putSlot⟩
  have hslot' : (s.putSlot slotid o.slot).chan.tbl.slots[slotid.toNat]? = some o.slot := by
    change (s.chan.tbl.slots.modify slotid.toNat fun _ => o.slot)[_]? = _
    rw [getElem?_modify, hslot]
    exact congrArg some (if_pos rfl)
  have hown : slot.privileged = task.saPrivileged := by
    obtain ⟨slot₀, hslot₀, hsame⟩ := h.alike (task, slotid) (mem_of_getElem? hget) (by simp)
    cases hslot.symm.trans hslot₀
    exact hsame
  unfold ForeSession.processed followUps at hs
  split at hs
  next hprobe =>
    cases hs
    exact hput.probe hslot' (ho.probe hprobe) probeId
  next hprobe =>
    obtain ⟨u, hu, hs⟩ := exec_append_iff.mp hs
    generalize hevents : o.effects.filterMap _ = events at hu
    have hfollow : ∀ e ∈ events, e = .sessionRecover ∨ ∃ k highest target, e = .updateTargetSlotid k highest target := by
      intro e he
      rw [← hevents] at he
      obtain ⟨effect, -, heq⟩ := mem_filterMap.mp he
      split at heq
      · exact .inl (some.inj heq).symm
      · exact .inr ⟨_, _, _, (some.inj heq).symm⟩
      · cases heq
    split at hs
    · obtain ⟨v, hv, hs⟩ := exec_cons_iff.mp hs
      cases hs
      have hi := exec_invariant_labels (fun _ _ _ he (hi : Processing i task slotid _) hstep => hi.channelStep he hstep)
        hfollow hput hu
      exact hi.releaseSlot hv
    next hnobody =>
      cases hs
      have htask : o.holder = .task := by
        cases hholder : o.holder with
        | task => rfl
        | nobody => exact absurd hholder hnobody
        | probe => exact absurd hholder hprobe
        | waiter => exact absurd hholder ho.waiter
      refine exec_invariant_labels (fun _ e _ he (hi : PrivilegedAlike _) hstep => hi.channelStep ?_ hstep) hfollow
        (hput.privilegedAlike hslot' ((ho.task htask).trans hown)) hu
      rcases he with rfl | ⟨_, _, _, rfl⟩ <;> trivial

theorem PrivilegedAlike.slotSeqidInUse (mem : Nat) (slotid seqNr : U32) :
    (s.slotSeqidInUse mem slotid seqNr).PrivilegedAlike := by
  obtain ⟨m, hle, htbl⟩ : ∃ m, s.chan.tbl.maxSlots.toNat + m ≤ 1024 ∧
      (s.slotSeqidInUse mem slotid seqNr).chan.tbl = s.chan.tbl.extend m 0 := by
    have hw := h.held.wellFormed
    unfold ForeSession.slotSeqidInUse withChannel
    have hfst : (s.chan.tbl.nfs4SlotSeqidInUse mem slotid seqNr).1 = (s.chan.tbl.nfs4LookupSlot mem slotid).1 := by
      unfold nfs4SlotSeqidInUse
      split <;> simp only [*]
    rw [hfst]
    unfold nfs4LookupSlot
    split
    next hle =>
      have hid : slotid.toNat < 1024 := (BitVec.le_def.mp hle).trans_lt (Nat.lt_succ_of_le hw.limited.bitmap)
      obtain ⟨m, htbl, hbound, -⟩ := findOrCreateSlot_spec hw.numbered mem hid 0
      exact ⟨m, hbound, htbl⟩
    · exact ⟨0, hw.numbered.le, (extend_zero _ _).symm⟩
  refine ⟨h.held.same (htbl ▸ h.held.wellFormed.extend hle) ?_ rfl rfl, fun owner howner hx => ?_⟩
  · rw [htbl]
    rfl
  · obtain ⟨slot, hslot, hsame⟩ := h.alike owner howner hx
    refine ⟨slot, ?_, hsame⟩
    rw [htbl]
    exact (getElem?_append_left (lt_of_getElem? hslot)).trans hslot

theorem PrivilegedAlike.step {e : ForeEvent} (hhand : s.HandsOverAlike e) (hs : s.step e = some t) : t.PrivilegedAlike := by
  cases e with
  | channel e => exact h.channelStep hhand hs
  | slotSeqidInUse mem slotid seqNr =>
    obtain ⟨-, hs⟩ := of_guard hs
    exact some.inj hs ▸ h.slotSeqidInUse mem slotid seqNr
  | transmit i =>
    simp only [ForeSession.step] at hs
    split at hs
    · split at hs
      · obtain ⟨-, hs⟩ := of_unless hs
        cases hs
        exact ⟨h.held, h.alike⟩
      · cases hs
    · cases hs
  | process i probe probeId tkStatus rpcProc canRestart res =>
    simp only [ForeSession.step] at hs
    split at hs
    next task slotid hget =>
      split at hs
      next slot hslot => exact h.processed hget hslot (leaves_process _ rfl _ res slot) hs
      · cases hs
    · cases hs
  | resetSession mem maxReqs =>
    obtain ⟨hguard, rfl⟩ := of_guard_some hs
    obtain ⟨-, howned, hlocked, hreqs⟩ := hguard
    have hheld := held_realloc h.held howned (isNone_iff_eq_none.mp hlocked) (one_le_of_ne_zero hreqs) mem
    refine ⟨hheld, fun owner howner _ => ?_⟩
    change owner ∈ (s.chan.nfs4ReallocSlotTable mem maxReqs 1).1.owned at howner
    rw [(reallocSlotTable_rest s.chan mem maxReqs).2.1, howned] at howner
    cases howner

omit h

/-- If slots are only handed to tasks of the kind that had them, the slot of a task is privileged as the task is. -/
theorem privileged_of_run (mem : Nat) (maxReqs : U32) (hreqs : maxReqs ≠ 0) (events : List ForeEvent)
    (hhand : Along step HandsOverAlike (init mem maxReqs) events) (s : ForeSession)
    (hrun : exec step (init mem maxReqs) events = some s) :
    ∀ owner ∈ s.chan.owned, ∃ slot, s.chan.tbl.slots[owner.2.toNat]? = some slot ∧ slot.privileged = owner.1.saPrivileged := by
  have hinit : (init mem maxReqs).PrivilegedAlike := by
    refine ⟨held_init mem hreqs, fun owner howner _ => ?_⟩
    cases howner
  intro owner howner
  have hi := exec_invariant_along (fun _ _ _ hhand (h : PrivilegedAlike _) hs => h.step hhand hs) hhand hinit hrun
  exact hi.alike owner howner nofun

instance (s : ForeSession) : ∀ e, Decidable (s.HandsOverAlike e)
  | .channel e => inferInstanceAs (Decidable (s.chan.HandsOverAlike e))
  | .slotSeqidInUse .. | .transmit _ | .process .. | .resetSession _ _ => inferInstanceAs (Decidable True)

def handOver (saPrivileged : Bool) : List ForeEvent :=
  [.channel (.setupSequence ⟨1, false⟩), .channel (.allocSlot 0), .channel (.setupSequence ⟨2, saPrivileged⟩),
    .channel (.allocSlot 0), .transmit 0, .process 0 .notAttached 0 0 .other true ⟨0, 0, 0, 0, 0⟩, .channel (.tryWakeNext 0),
    .channel (.releaseSlot 0), .channel (.wakeUpFirst 0), .transmit 0]

theorem privileged_of_run_handOver : ∃ s, exec step (init 1 1) (handOver false) = some s ∧
    s.chan.owned = [(⟨2, false⟩, 0)] ∧
    ∀ owner ∈ s.chan.owned, ∃ slot, s.chan.tbl.slots[owner.2.toNat]? = some slot ∧ slot.privileged = owner.1.saPrivileged := by
  refine exists_exec (P := fun s => s.chan.owned = [(⟨2, false⟩, 0)]) (by decide) fun s hrun howned => ?_
  exact ⟨howned, privileged_of_run 1 1 (by decide) (handOver false) (by decide) s hrun⟩

/-- The privileged task has transmitted, and its slot is not privileged. -/
theorem handOver_not_privileged : ∃ s, exec step (init 1 1) (handOver true) = some s ∧
    s.chan.owned = [(⟨2, true⟩, 0)] ∧ 0 ∈ s.sent ∧ s.chan.tbl.slots[0]?.map Slot.privileged = some false := by
  exact exists_exec (by decide) fun _ _ => id

end ForeSession

end Mynfs
