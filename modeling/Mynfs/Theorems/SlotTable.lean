import Mathlib.Algebra.Order.Monoid.Unbundled.WithTop
import Mynfs.Session.Drain
import Mynfs.Session.Table

/-! The list of a slot table, `highest_used_slotid`, and `max_slotid` within its limits. -/

namespace Mynfs

open List Finset Machine
open BitVec (eq_of_toNat_eq le_def lt_def ofNat toNat_ofNat)

namespace SlotTable
variable {tbl tbl' tbl'' : SlotTable} {slotid seqInit x maxReqs : U32} {used : Finset Nat} {i m mem size : Nat}
  {f : Slot → Slot}

/-! ### What is in use -/

/-- The same slots are in use. -/
structure SameUse (tbl tbl' : SlotTable) : Prop where
  used_eq : tbl'.usedSlots = tbl.usedSlots
  highest_eq : tbl'.highestUsedSlotid = tbl.highestUsedSlotid
  draining_eq : tbl'.draining = tbl.draining
  complete_eq : tbl'.complete = tbl.complete

theorem SameUse.refl (tbl : SlotTable) : SameUse tbl tbl := ⟨rfl, rfl, rfl, rfl⟩

theorem SameUse.trans (h : SameUse tbl tbl') (h' : SameUse tbl' tbl'') : SameUse tbl tbl'' :=
  ⟨h'.used_eq.trans h.used_eq, h'.highest_eq.trans h.highest_eq, h'.draining_eq.trans h.draining_eq,
    h'.complete_eq.trans h.complete_eq⟩

theorem SameUse.ite {c : Prop} [Decidable c] (h : SameUse tbl tbl') (h' : SameUse tbl tbl'') :
    SameUse tbl (if c then tbl' else tbl'') := by
  split
  · exact h
  · exact h'

theorem findFirstZeroBit_notMem (h : findFirstZeroBit used size < size) : findFirstZeroBit used size ∉ used := by
  unfold findFirstZeroBit at h ⊢
  cases hfind : (List.range size).find? fun i => decide (i ∉ used) with
  | none =>
    rw [hfind] at h
    exact absurd h (lt_irrefl size)
  | some i =>
    have hfree := find?_some hfind
    exact of_decide_eq_true hfree

variable (used size)

theorem findFirstZeroBit_le : findFirstZeroBit used size ≤ size := by
  unfold findFirstZeroBit
  cases hfind : (List.range size).find? fun i => decide (i ∉ used) with
  | none => exact le_rfl
  | some i => exact (List.mem_range.mp (List.mem_of_find?_eq_some hfind)).le

theorem findLastBit_spec : (findLastBit used size < size → ∀ i ∈ used, i < size → i ≤ findLastBit used size) ∧
      (size ≤ findLastBit used size → ∀ i ∈ used, size ≤ i) := by
  unfold findLastBit
  cases hmax : (used.filter (· < size)).max with
  | bot =>
    have hempty := max_eq_bot.mp hmax
    refine ⟨fun hlt => absurd hlt (lt_irrefl size), fun _ i hi => ?_⟩
    by_contra hlt
    have hmem : i ∈ used.filter (· < size) := mem_filter.mpr ⟨hi, not_le.mp hlt⟩
    rw [hempty] at hmem
    exact absurd hmem (notMem_empty i)
  | coe last =>
    have hlast := (mem_filter.mp (mem_of_max hmax)).2
    exact ⟨fun _ i hi hlt => le_max_of_eq (mem_filter.mpr ⟨hi, hlt⟩) hmax, fun hge => absurd hlast (not_lt.mpr hge)⟩

variable {used size}
variable (tbl)

theorem shrinkSlotTable_sameUse (newsize : U32) : SameUse tbl (tbl.nfs4ShrinkSlotTable newsize) := by
  unfold nfs4ShrinkSlotTable
  split <;> exact ⟨rfl, rfl, rfl, rfl⟩

theorem setTargetSlotidLocked_sameUse (target : U32) : SameUse tbl (tbl.nfs41SetTargetSlotidLocked target) := by
  unfold nfs41SetTargetSlotidLocked
  split <;> exact ⟨rfl, rfl, rfl, rfl⟩

theorem setServerSlotidLocked_sameUse (highest : U32) : SameUse tbl (tbl.nfs41SetServerSlotidLocked highest) := by
  unfold nfs41SetServerSlotidLocked
  split
  · exact SameUse.refl tbl
  · obtain ⟨hused, hhigh, hdrain, hcmp⟩ := tbl.shrinkSlotTable_sameUse (highest + 1)
    exact ⟨hused, hhigh, hdrain, hcmp⟩

theorem setMaxSlotidLocked_sameUse (target : U32) : SameUse tbl (tbl.nfs41SetMaxSlotidLocked target) := ⟨rfl, rfl, rfl, rfl⟩

variable {tbl}

/-! ### New slots -/

def extend (tbl : SlotTable) (m : Nat) (seqInit : U32) : SlotTable :=
  { tbl with
    slots := tbl.slots ++ (List.range m).map fun k => nfs4NewSlot (tbl.maxSlots + BitVec.ofNat 32 k) seqInit
    maxSlots := tbl.maxSlots + BitVec.ofNat 32 m }

theorem extend_zero (tbl : SlotTable) (seqInit : U32) : tbl.extend 0 seqInit = tbl := by
  simp [extend]

theorem extend_succ (tbl : SlotTable) (m : Nat) (seqInit : U32) : tbl.extend (m + 1) seqInit = ({ tbl with
      slots := tbl.slots ++ [nfs4NewSlot tbl.maxSlots seqInit]
      maxSlots := tbl.maxSlots + 1 } : SlotTable).extend m seqInit := by
  have hnr : ∀ k, tbl.maxSlots + ofNat 32 (k + 1) = tbl.maxSlots + 1 + ofNat 32 k := fun k => by
    rw [BitVec.add_assoc, Nat.add_comm k 1, BitVec.ofNat_add]
    rfl
  unfold extend
  rw [List.range_succ_eq_map, List.map_cons, List.map_map, hnr m, List.append_assoc]
  simp only [Function.comp_def, Nat.succ_eq_add_one, hnr]
  simp

/-- The list has the numbers from 0 on in order, and not more of them than the bitmap has bits. -/
structure Numbered (tbl : SlotTable) : Prop where
  numbers : tbl.slots.map (fun slot => slot.slotNr.toNat) = List.range tbl.maxSlots.toNat
  le : tbl.maxSlots.toNat ≤ 1024

theorem Numbered.length (hn : tbl.Numbered) : tbl.slots.length = tbl.maxSlots.toNat := by
  have hlen := congrArg List.length hn.numbers
  rwa [length_map, length_range] at hlen

theorem Numbered.slotNr (hn : tbl.Numbered) {slot : Slot} (hget : tbl.slots[i]? = some slot) : slot.slotNr.toNat = i := by
  have hlt : i < tbl.maxSlots.toNat := hn.length ▸ (lt_of_getElem? hget)
  have hmap : (tbl.slots.map fun slot => slot.slotNr.toNat)[i]? = some slot.slotNr.toNat := by
    rw [getElem?_map, hget]
    rfl
  rw [hn.numbers, getElem?_range hlt] at hmap
  exact (Option.some.inj hmap).symm

theorem Numbered.congr (hn : tbl.Numbered) (hslots : tbl'.slots.map (·.slotNr) = tbl.slots.map (·.slotNr))
    (hmax : tbl'.maxSlots = tbl.maxSlots) : tbl'.Numbered := by
  have hnr := congrArg (List.map BitVec.toNat) hslots
  rw [List.map_map, List.map_map] at hnr
  exact ⟨by rw [hmax]; exact hnr.trans hn.numbers, hmax ▸ hn.le⟩

theorem toNat_add_small (h : x.toNat + m < 2 ^ 32) : (x + ofNat 32 m).toNat = x.toNat + m := by
  rw [BitVec.toNat_add, toNat_ofNat, Nat.add_mod_mod, Nat.mod_eq_of_lt h]

theorem Numbered.extend (hn : tbl.Numbered) (hle : tbl.maxSlots.toNat + m ≤ 1024) : (tbl.extend m seqInit).Numbered := by
  have hmax : (tbl.extend m seqInit).maxSlots.toNat = tbl.maxSlots.toNat + m := toNat_add_small (by omega)
  refine ⟨?_, hmax ▸ hle⟩
  rw [hmax, List.range_add, ← hn.numbers]
  show (tbl.slots ++ _).map _ = _
  rw [List.map_append, List.map_map]
  refine congrArg _ (map_congr_left fun k hk => ?_)
  have hk := List.mem_range.mp hk
  exact toNat_add_small (by omega)

theorem appendSlots_spec (slotid seqInit : U32) (hid : slotid.toNat < 1024) : ∀ (mem : Nat) (tbl : SlotTable),
    tbl.slots.length = tbl.maxSlots.toNat → tbl.maxSlots.toNat ≤ slotid.toNat →
    ∃ m, (appendSlots slotid seqInit mem tbl).1 = tbl.extend m seqInit ∧ tbl.maxSlots.toNat + m ≤ slotid.toNat + 1 ∧
      ∀ i, (appendSlots slotid seqInit mem tbl).2 = .ok i → i = slotid.toNat ∧ tbl.maxSlots.toNat + m = slotid.toNat + 1
  | 0, tbl, _, hle => ⟨0, (extend_zero tbl seqInit).symm, by omega, fun i hi => by cases hi⟩
  | mem + 1, tbl, hlen, hle => by
    unfold appendSlots
    split
    next heq =>
      refine ⟨1, ?_, by rw [heq], fun i hi => ?_⟩
      · rw [extend_succ, extend_zero]
      · cases hi
        rw [hlen, heq]
        exact ⟨rfl, rfl⟩
    next hne =>
      have hlt : tbl.maxSlots.toNat < slotid.toNat := lt_of_le_of_ne hle fun h => hne (eq_of_toNat_eq h)
      have hmax : (tbl.maxSlots + 1).toNat = tbl.maxSlots.toNat + 1 := toNat_add_small (m := 1) (by omega)
      obtain ⟨m, htbl, hbound, hok⟩ := appendSlots_spec slotid seqInit hid mem
        { tbl with slots := tbl.slots ++ [nfs4NewSlot tbl.maxSlots seqInit], maxSlots := tbl.maxSlots + 1 }
        (by rw [hmax, length_append, hlen]; rfl) (hmax ▸ hlt)
      rw [hmax] at hbound hok
      refine ⟨m + 1, by rw [extend_succ]; exact htbl, by omega, fun i hi => ?_⟩
      obtain ⟨hi, hm⟩ := hok i hi
      exact ⟨hi, by omega⟩

theorem Numbered.findIdx_some (hn : tbl.Numbered) (hlt : slotid.toNat < tbl.maxSlots.toNat) :
    tbl.slots.findIdx? (fun slot => slot.slotNr == slotid) = some slotid.toNat := by
  have hlen := hn.length
  refine findIdx?_eq_some_iff_getElem.mpr ⟨hlen ▸ hlt, ?_, fun j hj => ?_⟩
  · have hnr := hn.slotNr (getElem?_eq_getElem (hlen ▸ hlt : slotid.toNat < tbl.slots.length))
    exact beq_iff_eq.mpr (eq_of_toNat_eq hnr)
  · have hnr := hn.slotNr (getElem?_eq_getElem (hj.trans (hlen ▸ hlt) : j < tbl.slots.length))
    intro heq
    rw [beq_iff_eq.mp heq] at hnr
    omega

theorem Numbered.findIdx_none (hn : tbl.Numbered) (hge : tbl.maxSlots.toNat ≤ slotid.toNat) :
    tbl.slots.findIdx? (fun slot => slot.slotNr == slotid) = none := by
  refine findIdx?_eq_none_iff.mpr fun slot hslot => ?_
  obtain ⟨j, hj⟩ := mem_iff_getElem?.mp hslot
  have hlt : j < tbl.maxSlots.toNat := hn.length ▸ (lt_of_getElem? hj)
  have hnr := hn.slotNr hj
  refine beq_eq_false_iff_ne.mpr fun heq => ?_
  rw [heq] at hnr
  omega

/-- New slots up to the one that was asked for. -/
theorem findOrCreateSlot_spec (hn : tbl.Numbered) (mem : Nat) {slotid : U32} (hid : slotid.toNat < 1024) (seqInit : U32) :
    ∃ m, (tbl.nfs4FindOrCreateSlot mem slotid seqInit).1 = tbl.extend m seqInit ∧ tbl.maxSlots.toNat + m ≤ 1024 ∧
      ∀ i, (tbl.nfs4FindOrCreateSlot mem slotid seqInit).2 = .ok i → i = slotid.toNat ∧ slotid.toNat < tbl.maxSlots.toNat + m := by
  unfold nfs4FindOrCreateSlot
  rcases Nat.lt_or_ge slotid.toNat tbl.maxSlots.toNat with hlt | hge
  · rw [hn.findIdx_some hlt]
    refine ⟨0, (extend_zero tbl seqInit).symm, hn.le, fun i hi => ?_⟩
    cases hi
    exact ⟨rfl, hlt⟩
  · rw [hn.findIdx_none hge]
    obtain ⟨m, htbl, hle, hok⟩ := appendSlots_spec slotid seqInit hid mem tbl hn.length hge
    refine ⟨m, htbl, by omega, fun i hi => ?_⟩
    obtain ⟨hi, hm⟩ := hok i hi
    exact ⟨hi, by omega⟩

/-! ### Well-formed tables -/

/-- `highest_used_slotid` is the highest bit of `used_slots`, and the slots in use are in the list. -/
structure Exact (tbl : SlotTable) : Prop where
  none_iff : tbl.highestUsedSlotid = noSlot ↔ tbl.usedSlots = ∅
  mem : tbl.highestUsedSlotid ≠ noSlot → tbl.highestUsedSlotid.toNat ∈ tbl.usedSlots
  le : ∀ i ∈ tbl.usedSlots, i ≤ tbl.highestUsedSlotid.toNat
  lt : ∀ i ∈ tbl.usedSlots, i < tbl.maxSlots.toNat

/-- `max_slotid` is within its limits. -/
structure Limited (tbl : SlotTable) : Prop where
  bitmap : tbl.maxSlotid.toNat ≤ 1023
  server : tbl.maxSlotid.toNat ≤ tbl.serverHighestSlotid.toNat
  target : tbl.maxSlotid.toNat ≤ tbl.targetHighestSlotid.toNat

/-- The invariant of a slot table. -/
structure WellFormed (tbl : SlotTable) : Prop where
  numbered : tbl.Numbered
  exact : tbl.Exact
  limited : tbl.Limited

theorem Exact.congr (he : tbl.Exact) (hused : tbl'.usedSlots = tbl.usedSlots)
    (hhigh : tbl'.highestUsedSlotid = tbl.highestUsedSlotid) (hlt : ∀ i ∈ tbl.usedSlots, i < tbl'.maxSlots.toNat) :
    tbl'.Exact := by
  refine ⟨?_, ?_, ?_, ?_⟩ <;> rw [hused] <;> try rw [hhigh]
  · exact he.none_iff
  · exact he.mem
  · exact he.le
  · exact hlt

theorem Exact.extend (he : tbl.Exact) (hle : tbl.maxSlots.toNat + m ≤ 1024) : (tbl.extend m seqInit).Exact := by
  have hmax : (tbl.extend m seqInit).maxSlots.toNat = tbl.maxSlots.toNat + m := toNat_add_small (by omega)
  refine he.congr rfl rfl fun i hi => ?_
  rw [hmax]
  exact Nat.lt_add_right m (he.lt i hi)

theorem ne_noSlot_of_lt (h : slotid.toNat < 1024) : slotid ≠ noSlot := by
  rintro rfl
  exact absurd h (by decide)

theorem Exact.nfs4LockSlot (he : tbl.Exact) (hlt : slotid.toNat < tbl.maxSlots.toNat) (hle : tbl.maxSlots.toNat ≤ 1024) (i : Nat) :
    (tbl.nfs4LockSlot i slotid).Exact := by
  have hslot : slotid ≠ noSlot := ne_noSlot_of_lt (hlt.trans_le hle)
  have hne : insert slotid.toNat tbl.usedSlots ≠ ∅ := insert_ne_empty _ _
  have hused : ∀ j ∈ insert slotid.toNat tbl.usedSlots, j < tbl.maxSlots.toNat := fun j hj => by
    rcases mem_insert.mp hj with rfl | hj
    · exact hlt
    · exact he.lt j hj
  by_cases hraise : tbl.highestUsedSlotid < slotid ∨ tbl.highestUsedSlotid = noSlot
  · have hhigh : (tbl.nfs4LockSlot i slotid).highestUsedSlotid = slotid := if_pos hraise
    refine ⟨?_, fun _ => ?_, fun j hj => ?_, hused⟩
    · rw [hhigh]
      exact ⟨fun h => absurd h hslot, fun h => absurd h hne⟩
    · rw [hhigh]
      exact mem_insert_self _ _
    · rw [hhigh]
      rcases mem_insert.mp hj with rfl | hj
      · exact le_rfl
      · rcases hraise with hraise | hnone
        · exact (he.le j hj).trans (lt_def.mp hraise).le
        · exact absurd (he.none_iff.mp hnone) (ne_empty_of_mem hj)
  · have hhigh : (tbl.nfs4LockSlot i slotid).highestUsedSlotid = tbl.highestUsedSlotid := if_neg hraise
    obtain ⟨hle', hsome⟩ := not_or.mp hraise
    refine ⟨?_, fun _ => ?_, fun j hj => ?_, hused⟩
    · rw [hhigh]
      exact ⟨fun h => absurd h hsome, fun h => absurd h hne⟩
    · rw [hhigh]
      exact mem_insert_of_mem (he.mem hsome)
    · rw [hhigh]
      rcases mem_insert.mp hj with rfl | hj
      · exact le_def.mp (BitVec.not_lt.mp hle')
      · exact he.le j hj

theorem findLastBit_mem (h : findLastBit used size < size) : findLastBit used size ∈ used := by
  unfold findLastBit at h ⊢
  cases hmax : (used.filter (· < size)).max with
  | bot =>
    rw [hmax] at h
    exact absurd h (lt_irrefl size)
  | coe last => exact (mem_filter.mp (mem_of_max hmax)).1

theorem Exact.nfs4FreeSlot (he : tbl.Exact) (slotid : U32) : (tbl.nfs4FreeSlot slotid).Exact := by
  have hlt : ∀ j ∈ tbl.usedSlots.erase slotid.toNat, j < tbl.maxSlots.toNat := fun j hj => he.lt j (mem_of_mem_erase hj)
  have hle : ∀ j ∈ tbl.usedSlots.erase slotid.toNat, j ≤ tbl.highestUsedSlotid.toNat := fun j hj =>
    he.le j (mem_of_mem_erase hj)
  unfold SlotTable.nfs4FreeSlot
  dsimp only
  split
  next heq =>
    have hbelow : ∀ j ∈ tbl.usedSlots.erase slotid.toNat, j < slotid.toNat := fun j hj =>
      lt_of_le_of_ne (heq ▸ hle j hj) (ne_of_mem_erase hj)
    obtain ⟨hlast, hnone⟩ := findLastBit_spec (tbl.usedSlots.erase slotid.toNat) slotid.toNat
    split
    next hfound =>
      have hmem := findLastBit_mem hfound
      generalize findLastBit (tbl.usedSlots.erase slotid.toNat) slotid.toNat = last at hfound hmem hlast
      have hnat : (ofNat 32 last).toNat = last := by
        rw [toNat_ofNat, Nat.mod_eq_of_lt (hfound.trans slotid.isLt)]
      have hsome : ofNat 32 last ≠ noSlot := fun h => by
        have hmax := congrArg BitVec.toNat h
        rw [hnat] at hmax
        change last = 2 ^ 32 - 1 at hmax
        omega
      refine ⟨⟨fun h => absurd h hsome, fun h => absurd h (ne_empty_of_mem hmem)⟩, fun _ => hnat.symm ▸ hmem, fun j hj => ?_, hlt⟩
      rw [hnat]
      exact hlast hfound j hj (hbelow j hj)
    next hgone =>
      have hempty : tbl.usedSlots.erase slotid.toNat = ∅ := eq_empty_of_forall_notMem fun j hj =>
        absurd (hbelow j hj) (not_lt.mpr (hnone (not_lt.mp hgone) j hj))
      have hexact : ({ tbl with usedSlots := tbl.usedSlots.erase slotid.toNat, highestUsedSlotid := noSlot } : SlotTable).Exact := by
        refine ⟨⟨fun _ => hempty, fun _ => rfl⟩, fun h => absurd rfl h, fun j hj => ?_, hlt⟩
        rw [hempty] at hj
        exact absurd hj (notMem_empty j)
      unfold nfs4SlotTblDrainComplete
      split
      · exact hexact.congr rfl rfl hexact.lt
      · exact hexact
  next hne =>
    have hkeep : tbl.highestUsedSlotid ≠ noSlot → tbl.highestUsedSlotid.toNat ∈ tbl.usedSlots.erase slotid.toNat := fun hsome =>
      mem_erase.mpr ⟨fun h => hne (eq_of_toNat_eq h.symm), he.mem hsome⟩
    refine ⟨⟨fun h => ?_, fun h => ?_⟩, hkeep, hle, hlt⟩
    · rw [he.none_iff.mp h, erase_empty]
    · by_contra hsome
      exact ne_empty_of_mem (hkeep hsome) h

theorem slotNr_modifySlot (hf : ∀ slot, tbl.slots[i]? = some slot → (f slot).slotNr = slot.slotNr) :
    (tbl.modifySlot i f).slots.map (·.slotNr) = tbl.slots.map (·.slotNr) := by
  unfold modifySlot
  refine ext_getElem? fun k => ?_
  rw [getElem?_map, getElem?_map, getElem?_modify]
  cases hget : tbl.slots[k]? with
  | none => rfl
  | some slot =>
    by_cases hi : i = k
    · simpa [hi] using hf slot (hi ▸ hget)
    · simp [hi]

theorem WellFormed.modifySlot (hw : tbl.WellFormed)
    (hf : ∀ slot, tbl.slots[i]? = some slot → (f slot).slotNr = slot.slotNr) : (tbl.modifySlot i f).WellFormed :=
  ⟨hw.numbered.congr (slotNr_modifySlot hf) rfl, hw.exact.congr rfl rfl hw.exact.lt, ⟨hw.limited.bitmap, hw.limited.server, hw.limited.target⟩⟩

theorem WellFormed.extend (hw : tbl.WellFormed) (hle : tbl.maxSlots.toNat + m ≤ 1024) : (tbl.extend m seqInit).WellFormed :=
  ⟨hw.numbered.extend hle, hw.exact.extend hle, ⟨hw.limited.bitmap, hw.limited.server, hw.limited.target⟩⟩

theorem WellFormed.nfs4LockSlot (hw : tbl.WellFormed) (hlt : slotid.toNat < tbl.maxSlots.toNat) (i : Nat) :
    (tbl.nfs4LockSlot i slotid).WellFormed :=
  ⟨hw.numbered.congr (slotNr_modifySlot fun _ _ => rfl) rfl, hw.exact.nfs4LockSlot hlt hw.numbered.le i,
    ⟨hw.limited.bitmap, hw.limited.server, hw.limited.target⟩⟩

/-- After a free, `highest_used_slotid` is that of the slots still in use. -/
theorem WellFormed.nfs4FreeSlot (hw : tbl.WellFormed) (slotid : U32) : (tbl.nfs4FreeSlot slotid).WellFormed := by
  obtain ⟨-, hslots, hsize, hmax, hserver, htarget⟩ := freeSlot_rest tbl slotid
  refine ⟨hw.numbered.congr (congrArg _ hslots) hsize, hw.exact.nfs4FreeSlot slotid, ?_⟩
  exact ⟨hmax ▸ hw.limited.bitmap, hmax ▸ hserver ▸ hw.limited.server, hmax ▸ htarget ▸ hw.limited.target⟩

/-- An error, or a free slot up to the limit, now in use. -/
theorem allocSlot_cases (hn : tbl.Numbered) (hmax : tbl.maxSlotid.toNat ≤ 1023) (mem : Nat) :
    ∃ m, tbl.maxSlots.toNat + m ≤ 1024 ∧ ((∃ e, tbl.nfs4AllocSlot mem = (tbl.extend m 1, .error e)) ∨
        ∃ slotid, slotid.toNat ≤ tbl.maxSlotid.toNat ∧ slotid.toNat ∉ tbl.usedSlots ∧
          slotid.toNat < tbl.maxSlots.toNat + m ∧
          tbl.nfs4AllocSlot mem = ((tbl.extend m 1).nfs4LockSlot slotid.toNat slotid, .ok slotid)) := by
  have hsize : (tbl.maxSlotid + 1).toNat = tbl.maxSlotid.toNat + 1 := toNat_add_small (m := 1) (by omega)
  have hbit := findFirstZeroBit_le tbl.usedSlots (tbl.maxSlotid.toNat + 1)
  unfold nfs4AllocSlot
  rw [hsize]
  generalize hfirst : findFirstZeroBit tbl.usedSlots (tbl.maxSlotid.toNat + 1) = first at hbit
  have hnat : (ofNat 32 first).toNat = first := by rw [toNat_ofNat, Nat.mod_eq_of_lt (by omega)]
  dsimp only
  split
  next hle =>
    rw [le_def, hnat] at hle
    have hfree : first ∉ tbl.usedSlots := hfirst ▸ findFirstZeroBit_notMem (hfirst ▸ Nat.lt_succ_of_le hle)
    rw [← hnat] at hfree hle
    generalize ofNat 32 first = slotid at hfree hle
    obtain ⟨m, htbl, hbound, hok⟩ := findOrCreateSlot_spec hn mem (hle.trans_lt (Nat.lt_succ_of_le hmax)) 1
    refine ⟨m, hbound, ?_⟩
    split
    next tbl' i heq =>
      rw [heq] at htbl hok
      obtain ⟨rfl, hlt⟩ := hok i rfl
      exact .inr ⟨slotid, hle, hfree, hlt, by rw [show tbl' = _ from htbl]⟩
    next tbl' e heq =>
      rw [heq] at htbl
      exact .inl ⟨e, by rw [show tbl' = _ from htbl]⟩
  · exact ⟨0, hn.le, .inl ⟨_, by rw [extend_zero]⟩⟩

theorem WellFormed.nfs4AllocSlot (hw : tbl.WellFormed) (mem : Nat) : (tbl.nfs4AllocSlot mem).1.WellFormed := by
  obtain ⟨m, hle, ⟨e, heq⟩ | ⟨slotid, -, -, hlt, heq⟩⟩ := allocSlot_cases hw.numbered hw.limited.bitmap mem
  · rw [heq]
    exact hw.extend hle
  · rw [heq]
    have hmax : (tbl.extend m 1).maxSlots.toNat = tbl.maxSlots.toNat + m := toNat_add_small (by omega)
    exact (hw.extend hle).nfs4LockSlot (hmax ▸ hlt) _

theorem WellFormed.nfs4LookupSlot (hw : tbl.WellFormed) (mem : Nat) (slotid : U32) :
    (tbl.nfs4LookupSlot mem slotid).1.WellFormed ∧
      ∀ i, (tbl.nfs4LookupSlot mem slotid).2 = .ok i → slotid.toNat < (tbl.nfs4LookupSlot mem slotid).1.maxSlots.toNat := by
  unfold SlotTable.nfs4LookupSlot
  split
  next hle =>
    have hid : slotid.toNat < 1024 := (le_def.mp hle).trans_lt (Nat.lt_succ_of_le hw.limited.bitmap)
    obtain ⟨m, htbl, hbound, hok⟩ := findOrCreateSlot_spec hw.numbered mem hid 0
    rw [htbl]
    refine ⟨hw.extend hbound, fun i hi => ?_⟩
    have hmax : (tbl.extend m 0).maxSlots.toNat = tbl.maxSlots.toNat + m := toNat_add_small (by omega)
    exact hmax ▸ (hok i hi).2
  · exact ⟨hw, fun i hi => by cases hi⟩

theorem WellFormed.lookupAndLock (hw : tbl.WellFormed) (mem : Nat) (slotid : U32) : (tbl.lookupAndLock mem slotid).WellFormed := by
  obtain ⟨hw', hlt⟩ := hw.nfs4LookupSlot mem slotid
  unfold SlotTable.lookupAndLock
  generalize tbl.nfs4LookupSlot mem slotid = result at hw' hlt ⊢
  obtain ⟨tbl', e | i⟩ := result
  · exact hw'
  · dsimp only [nfs4TryToLockSlot]
    split
    · exact hw'
    · exact hw'.nfs4LockSlot (hlt i rfl) i

/-! ### The size of the table -/

theorem Numbered.nfs4ShrinkSlotTable (hn : tbl.Numbered) (newsize : U32) : (tbl.nfs4ShrinkSlotTable newsize).Numbered ∧
    (tbl.nfs4ShrinkSlotTable newsize).maxSlots.toNat = min tbl.maxSlots.toNat newsize.toNat := by
  have hle := hn.le
  unfold SlotTable.nfs4ShrinkSlotTable
  split
  next hkeep => exact ⟨hn, (min_eq_left (le_def.mp hkeep)).symm⟩
  next hshrink =>
    have hlt : newsize.toNat < tbl.maxSlots.toNat := lt_def.mp (BitVec.not_le.mp hshrink)
    have hmax : (tbl.maxSlots - ofNat 32 (tbl.slots.length - newsize.toNat)).toNat = newsize.toNat := by
      rw [hn.length]
      have hnat : (ofNat 32 (tbl.maxSlots.toNat - newsize.toNat)).toNat = tbl.maxSlots.toNat - newsize.toNat := by
        rw [toNat_ofNat, Nat.mod_eq_of_lt (by omega)]
      rw [BitVec.toNat_sub_of_le (by rw [le_def, hnat]; omega), hnat]
      omega
    refine ⟨⟨?_, ?_⟩, hmax.trans (min_eq_right hlt.le).symm⟩
    · rw [hmax, map_take, hn.numbers, take_range, min_eq_left hlt.le]
    · rw [hmax]
      omega

theorem limited_setMaxSlotidLocked (tbl : SlotTable) (target : U32) : (tbl.nfs41SetMaxSlotidLocked target).Limited := by
  have hmin : (minU32 (nfs4MaxSlotTable - 1) target).toNat ≤ 1023 := by
    unfold minU32
    split
    · decide
    next hge =>
      rw [BitVec.not_lt, le_def] at hge
      exact hge
  unfold nfs41SetMaxSlotidLocked
  simp only [lt_def]
  constructor <;> dsimp only <;> split_ifs <;> omega

theorem Numbered.nfs41SetServerSlotidLocked (hn : tbl.Numbered) (highest : U32) :
    (tbl.nfs41SetServerSlotidLocked highest).Numbered := by
  unfold SlotTable.nfs41SetServerSlotidLocked
  split
  · exact hn
  · exact (hn.nfs4ShrinkSlotTable (highest + 1)).1.congr rfl rfl

theorem Exact.nfs41SetServerSlotidLocked (he : tbl.Exact) (hn : tbl.Numbered) {highest : U32} (hle : highest.toNat ≤ 1023) :
    (tbl.nfs41SetServerSlotidLocked highest).Exact := by
  unfold SlotTable.nfs41SetServerSlotidLocked
  split
  · exact he
  next hpass =>
    obtain ⟨-, hused⟩ := not_or.mp hpass
    have hsize : (highest + 1).toNat = highest.toNat + 1 := toNat_add_small (m := 1) (by omega)
    obtain ⟨husedEq, hhighestEq, -, -⟩ := tbl.shrinkSlotTable_sameUse (highest + 1)
    refine he.congr husedEq hhighestEq fun i hi => ?_
    rw [(hn.nfs4ShrinkSlotTable (highest + 1)).2, hsize]
    have htop := le_def.mp (BitVec.not_lt.mp hused)
    have hi' := he.le i hi
    exact lt_min (he.lt i hi) (by omega)

theorem minU32_toNat_le (x : U32) : (minU32 x (nfs4MaxSlotTable - 1)).toNat ≤ 1023 := by
  unfold minU32
  split
  next hlt =>
    exact hlt.le
  · decide

theorem setTargetSlotidLocked_rest (tbl : SlotTable) (target : U32) :
    (tbl.nfs41SetTargetSlotidLocked target).slots = tbl.slots ∧
    (tbl.nfs41SetTargetSlotidLocked target).maxSlots = tbl.maxSlots := by
  unfold nfs41SetTargetSlotidLocked
  split <;> exact ⟨rfl, rfl⟩

theorem numbered_exact_setTargetSlotidLocked (hn : tbl.Numbered) (he : tbl.Exact) (target : U32) :
    (tbl.nfs41SetTargetSlotidLocked target).Numbered ∧ (tbl.nfs41SetTargetSlotidLocked target).Exact := by
  obtain ⟨hslots, hmax⟩ := tbl.setTargetSlotidLocked_rest target
  obtain ⟨hused, hhigh, -, -⟩ := tbl.setTargetSlotidLocked_sameUse target
  exact ⟨hn.congr (congrArg _ hslots) hmax, he.congr hused hhigh (hmax.symm ▸ he.lt)⟩

theorem wellFormed_setMaxSlotidLocked (hn : tbl.Numbered) (he : tbl.Exact) (target : U32) :
    (tbl.nfs41SetMaxSlotidLocked target).WellFormed :=
  ⟨hn.congr rfl rfl, he.congr rfl rfl he.lt, limited_setMaxSlotidLocked tbl target⟩

theorem WellFormed.assignSlot (hw : tbl.WellFormed) (slotid : U32) : (tbl.assignSlot slotid).WellFormed := by
  refine hw.modifySlot ?_
  exact fun _ _ => rfl

/-! ### Setting a table up -/

theorem toNat_sub_one (h : 1 ≤ x.toNat) : (x - 1).toNat = x.toNat - 1 :=
  BitVec.toNat_sub_of_le (le_def.mpr (show (1 : U32).toNat ≤ x.toNat from h))

theorem Numbered.nfs4GrowSlotTable (hn : tbl.Numbered) (hpos : 1 ≤ maxReqs.toNat) (hle : maxReqs.toNat ≤ 1024)
    (mem : Nat) (ivalue : U32) : ∃ m, (tbl.nfs4GrowSlotTable mem maxReqs ivalue).1 = tbl.extend m ivalue ∧
      tbl.maxSlots.toNat + m ≤ 1024 := by
  unfold SlotTable.nfs4GrowSlotTable
  split
  · exact ⟨0, (extend_zero tbl ivalue).symm, hn.le⟩
  · have hid : (maxReqs - 1).toNat < 1024 := by
      rw [toNat_sub_one hpos]
      exact (Nat.sub_lt hpos Nat.one_pos).trans_le hle
    obtain ⟨m, htbl, hbound, -⟩ := findOrCreateSlot_spec hn mem hid ivalue
    refine ⟨m, ?_, hbound⟩
    generalize tbl.nfs4FindOrCreateSlot mem (maxReqs - 1) ivalue = result at htbl
    obtain ⟨tbl', e | i⟩ := result <;> exact htbl

theorem Numbered.nfs4ResetSlotTable (hn : tbl.Numbered) (serverHighestSlotid ivalue : U32) :
    (tbl.nfs4ResetSlotTable serverHighestSlotid ivalue).Numbered := by
  refine (hn.nfs4ShrinkSlotTable (serverHighestSlotid + 1)).1.congr ?_ rfl
  show List.map _ (List.map _ _) = _
  rw [List.map_map]
  rfl

/-- The table grows, and is reset if there was memory. -/
theorem reallocSlotTable_cases (hn : tbl.Numbered) (hpos : 1 ≤ maxReqs.toNat) (mem : Nat) (ivalue : U32) :
    let tbl' := (tbl.nfs4ReallocSlotTable mem maxReqs ivalue).1
    ∃ m, tbl.maxSlots.toNat + m ≤ 1024 ∧ (tbl' = tbl.extend m ivalue ∨
      (∃ highest, tbl' = (tbl.extend m ivalue).nfs4ResetSlotTable highest ivalue) ∧ tbl'.Numbered ∧ tbl'.Limited ∧
        tbl'.highestUsedSlotid = noSlot ∧ tbl'.usedSlots = tbl.usedSlots) := by
  unfold nfs4ReallocSlotTable
  dsimp only
  have hreqs : 1 ≤ (if nfs4MaxSlotTable < maxReqs then nfs4MaxSlotTable else maxReqs).toNat ∧
      (if nfs4MaxSlotTable < maxReqs then nfs4MaxSlotTable else maxReqs).toNat ≤ 1024 := by
    split
    · decide
    next hge => exact ⟨hpos, le_def.mp (BitVec.not_lt.mp hge)⟩
  generalize (if nfs4MaxSlotTable < maxReqs then nfs4MaxSlotTable else maxReqs) = reqs at hreqs ⊢
  obtain ⟨m, htbl, hbound⟩ := hn.nfs4GrowSlotTable hreqs.1 hreqs.2 mem ivalue
  refine ⟨m, hbound, ?_⟩
  generalize tbl.nfs4GrowSlotTable mem reqs ivalue = result at htbl ⊢
  obtain ⟨tbl', _ | _⟩ := result
  all_goals obtain rfl : tbl' = tbl.extend m ivalue := htbl
  · exact .inl rfl
  · refine .inr ⟨⟨_, rfl⟩, (hn.extend hbound).nfs4ResetSlotTable _ _, ⟨?_, le_rfl, le_rfl⟩, rfl, ?_⟩
    · show (reqs - 1).toNat ≤ 1023
      rw [toNat_sub_one hreqs.1]
      exact Nat.sub_le_of_le_add hreqs.2
    · exact ((tbl.extend m ivalue).shrinkSlotTable_sameUse _).used_eq

theorem wellFormed_empty : ({} : SlotTable).WellFormed where
  numbered := ⟨rfl, Nat.zero_le _⟩
  exact := ⟨⟨fun _ => rfl, fun _ => rfl⟩, fun h => absurd rfl h, fun i hi => absurd hi (notMem_empty i),
    fun i hi => absurd hi (notMem_empty i)⟩
  limited := ⟨by decide, le_rfl, le_rfl⟩

theorem WellFormed.nfs4ReallocSlotTable (hw : tbl.WellFormed) (hused : tbl.usedSlots = ∅)
    (hpos : 1 ≤ maxReqs.toNat) (mem : Nat) (ivalue : U32) : (tbl.nfs4ReallocSlotTable mem maxReqs ivalue).1.WellFormed := by
  obtain ⟨m, hbound, heq | ⟨-, hn, hl, hhigh, husedEq⟩⟩ := reallocSlotTable_cases hw.numbered hpos mem ivalue
  · exact heq ▸ hw.extend hbound
  · rw [hused] at husedEq
    refine ⟨hn, ⟨⟨fun _ => husedEq, fun _ => hhigh⟩, fun h => absurd hhigh h, ?_, ?_⟩, hl⟩ <;>
      rw [husedEq] <;> exact fun i hi => absurd hi (notMem_empty i)

end SlotTable

namespace ForeChannel
variable {s t : ForeChannel}

open SlotTable

theorem wellFormed_setTargetSlotid (hw : s.tbl.WellFormed) (target : U32) : (s.nfs41SetTargetSlotid target).tbl.WellFormed := by
  obtain ⟨hn, he⟩ := numbered_exact_setTargetSlotidLocked hw.numbered hw.exact target
  exact wellFormed_setMaxSlotidLocked hn he target

theorem wellFormed_updateTargetSlotid (hw : s.tbl.WellFormed) (generation : Nat) (highest target : U32) :
    (s.nfs41UpdateTargetSlotid generation highest target).tbl.WellFormed := by
  have hhigh := minU32_toNat_le highest
  unfold nfs41UpdateTargetSlotid
  dsimp only
  generalize minU32 target (nfs4MaxSlotTable - 1) = top
  generalize minU32 highest (nfs4MaxSlotTable - 1) = server at hhigh ⊢
  have hset : ∀ tbl : SlotTable, tbl.Numbered → tbl.Exact →
      ((if tbl.generation = generation then tbl.nfs41SetServerSlotidLocked server else tbl).nfs41SetMaxSlotidLocked
        top).WellFormed := by
    intro tbl hn he
    split
    · exact wellFormed_setMaxSlotidLocked (hn.nfs41SetServerSlotidLocked server) (he.nfs41SetServerSlotidLocked hn hhigh) top
    · exact wellFormed_setMaxSlotidLocked hn he top
  by_cases hout : (s.nfs41IsOutlierTargetSlotid top).2
  · rw [if_pos hout]
    exact hset _ hw.numbered hw.exact
  · rw [if_neg hout]
    obtain ⟨hn, he⟩ := numbered_exact_setTargetSlotidLocked hw.numbered hw.exact top
    exact hset _ hn he

/-- The operations keep `P`. -/
structure Kept (P : SlotTable → Prop) : Prop where
  alloc : ∀ {tbl}, P tbl → ∀ mem, P (tbl.nfs4AllocSlot mem).1
  free : ∀ {tbl}, P tbl → ∀ slotid, P (tbl.nfs4FreeSlot slotid)
  lookup : ∀ {tbl}, P tbl → ∀ mem slotid, P (tbl.lookupAndLock mem slotid)
  assign : ∀ {tbl}, P tbl → ∀ slotid, P (tbl.assignSlot slotid)
  setTarget : ∀ {s : ForeChannel}, P s.tbl → ∀ target, P (s.nfs41SetTargetSlotid target).tbl
  update : ∀ {s : ForeChannel}, P s.tbl → ∀ generation highest target, P (s.nfs41UpdateTargetSlotid generation highest target).tbl

namespace Kept
variable {P : SlotTable → Prop}

theorem nfs41WakeSlotTable (hk : Kept P) (last : Nat) : ∀ (rounds : List Nat) {tbl : SlotTable}, P tbl →
    P (tbl.nfs41WakeSlotTable rounds last)
  | [], tbl, hp => by
    have hp' := hk.alloc hp last
    unfold SlotTable.nfs41WakeSlotTable
    generalize tbl.nfs4AllocSlot last = result at hp' ⊢
    obtain ⟨tbl', e | slotid⟩ := result
    · exact hp'
    · exact hk.free hp' slotid
  | mem :: rounds, tbl, hp => by
    have hp' := hk.alloc hp mem
    unfold SlotTable.nfs41WakeSlotTable
    generalize tbl.nfs4AllocSlot mem = result at hp' ⊢
    obtain ⟨tbl', e | slotid⟩ := result
    · exact hp'
    · exact hk.nfs41WakeSlotTable last rounds (hk.assign hp' slotid)

theorem tableStep (hk : Kept P) (hp : P s.tbl) {e : TableEvent} (hs : s.tableStep e = some t) : P t.tbl := by
  cases e with
  | allocSlot mem =>
    cases hs
    exact hk.alloc hp mem
  | freeSlot slotid =>
    obtain ⟨-, rfl⟩ := of_guard_some hs
    exact hk.free hp slotid
  | lookupAndLock mem slotid =>
    cases hs
    exact hk.lookup hp mem slotid
  | wakeAndAssignSlot slotid taken =>
    obtain ⟨-, rfl⟩ := of_guard_some hs
    unfold nfs41WakeAndAssignSlot
    split_ifs
    · exact hp
    · exact hk.assign hp slotid
    · exact hp
  | wakeSlotTable rounds last =>
    cases hs
    exact hk.nfs41WakeSlotTable last rounds hp
  | setTargetSlotid target rounds last =>
    cases hs
    exact hk.nfs41WakeSlotTable last rounds (hk.setTarget hp target)
  | updateTargetSlotid slotid highest target rounds last =>
    obtain ⟨-, hs⟩ := of_guard hs
    split at hs
    next slot _ =>
      cases hs
      exact hk.nfs41WakeSlotTable last rounds (hk.update hp slot.generation highest target)
    · cases hs

end Kept

theorem kept_wellFormed : Kept WellFormed where
  alloc hw := hw.nfs4AllocSlot
  free hw := hw.nfs4FreeSlot
  lookup hw := hw.lookupAndLock
  assign hw := hw.assignSlot
  setTarget := wellFormed_setTargetSlotid
  update := wellFormed_updateTargetSlotid

/-- A slot table that was set up for at least one request stays well formed, whatever is done to it. -/
theorem wellFormed_of_run (mem : Nat) (maxReqs ivalue : U32) (hreqs : 1 ≤ maxReqs.toNat) (events : List TableEvent)
    (s : ForeChannel)
    (hrun : exec tableStep { tbl := (SlotTable.nfs4ReallocSlotTable mem {} maxReqs ivalue).1 } events = some s) :
    s.tbl.slots.map (fun slot => slot.slotNr.toNat) = List.range s.tbl.maxSlots.toNat ∧
    (s.tbl.highestUsedSlotid = noSlot ↔ s.tbl.usedSlots = ∅) ∧
    (s.tbl.highestUsedSlotid ≠ noSlot → s.tbl.usedSlots.max = s.tbl.highestUsedSlotid.toNat) ∧
    (∀ i ∈ s.tbl.usedSlots, i < s.tbl.maxSlots.toNat) ∧
    s.tbl.maxSlotid.toNat ≤ min 1023 (min s.tbl.serverHighestSlotid.toNat s.tbl.targetHighestSlotid.toNat) := by
  have hw : s.tbl.WellFormed := exec_invariant (I := fun s => s.tbl.WellFormed)
    (fun _ _ _ hw hs => kept_wellFormed.tableStep hw hs) (wellFormed_empty.nfs4ReallocSlotTable rfl hreqs mem ivalue) hrun
  refine ⟨hw.numbered.numbers, hw.exact.none_iff, fun hsome => ?_, hw.exact.lt, ?_⟩
  · refine le_antisymm (Finset.max_le fun i hi => ?_) (le_max (hw.exact.mem hsome))
    exact WithBot.coe_le_coe.mpr (hw.exact.le i hi)
  · exact le_min hw.limited.bitmap (le_min hw.limited.server hw.limited.target)

def shrinkAndGrow : List TableEvent :=
  [.allocSlot 0, .allocSlot 0, .setTargetSlotid 1 [] 0, .freeSlot 1, .allocSlot 0, .updateTargetSlotid 1 1 1 [] 0,
    .lookupAndLock 0 3, .updateTargetSlotid 1 9 9 [] 0, .freeSlot 0, .allocSlot 0, .updateTargetSlotid 0 9 9 [1, 1] 1]

theorem wellFormed_of_run_shrinkAndGrow : ∃ s, exec tableStep
      { tbl := (SlotTable.nfs4ReallocSlotTable 4 {} 4 1).1 } shrinkAndGrow = some s ∧ s.tbl.maxSlots = 5 ∧
    s.tbl.slots.map (fun slot => slot.slotNr.toNat) = List.range s.tbl.maxSlots.toNat ∧
    (∀ i ∈ s.tbl.usedSlots, i < s.tbl.maxSlots.toNat) := by
  refine exists_exec (P := fun s => s.tbl.maxSlots = 5) (by decide) fun s hrun hmax => ?_
  obtain ⟨hnums, -, -, hlt, -⟩ := wellFormed_of_run 4 4 1 (by decide) shrinkAndGrow s hrun
  exact ⟨hmax, hnums, hlt⟩

end ForeChannel

end Mynfs
