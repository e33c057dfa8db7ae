import Mynfs.Theorems.SlotTable

/-! Slot numbers stay inside `used_slots`, unless a CREATE_SESSION reply gives the back channel no slot at all. -/

namespace Mynfs

open Option Machine

namespace SlotTable
variable {tbl tbl' : SlotTable} {slotid seqInit : U32} {m mem : Nat}

/-! ### Inside the bitmap -/

/-- Slots that can be looked up, locked or allocated have a bit, and one that is allocated was not in use. -/
structure InBitmap (tbl : SlotTable) : Prop where
  lookup : ∀ mem slotid i, (tbl.nfs4LookupSlot mem slotid).2 = .ok i → slotid.toNat < 1024
  locked : ∀ i ∈ tbl.usedSlots, i < 1024
  alloc : ∀ mem slotid, (tbl.nfs4AllocSlot mem).2 = .ok slotid → slotid.toNat < 1024 ∧ slotid.toNat ∉ tbl.usedSlots

/-- The numbers fit into the bitmap. -/
structure Bounded (tbl : SlotTable) : Prop where
  numbered : tbl.Numbered
  max_le : tbl.maxSlotid.toNat ≤ 1023
  used_lt : ∀ i ∈ tbl.usedSlots, i < 1024

namespace Bounded

theorem inBitmap (hb : tbl.Bounded) : tbl.InBitmap := by
  refine ⟨fun mem slotid i hi => ?_, hb.used_lt, fun mem slotid hid => ?_⟩
  · unfold nfs4LookupSlot at hi
    split at hi
    next hle => exact (BitVec.le_def.mp hle).trans_lt (Nat.lt_succ_of_le hb.max_le)
    · cases hi
  · obtain ⟨m, -, ⟨e, heq⟩ | ⟨slotid', hle, hfree, -, heq⟩⟩ := allocSlot_cases hb.numbered hb.max_le mem
    · rw [heq] at hid
      cases hid
    · rw [heq] at hid
      cases hid
      exact ⟨hle.trans_lt (Nat.lt_succ_of_le hb.max_le), hfree⟩

theorem empty : ({} : SlotTable).Bounded :=
  ⟨wellFormed_empty.numbered, wellFormed_empty.limited.bitmap, fun i hi => absurd hi (Finset.notMem_empty i)⟩

section
variable (hb : tbl.Bounded)
include hb

theorem congr (hn : tbl'.Numbered) (hmax : tbl'.maxSlotid = tbl.maxSlotid)
    (hused : tbl'.usedSlots ⊆ tbl.usedSlots) : tbl'.Bounded :=
  ⟨hn, hmax ▸ hb.max_le, fun i hi => hb.used_lt i (hused hi)⟩

theorem extend (hle : tbl.maxSlots.toNat + m ≤ 1024) : (tbl.extend m seqInit).Bounded :=
  hb.congr (hb.numbered.extend hle) rfl (Finset.Subset.refl _)

theorem nfs4LockSlot (hid : slotid.toNat < 1024) (i : Nat) : (tbl.nfs4LockSlot i slotid).Bounded := by
  refine ⟨hb.numbered.congr (slotNr_modifySlot fun _ _ => rfl) rfl, hb.max_le, fun j hj => ?_⟩
  rcases Finset.mem_insert.mp hj with rfl | hj
  · exact hid
  · exact hb.used_lt j hj

theorem nfs4FreeSlot (slotid : U32) : (tbl.nfs4FreeSlot slotid).Bounded := by
  obtain ⟨hused, hslots, hsize, hmax, -⟩ := freeSlot_rest tbl slotid
  exact hb.congr (hb.numbered.congr (congrArg _ hslots) hsize) hmax (hused ▸ Finset.erase_subset _ _)

theorem nfs4AllocSlot (mem : Nat) : (tbl.nfs4AllocSlot mem).1.Bounded := by
  obtain ⟨m, hle, ⟨e, heq⟩ | ⟨slotid, hmax, -, -, heq⟩⟩ := allocSlot_cases hb.numbered hb.max_le mem
  · rw [heq]
    exact hb.extend hle
  · rw [heq]
    exact (hb.extend hle).nfs4LockSlot (hmax.trans_lt (Nat.lt_succ_of_le hb.max_le)) _

theorem lookupAndLock (mem : Nat) (slotid : U32) : (tbl.lookupAndLock mem slotid).Bounded := by
  unfold SlotTable.lookupAndLock nfs4LookupSlot
  split_ifs with hle
  · have hid : slotid.toNat < 1024 := (BitVec.le_def.mp hle).trans_lt (Nat.lt_succ_of_le hb.max_le)
    obtain ⟨m, htbl, hbound, -⟩ := findOrCreateSlot_spec hb.numbered mem hid 0
    generalize tbl.nfs4FindOrCreateSlot mem slotid 0 = result at htbl
    obtain ⟨tbl', e | i⟩ := result
    all_goals
      obtain rfl : tbl' = tbl.extend m 0 := htbl
      have hb' : (tbl.extend m 0).Bounded := hb.extend hbound
    · exact hb'
    · dsimp only [nfs4TryToLockSlot]
      split
      · exact hb'
      · exact hb'.nfs4LockSlot hid i
  · exact hb

theorem assignSlot (slotid : U32) : (tbl.assignSlot slotid).Bounded := by
  refine hb.congr (hb.numbered.congr ?_ rfl) rfl (Finset.Subset.refl _)
  exact slotNr_modifySlot fun _ _ => rfl

theorem nfs4ShrinkSlotTable (newsize : U32) : (tbl.nfs4ShrinkSlotTable newsize).Bounded := by
  refine hb.congr (hb.numbered.nfs4ShrinkSlotTable newsize).1 ?_ (tbl.shrinkSlotTable_sameUse newsize).used_eq.subset
  unfold SlotTable.nfs4ShrinkSlotTable
  split <;> rfl

end

theorem nfs41SetMaxSlotidLocked (hn : tbl.Numbered) (hused : ∀ i ∈ tbl.usedSlots, i < 1024) (target : U32) :
    (tbl.nfs41SetMaxSlotidLocked target).Bounded :=
  ⟨hn.congr rfl rfl, (limited_setMaxSlotidLocked tbl target).bitmap, hused⟩

theorem nfs4ReallocSlotTable (hb : tbl.Bounded) {maxReqs : U32} (hpos : 1 ≤ maxReqs.toNat) (mem : Nat) (ivalue : U32) :
    (tbl.nfs4ReallocSlotTable mem maxReqs ivalue).1.Bounded := by
  obtain ⟨m, hbound, heq | ⟨-, hn, hl, -, hused⟩⟩ := reallocSlotTable_cases hb.numbered hpos mem ivalue
  · exact heq ▸ hb.extend hbound
  · exact ⟨hn, hl.bitmap, fun i hi => hb.used_lt i (hused ▸ hi)⟩

end Bounded

end SlotTable

namespace ForeChannel
variable {s t : ForeChannel}

open SlotTable

theorem bounded_setTargetSlotid (hb : s.tbl.Bounded) (target : U32) : (s.nfs41SetTargetSlotid target).tbl.Bounded := by
  obtain ⟨hslots, hmax⟩ := s.tbl.setTargetSlotidLocked_rest target
  refine Bounded.nfs41SetMaxSlotidLocked (hb.numbered.congr (congrArg _ hslots) hmax) ?_ target
  rw [(s.tbl.setTargetSlotidLocked_sameUse target).used_eq]
  exact hb.used_lt

theorem bounded_updateTargetSlotid (hb : s.tbl.Bounded) (generation : Nat) (highest target : U32) :
    (s.nfs41UpdateTargetSlotid generation highest target).tbl.Bounded := by
  unfold nfs41UpdateTargetSlotid
  dsimp only
  generalize minU32 target (nfs4MaxSlotTable - 1) = top
  generalize minU32 highest (nfs4MaxSlotTable - 1) = server
  have hset : ∀ tbl : SlotTable, tbl.Numbered → tbl.usedSlots = s.tbl.usedSlots →
      ((if tbl.generation = generation then tbl.nfs41SetServerSlotidLocked server else tbl).nfs41SetMaxSlotidLocked
        top).Bounded := by
    intro tbl hn hused
    split
    · refine Bounded.nfs41SetMaxSlotidLocked (hn.nfs41SetServerSlotidLocked server) ?_ top
      rw [(tbl.setServerSlotidLocked_sameUse server).used_eq, hused]
      exact hb.used_lt
    · exact Bounded.nfs41SetMaxSlotidLocked hn (hused ▸ hb.used_lt) top
  by_cases hout : (s.nfs41IsOutlierTargetSlotid top).2
  · rw [if_pos hout]
    exact hset _ hb.numbered rfl
  · rw [if_neg hout]
    obtain ⟨hslots, hmax⟩ := s.tbl.setTargetSlotidLocked_rest top
    exact hset _ (hb.numbered.congr (congrArg _ hslots) hmax) (s.tbl.setTargetSlotidLocked_sameUse top).used_eq

theorem kept_bounded : Kept Bounded where
  alloc hb := hb.nfs4AllocSlot
  free hb := hb.nfs4FreeSlot
  lookup hb := hb.lookupAndLock
  assign hb := hb.assignSlot
  setTarget := bounded_setTargetSlotid
  update := bounded_updateTargetSlotid

theorem bounded_reallocSlotTable (hb : s.tbl.Bounded) {maxReqs : U32} (hreqs : maxReqs ≠ 0) (mem : Nat) (ivalue : U32) :
    (s.nfs4ReallocSlotTable mem maxReqs ivalue).1.tbl.Bounded := by
  have hpos : 1 ≤ maxReqs.toNat := Nat.one_le_iff_ne_zero.mpr fun h => hreqs (BitVec.eq_of_toNat_eq h)
  have hb' := hb.nfs4ReallocSlotTable hpos mem ivalue
  unfold ForeChannel.nfs4ReallocSlotTable
  generalize s.tbl.nfs4ReallocSlotTable mem maxReqs ivalue = result at hb' ⊢
  obtain ⟨tbl', _ | _⟩ := result <;> exact hb'

end ForeChannel

/-! ### CREATE_SESSION -/

theorem maxReqs_of_verifyFore {sent rcvd attrs : ChannelAttrs} (h : nfs4VerifyForeChannelAttrs sent rcvd = some attrs) :
    attrs.maxReqs ≠ 0 := by
  unfold nfs4VerifyForeChannelAttrs at h
  split_ifs at h with _ _ hzero _
  · cases h
    exact (by decide : nfs4MaxSlotTable ≠ 0)
  · cases h
    exact hzero

theorem verifyChannelAttrs_spec {args res attrs : CreateSession} (h : nfs4VerifyChannelAttrs args res = some attrs) :
    attrs.fcAttrs.maxReqs ≠ 0 ∧ attrs.backChan = res.backChan ∧ attrs.bcAttrs = res.bcAttrs := by
  unfold nfs4VerifyChannelAttrs at h
  split at h
  · cases h
  next fcAttrs hfore =>
    obtain ⟨-, rfl⟩ := of_guard_some h
    exact ⟨maxReqs_of_verifyFore hfore, rfl, rfl⟩

/-- An accepted CREATE_SESSION reply with a back channel gives it at least one slot. -/
def GivesBackSlots : ChannelsEvent → Prop
  | .createSession args res _ _ =>
    (nfs4VerifyChannelAttrs args res).isSome → res.backChan → res.bcAttrs.maxReqs ≠ 0
  | .fore _ | .back _ => True

namespace Channels
variable {s t : Channels}

open SlotTable ForeChannel

/-- Both channels are bounded. -/
structure Bounded (s : Channels) : Prop where
  fc : s.fc.tbl.Bounded
  bc : s.bc.tbl.Bounded

theorem Bounded.nfs4ReleaseSessionSlotTables (hb : s.Bounded) : s.nfs4ReleaseSessionSlotTables.Bounded :=
  ⟨hb.fc.nfs4ShrinkSlotTable 0, hb.bc.nfs4ShrinkSlotTable 0⟩

theorem Bounded.nfs4SetupSessionSlotTables (hb : s.Bounded) (hfore : s.fcAttrs.maxReqs ≠ 0)
    (hback : s.backChan → s.bcAttrs.maxReqs ≠ 0) (foreMem backMem : Nat) :
    (s.nfs4SetupSessionSlotTables foreMem backMem).Bounded := by
  have hfc := bounded_reallocSlotTable hb.fc hfore foreMem 1
  unfold Channels.nfs4SetupSessionSlotTables
  generalize s.fc.nfs4ReallocSlotTable foreMem s.fcAttrs.maxReqs 1 = result at hfc ⊢
  obtain ⟨fc, _ | _⟩ := result
  · exact ⟨hfc, hb.bc⟩
  · dsimp only
    cases hflag : s.backChan with
    | false => exact ⟨hfc, hb.bc⟩
    | true =>
      have hbc := bounded_reallocSlotTable hb.bc (hback hflag) backMem 0
      generalize s.bc.nfs4ReallocSlotTable backMem s.bcAttrs.maxReqs 0 = result at hbc ⊢
      obtain ⟨bc, _ | _⟩ := result
      · rw [if_neg (by decide)]
        dsimp only
        split
        · exact Bounded.nfs4ReleaseSessionSlotTables ⟨hfc, hbc⟩
        · exact ⟨hfc, hbc⟩
      · exact ⟨hfc, hbc⟩

/-- No step lets a table outgrow its bitmap. -/
theorem Bounded.step (hb : s.Bounded) {e : ChannelsEvent} (hback : GivesBackSlots e) (hs : s.step e = some t) : t.Bounded := by
  cases e with
  | createSession args res foreMem backMem =>
    cases hs
    unfold nfs4ProcCreateSession
    cases hverify : nfs4VerifyChannelAttrs args res with
    | none => exact hb
    | some attrs =>
      obtain ⟨hfore, hflag, hattrs⟩ := verifyChannelAttrs_spec hverify
      have hb' : (s.nfs4UpdateSession attrs).Bounded := ⟨hb.fc, hb.bc⟩
      refine hb'.nfs4SetupSessionSlotTables hfore (fun hset => ?_) foreMem backMem
      have hset' : attrs.backChan := hset
      show (if attrs.backChan then attrs.bcAttrs else s.bcAttrs).maxReqs ≠ 0
      rw [if_pos hset', hattrs]
      exact hback (by rw [hverify]; rfl) (hflag ▸ hset')
  | fore e =>
    obtain ⟨fc, hstep, rfl⟩ := map_eq_some_iff.mp hs
    exact ⟨kept_bounded.tableStep hb.fc hstep, hb.bc⟩
  | back e =>
    obtain ⟨bc, hstep, rfl⟩ := map_eq_some_iff.mp hs
    exact ⟨hb.fc, kept_bounded.tableStep hb.bc hstep⟩

/-- If every accepted CREATE_SESSION reply that sets up the back channel gives it a slot, slot numbers stay inside the
    bitmap on both channels, and no slot is allocated twice. -/
theorem inBitmap_of_run (events : List ChannelsEvent) (hback : ∀ e ∈ events, GivesBackSlots e) (s : Channels)
    (hrun : exec step {} events = some s) : s.fc.tbl.InBitmap ∧ s.bc.tbl.InBitmap := by
  have hb : s.Bounded := exec_invariant_labels (fun _ _ _ hback hb hs => hb.step hback hs) hback
    ⟨Bounded.empty, Bounded.empty⟩ hrun
  exact ⟨hb.fc.inBitmap, hb.bc.inBitmap⟩

def defaultArgs : CreateSession :=
  ⟨true, ⟨1049620, 1049480, 0, 8, 64⟩, ⟨4096, 4096, 0, 2, 16⟩⟩

theorem inBitmap_of_run_default : ∃ s, exec step {} [.createSession defaultArgs
      ⟨true, ⟨1049620, 1049480, 0, 8, 4⟩, ⟨4096, 4096, 0, 2, 1⟩⟩ 4 1, .fore (.allocSlot 0), .back (.lookupAndLock 0 0)] = some s ∧
    s.bc.tbl.usedSlots = {0} ∧ s.fc.tbl.InBitmap ∧ s.bc.tbl.InBitmap := by
  refine exists_exec (P := fun s => s.bc.tbl.usedSlots = {0}) (by decide) fun s hrun hused => ?_
  refine ⟨hused, inBitmap_of_run _ (fun e he => ?_) s hrun⟩
  simp only [List.mem_cons, List.not_mem_nil, or_false] at he
  rcases he with rfl | rfl | rfl
  · exact fun _ _ => by decide
  · trivial
  · trivial

/-- `max_slotid` becomes `0xffffffff`: a CB_SEQUENCE gets a slot beyond the bitmap, and `nfs4_alloc_slot` finds slot 0
    in use. -/
theorem outside_bitmap : ∃ s, exec step {} [.createSession defaultArgs
      ⟨true, ⟨1049620, 1049480, 0, 8, 4⟩, ⟨4096, 4096, 0, 2, 0⟩⟩ 4 1, .back (.lookupAndLock 1 0)] = some s ∧
    (∃ i, (s.bc.tbl.nfs4LookupSlot 1024 1024).2 = .ok i) ∧
    0 ∈ s.bc.tbl.usedSlots ∧ (s.bc.tbl.nfs4AllocSlot 0).2.toOption = some 0 := by
  refine exists_exec (P := fun s => (s.bc.tbl.nfs4LookupSlot 1024 1024).2.isOk ∧ 0 ∈ s.bc.tbl.usedSlots ∧
    (s.bc.tbl.nfs4AllocSlot 0).2.toOption = some 0) (by decide +kernel) fun s _ h => ⟨?_, h.2⟩
  cases hres : (s.bc.tbl.nfs4LookupSlot 1024 1024).2 with
  | ok i => exact ⟨i, rfl⟩
  | error e =>
    rw [hres] at h
    cases h.1

end Channels

/-! ### Derivatives -/

/-- `nfs41_derivative_target_slotid` of a difference, on the integers. -/
def derivative (d : Int) : Int := if d = 0 then 0 else if d < 0 then (d - 1) / 2 else (d + 1) / 2

def halfAway (d : Int) : Int := if d < 0 then -((-d + 1) / 2) else (d + 1) / 2

theorem toInt_sub_eq (x y : U32) : (x - y).toInt = if 2 ^ 31 ≤ x.toInt - y.toInt then x.toInt - y.toInt - 2 ^ 32
    else if x.toInt - y.toInt < -2 ^ 31 then x.toInt - y.toInt + 2 ^ 32 else x.toInt - y.toInt := by
  rw [BitVec.toInt_sub, Int.bmod_def]
  have hx := x.toInt_lt
  have hx' := x.le_toInt
  have hy := y.toInt_lt
  have hy' := y.le_toInt
  split_ifs <;> omega

theorem sshiftRight_one (x : U32) : (x.sshiftRight 1).toInt = x.toInt / 2 := by
  rw [BitVec.toInt_sshiftRight, Int.shiftRight_eq_div_pow]
  rfl

theorem derivative_toInt (x y : U32) : (nfs41DerivativeTargetSlotid x y).toInt =
    if (x - y).toInt = -2 ^ 31 then 2 ^ 30 - 1 else if (x - y).toInt = 2 ^ 31 - 1 then -2 ^ 30 else derivative (x - y).toInt := by
  unfold nfs41DerivativeTargetSlotid derivative
  generalize x - y = s
  have hs := s.toInt_lt
  have hs' := s.le_toInt
  have hzero : s = 0 ↔ s.toInt = 0 := ⟨fun h => h ▸ rfl, fun h => BitVec.toInt_inj.mp h⟩
  have hneg : s.slt 0 ↔ s.toInt < 0 := BitVec.slt_iff_toInt_lt
  have hone : (1 : U32).toInt = 1 := rfl
  have hsub : (s - 1).toInt = if s.toInt - 1 < -2 ^ 31 then s.toInt - 1 + 2 ^ 32 else s.toInt - 1 := by
    rw [toInt_sub_eq, hone]
    split_ifs <;> omega
  have hadd : (s + 1).toInt = if 2 ^ 31 ≤ s.toInt + 1 then s.toInt + 1 - 2 ^ 32 else s.toInt + 1 := by
    rw [BitVec.toInt_add, Int.bmod_def, hone]
    split_ifs <;> omega
  by_cases h0 : s = 0
  · rw [if_pos h0, hzero.mp h0]
    decide
  · rw [if_neg h0]
    by_cases hlt : s.slt 0
    · have hlt' := hneg.mp hlt
      rw [if_pos hlt, sshiftRight_one, hsub]
      split_ifs <;> omega
    · have hge : ¬s.toInt < 0 := fun h => hlt (hneg.mpr h)
      rw [if_neg hlt, sshiftRight_one, hadd]
      split_ifs <;> omega

theorem derivative_range (x y : U32) : -2 ^ 30 ≤ (nfs41DerivativeTargetSlotid x y).toInt ∧
    (nfs41DerivativeTargetSlotid x y).toInt < 2 ^ 30 := by
  have hs := (x - y).toInt_lt
  have hs' := (x - y).le_toInt
  rw [derivative_toInt]
  unfold derivative
  split_ifs <;> omega

theorem derivative_toInt_of_fits {x y : U32} {d : Int} (hd : (x - y).toInt = d) (hlo : -2 ^ 31 < d) (hhi : d < 2 ^ 31 - 1) :
    (nfs41DerivativeTargetSlotid x y).toInt = derivative d := by
  rw [derivative_toInt, hd, if_neg (by omega), if_neg (by omega)]

theorem toInt_target_sub {new old : U32} (hnew : new.toNat ≤ 1023) : (new - old).toInt =
    if old.toNat ≤ new.toNat + 2 ^ 31 then (new.toNat : Int) - old.toNat else (new.toNat : Int) - old.toNat + 2 ^ 32 := by
  rw [BitVec.toInt_eq_toNat_cond, BitVec.toNat_sub]
  split_ifs <;> omega

section
variable {new old : U32} (hnew : new.toNat ≤ 1023)
include hnew

/-- The derivative halves the difference as far as it fits 32 bits. -/
theorem derivative_target : (nfs41DerivativeTargetSlotid new old).toInt =
    if old.toNat < new.toNat + 2 ^ 31 then derivative ((new.toNat : Int) - old.toNat)
    else if old.toNat = new.toNat + 2 ^ 31 then 2 ^ 30 - 1
    else if old.toNat = new.toNat + 2 ^ 31 + 1 then -2 ^ 30
    else derivative ((new.toNat : Int) - old.toNat + 2 ^ 32) := by
  rw [derivative_toInt, toInt_target_sub hnew]
  split_ifs <;> first | rfl | omega

theorem derivative_target_wrapped (hle : new.toNat + 2 ^ 31 ≤ old.toNat) :
    if old.toNat = new.toNat + 2 ^ 31 + 1 then (nfs41DerivativeTargetSlotid new old).toInt = -2 ^ 30
    else 0 < (nfs41DerivativeTargetSlotid new old).toInt := by
  rw [derivative_target hnew, if_neg (not_lt.mpr hle)]
  unfold derivative
  split_ifs <;> omega

theorem derivative_exact_iff : (nfs41DerivativeTargetSlotid new old).toInt = derivative ((new.toNat : Int) - old.toNat) ↔
    old.toNat < new.toNat + 2 ^ 31 := by
  refine ⟨fun h => ?_, fun h => by rw [derivative_target hnew, if_pos h]⟩
  by_contra hge
  have hwrap := derivative_target_wrapped hnew (not_lt.mp hge)
  rw [h] at hwrap
  unfold derivative at hwrap
  split_ifs at hwrap <;> omega

theorem derivative_sign_iff : (nfs41DerivativeTargetSlotid new old).toInt.sign = ((new.toNat : Int) - old.toNat).sign ↔
    old.toNat < new.toNat + 2 ^ 31 ∨ old.toNat = new.toNat + 2 ^ 31 + 1 := by
  constructor
  · intro h
    by_contra hnot
    obtain ⟨hge, hne⟩ := not_or.mp hnot
    have hwrap := derivative_target_wrapped hnew (not_lt.mp hge)
    rw [if_neg hne] at hwrap
    rw [Int.sign_eq_one_of_pos hwrap, Int.sign_eq_neg_one_of_neg (by omega)] at h
    cases h
  · rintro (h | h)
    case inr =>
      have hwrap := derivative_target_wrapped hnew (by omega : new.toNat + 2 ^ 31 ≤ old.toNat)
      rw [if_pos h] at hwrap
      rw [hwrap, Int.sign_eq_neg_one_of_neg (by omega), Int.sign_eq_neg_one_of_neg (by omega)]
    rw [(derivative_exact_iff hnew).mpr h]
    generalize (new.toNat : Int) - old.toNat = d
    unfold derivative
    rcases lt_trichotomy d 0 with hd | hd | hd
    · rw [if_neg hd.ne, if_pos hd, Int.sign_eq_neg_one_of_neg hd, Int.sign_eq_neg_one_of_neg (by omega)]
    · rw [if_pos hd, hd]
    · rw [if_neg hd.ne', if_neg hd.le.not_gt, Int.sign_eq_one_of_pos hd, Int.sign_eq_one_of_pos (by omega)]

theorem derivative_half_iff : (nfs41DerivativeTargetSlotid new old).toInt = halfAway ((new.toNat : Int) - old.toNat) ↔
    old.toNat < new.toNat + 2 ^ 31 ∧ (old.toNat ≤ new.toNat ∨ (old.toNat - new.toNat) % 2 = 1) := by
  constructor
  · intro h
    have hfits : old.toNat < new.toNat + 2 ^ 31 := by
      by_contra hge
      have hwrap := derivative_target_wrapped hnew (not_lt.mp hge)
      rw [h] at hwrap
      unfold halfAway at hwrap
      split_ifs at hwrap <;> omega
    rw [(derivative_exact_iff hnew).mpr hfits] at h
    unfold derivative halfAway at h
    split_ifs at h <;> omega
  · rintro ⟨hfits, hround⟩
    rw [(derivative_exact_iff hnew).mpr hfits]
    unfold derivative halfAway
    split_ifs <;> omega

theorem second_derivative_exact {d : U32} (hd : -2 ^ 30 ≤ d.toInt ∧ d.toInt < 2 ^ 30) (hfits : old.toNat < new.toNat + 2 ^ 31) :
    (nfs41DerivativeTargetSlotid (nfs41DerivativeTargetSlotid new old) d).toInt =
      derivative ((nfs41DerivativeTargetSlotid new old).toInt - d.toInt) := by
  have hrange := derivative_range new old
  have hle : (nfs41DerivativeTargetSlotid new old).toInt ≤ 512 := by
    rw [(derivative_exact_iff hnew).mpr hfits]
    unfold derivative
    split_ifs <;> omega
  refine derivative_toInt_of_fits ?_ (by omega) (by omega)
  rw [toInt_sub_eq, if_neg (by omega), if_neg (by omega)]

end

namespace ForeChannel
variable {s t : ForeChannel}

def Halved (s : ForeChannel) : Prop := -2 ^ 30 ≤ s.dTarget.toInt ∧ s.dTarget.toInt < 2 ^ 30

theorem halved_zero (h : s.dTarget = 0) : s.Halved := by
  unfold Halved
  rw [h]
  decide

theorem Halved.tableStep (hh : s.Halved) {e : TableEvent} (hs : s.tableStep e = some t) : t.Halved := by
  cases e with
  | allocSlot mem | lookupAndLock mem slotid | wakeSlotTable rounds last =>
    cases hs
    exact hh
  | freeSlot slotid | wakeAndAssignSlot slotid taken =>
    obtain ⟨-, rfl⟩ := of_guard_some hs
    exact hh
  | setTargetSlotid target rounds last =>
    cases hs
    exact halved_zero rfl
  | updateTargetSlotid slotid highest target rounds last =>
    obtain ⟨-, hs⟩ := of_guard hs
    split at hs
    · cases hs
      exact derivative_range _ _
    · cases hs

theorem Halved.nfs4ReallocSlotTable (hh : s.Halved) (mem : Nat) (maxReqs ivalue : U32) :
    (s.nfs4ReallocSlotTable mem maxReqs ivalue).1.Halved := by
  unfold ForeChannel.nfs4ReallocSlotTable
  generalize s.tbl.nfs4ReallocSlotTable mem maxReqs ivalue = result
  obtain ⟨tbl, _ | _⟩ := result
  · exact hh
  · exact halved_zero rfl

end ForeChannel

namespace Channels
variable {s t : Channels}

open ForeChannel

theorem halved_step (hh : s.fc.Halved) {e : ChannelsEvent} (hs : s.step e = some t) : t.fc.Halved := by
  cases e with
  | createSession args res foreMem backMem =>
    cases hs
    unfold nfs4ProcCreateSession
    cases nfs4VerifyChannelAttrs args res with
    | none => exact hh
    | some attrs =>
      have hrealloc := hh.nfs4ReallocSlotTable foreMem (s.nfs4UpdateSession attrs).fcAttrs.maxReqs 1
      unfold nfs4SetupSessionSlotTables
      dsimp only
      rw [show (s.nfs4UpdateSession attrs).fc = s.fc from rfl]
      generalize s.fc.nfs4ReallocSlotTable foreMem (s.nfs4UpdateSession attrs).fcAttrs.maxReqs 1 = result at hrealloc ⊢
      obtain ⟨fc, _ | _⟩ := result
      · exact hrealloc
      · dsimp only
        split_ifs
        · exact hrealloc
        · split
          · exact hrealloc
          · split_ifs
            · exact hrealloc
            · exact hrealloc
  | fore e =>
    obtain ⟨fc, hstep, rfl⟩ := map_eq_some_iff.mp hs
    exact hh.tableStep hstep
  | back e =>
    obtain ⟨bc, hstep, rfl⟩ := map_eq_some_iff.mp hs
    exact hh

/-- No subtraction in the derivatives overflows exactly if the stored target is less than `2 ^ 31` above the new one.
    Otherwise the first derivative has the wrong sign, but for one value, and half of the difference, away from zero, is
    exact if that is not negative or odd. -/
theorem derivatives_exact_iff (events : List ChannelsEvent) (s : Channels) (hrun : exec step {} events = some s)
    (target new : U32) (hnew : new = minU32 target (nfs4MaxSlotTable - 1)) :
    ((((s.fc.nfs41IsOutlierTargetSlotid new).1.dTarget.toInt = derivative ((new.toNat : Int) - s.fc.tbl.targetHighestSlotid.toNat) ∧
        (s.fc.nfs41IsOutlierTargetSlotid new).1.d2Target.toInt =
          derivative ((s.fc.nfs41IsOutlierTargetSlotid new).1.dTarget.toInt - s.fc.dTarget.toInt)) ↔
      s.fc.tbl.targetHighestSlotid.toNat < new.toNat + 2 ^ 31)) ∧
    ((s.fc.nfs41IsOutlierTargetSlotid new).1.dTarget.toInt.sign = ((new.toNat : Int) - s.fc.tbl.targetHighestSlotid.toNat).sign ↔
      s.fc.tbl.targetHighestSlotid.toNat < new.toNat + 2 ^ 31 ∨ s.fc.tbl.targetHighestSlotid.toNat = new.toNat + 2 ^ 31 + 1) ∧
    ((s.fc.nfs41IsOutlierTargetSlotid new).1.dTarget.toInt = halfAway ((new.toNat : Int) - s.fc.tbl.targetHighestSlotid.toNat) ↔
      s.fc.tbl.targetHighestSlotid.toNat < new.toNat + 2 ^ 31 ∧
        (s.fc.tbl.targetHighestSlotid.toNat ≤ new.toNat ∨ (s.fc.tbl.targetHighestSlotid.toNat - new.toNat) % 2 = 1)) := by
  have hle : new.toNat ≤ 1023 := hnew ▸ SlotTable.minU32_toNat_le target
  have hh : s.fc.Halved := exec_invariant (I := fun s => s.fc.Halved) (fun _ _ _ hh hs => halved_step hh hs)
    (halved_zero rfl) hrun
  refine ⟨⟨fun h => (derivative_exact_iff hle).mp h.1, fun h => ?_⟩, derivative_sign_iff hle, derivative_half_iff hle⟩
  exact ⟨(derivative_exact_iff hle).mpr h, second_derivative_exact hle hh h⟩

def recallTo (target : U32) : List ChannelsEvent :=
  [.createSession defaultArgs ⟨true, ⟨1049620, 1049480, 0, 8, 4⟩, ⟨4096, 4096, 0, 2, 1⟩⟩ 4 1, .fore (.allocSlot 0),
    .fore (.setTargetSlotid target [] 0)]

theorem derivatives_exact_recall : ∃ s, exec step {} (recallTo 8) = some s ∧ s.fc.tbl.targetHighestSlotid = 8 ∧
    (s.fc.nfs41IsOutlierTargetSlotid 3).1.dTarget.toInt = halfAway (3 - 8) := by
  refine exists_exec (P := fun s => s.fc.tbl.targetHighestSlotid = 8) (by decide) fun s hrun htarget => ?_
  obtain ⟨-, -, hhalf⟩ := derivatives_exact_iff (recallTo 8) s hrun 3 3 rfl
  rw [htarget] at hhalf
  exact ⟨htarget, hhalf.mpr (by decide)⟩

/-- After a target of `0xc0000000` a reply with the target 3 seems to go up by half of `2 ^ 30 + 3`. -/
theorem derivative_wrong_direction : ∃ s, exec step {} (recallTo 0xc0000000) = some s ∧
    s.fc.tbl.targetHighestSlotid.toNat = 0xc0000000 ∧ (3 : Int) - 0xc0000000 < 0 ∧
    (s.fc.nfs41IsOutlierTargetSlotid 3).1.dTarget.toInt = 2 ^ 29 + 2 := by
  exact exists_exec (by decide) fun _ _ => id

end Channels

end Mynfs
