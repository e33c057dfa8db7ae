import Mathlib.Data.Finset.Max
import Mynfs.Nfs4

/-! The slot table of a session channel (nfs4session.c). `mem` is the number of allocations that will succeed. -/

namespace Mynfs

/-- `struct nfs4_slot`. -/
structure Slot where
  generation : Nat := 0
  slotNr : U32
  seqNr : U32
  seqNrLastAcked : U32
  seqNrHighestSent : U32
  privileged : Bool := false
  seqDone : Bool := false

def noSlot : U32 := -1

def nfs4MaxSlotTable : U32 := 1024

/-- `struct nfs4_slot_table`. -/
structure SlotTable where
  slots : List Slot := []
  usedSlots : Finset Nat := ∅
  maxSlots : U32 := 0
  maxSlotid : U32 := 0
  highestUsedSlotid : U32 := noSlot
  targetHighestSlotid : U32 := 0
  serverHighestSlotid : U32 := 0
  generation : Nat := 0
  draining : Bool := false
  complete : Bool := false

def nfs4NewSlot (slotid seqInit : U32) : Slot where
  slotNr := slotid
  seqNr := seqInit
  seqNrLastAcked := seqInit - 1
  seqNrHighestSent := seqInit

namespace SlotTable

/-- Append slots numbered `max_slots` until the wanted one exists. -/
def appendSlots (slotid seqInit : U32) : Nat → SlotTable → SlotTable × Except Errno Nat
  | 0, tbl => (tbl, .error .enomem)
  | mem + 1, tbl =>
    let tbl' := { tbl with
      slots := tbl.slots ++ [nfs4NewSlot tbl.maxSlots seqInit]
      maxSlots := tbl.maxSlots + 1 }
    if tbl.maxSlots = slotid then (tbl', .ok tbl.slots.length) else appendSlots slotid seqInit mem tbl'

section
variable (mem : Nat) (tbl : SlotTable)

def nfs4FindOrCreateSlot (slotid seqInit : U32) : SlotTable × Except Errno Nat :=
  match tbl.slots.findIdx? (fun slot => slot.slotNr == slotid) with
  | some i => (tbl, .ok i)
  | none => appendSlots slotid seqInit mem tbl

def nfs4LookupSlot (slotid : U32) : SlotTable × Except Errno Nat :=
  if slotid ≤ tbl.maxSlotid then nfs4FindOrCreateSlot mem tbl slotid 0 else (tbl, .error .e2big)

def nfs4TestLockedSlot (slotid : U32) : Bool := decide (slotid.toNat ∈ tbl.usedSlots)

def modifySlot (i : Nat) (f : Slot → Slot) : SlotTable :=
  { tbl with slots := tbl.slots.modify i f }

def nfs4LockSlot (i : Nat) (slotid : U32) : SlotTable :=
  let tbl := { tbl with
    usedSlots := insert slotid.toNat tbl.usedSlots
    highestUsedSlotid :=
      if tbl.highestUsedSlotid < slotid ∨ tbl.highestUsedSlotid = noSlot then slotid else tbl.highestUsedSlotid }
  tbl.modifySlot i fun slot => { slot with generation := tbl.generation }

def nfs4TryToLockSlot (i : Nat) (slotid : U32) : SlotTable × Bool :=
  if tbl.nfs4TestLockedSlot slotid then (tbl, false) else (tbl.nfs4LockSlot i slotid, true)

def nfs4SlotTblDrainComplete : SlotTable :=
  if tbl.draining then { tbl with complete := true } else tbl

/-- The last set bit below `size`, or `size`. -/
def findLastBit (used : Finset Nat) (size : Nat) : Nat :=
  ((used.filter (· < size)).max).getD size

def nfs4FreeSlot (slotid : U32) : SlotTable :=
  let tbl := { tbl with usedSlots := tbl.usedSlots.erase slotid.toNat }
  if slotid = tbl.highestUsedSlotid then
    let newMax := findLastBit tbl.usedSlots slotid.toNat
    if newMax < slotid.toNat then { tbl with highestUsedSlotid := BitVec.ofNat 32 newMax }
    else nfs4SlotTblDrainComplete { tbl with highestUsedSlotid := noSlot }
  else tbl

theorem freeSlot_rest (slotid : U32) : let freed := tbl.nfs4FreeSlot slotid
    freed.usedSlots = tbl.usedSlots.erase slotid.toNat ∧ freed.slots = tbl.slots ∧ freed.maxSlots = tbl.maxSlots ∧
    freed.maxSlotid = tbl.maxSlotid ∧ freed.serverHighestSlotid = tbl.serverHighestSlotid ∧
    freed.targetHighestSlotid = tbl.targetHighestSlotid := by
  unfold nfs4FreeSlot nfs4SlotTblDrainComplete
  dsimp only
  split_ifs <;> exact ⟨rfl, rfl, rfl, rfl, rfl, rfl⟩

/-- The first unset bit below `size`, or `size`. -/
def findFirstZeroBit (used : Finset Nat) (size : Nat) : Nat :=
  ((List.range size).find? fun i => decide (i ∉ used)).getD size

def nfs4AllocSlot : SlotTable × Except Errno U32 :=
  let slotid := BitVec.ofNat 32 (findFirstZeroBit tbl.usedSlots (tbl.maxSlotid + 1).toNat)
  if slotid ≤ tbl.maxSlotid then
    match tbl.nfs4FindOrCreateSlot mem slotid 1 with
    | (tbl, .ok i) => (tbl.nfs4LockSlot i slotid, .ok slotid)
    | (tbl, .error e) => (tbl, .error e)
  else (tbl, .error .ebusy)

def nfs4ShrinkSlotTable (newsize : U32) : SlotTable :=
  if tbl.maxSlots ≤ newsize then tbl
  else
    { tbl with
      slots := tbl.slots.take newsize.toNat
      maxSlots := tbl.maxSlots - BitVec.ofNat 32 (tbl.slots.length - newsize.toNat) }

def nfs4GrowSlotTable (maxReqs ivalue : U32) : SlotTable × Bool :=
  if maxReqs ≤ tbl.maxSlots then (tbl, true)
  else
    match tbl.nfs4FindOrCreateSlot mem (maxReqs - 1) ivalue with
    | (tbl, .ok _) => (tbl, true)
    | (tbl, .error _) => (tbl, false)

def nfs4ResetSlotTable (serverHighestSlotid ivalue : U32) : SlotTable :=
  let tbl := tbl.nfs4ShrinkSlotTable (serverHighestSlotid + 1)
  { tbl with
    slots := tbl.slots.map fun slot =>
      { slot with seqNr := ivalue, seqNrHighestSent := ivalue, seqNrLastAcked := ivalue - 1 }
    highestUsedSlotid := noSlot
    targetHighestSlotid := serverHighestSlotid
    serverHighestSlotid := serverHighestSlotid
    maxSlotid := serverHighestSlotid }

def nfs4ReallocSlotTable (maxReqs ivalue : U32) : SlotTable × Bool :=
  let maxReqs := if nfs4MaxSlotTable < maxReqs then nfs4MaxSlotTable else maxReqs
  match tbl.nfs4GrowSlotTable mem maxReqs ivalue with
  | (tbl, true) => (tbl.nfs4ResetSlotTable (maxReqs - 1) ivalue, true)
  | (tbl, false) => (tbl, false)

/-- The lookup may create the slot. -/
def nfs4SlotSeqidInUse (slotid seqNr : U32) : SlotTable × Bool :=
  match tbl.nfs4LookupSlot mem slotid with
  | (tbl, .error _) => (tbl, false)
  | (tbl, .ok i) =>
    (tbl, decide ((tbl.slots[i]?.map Slot.seqNr) = some seqNr) && tbl.nfs4TestLockedSlot slotid)

end

end SlotTable

end Mynfs
