import Mynfs.Session.Drain

/-! Operations on a slot table, and the session with two (nfs4session.c, nfs4proc.c); the back channel has no tasks in it. -/

namespace Mynfs

namespace SlotTable

def assignSlot (tbl : SlotTable) (slotid : U32) : SlotTable :=
  tbl.modifySlot slotid.toNat fun slot => { slot with generation := tbl.generation }

def nfs41WakeAndAssignSlot (tbl : SlotTable) (slotid : U32) (taken : Bool) : SlotTable × Bool :=
  if tbl.maxSlotid < slotid then (tbl, false)
  else if taken then (tbl.assignSlot slotid, true)
  else (tbl, false)

/-- A queued task takes a slot in each round, given by the number of allocations that succeed, and none after them. -/
def nfs41WakeSlotTable (tbl : SlotTable) : List Nat → Nat → SlotTable
  | [], last =>
    match tbl.nfs4AllocSlot last with
    | (tbl, .ok slotid) => tbl.nfs4FreeSlot slotid
    | (tbl, .error _) => tbl
  | mem :: rounds, last =>
    match tbl.nfs4AllocSlot mem with
    | (tbl, .ok slotid) => (tbl.assignSlot slotid).nfs41WakeSlotTable rounds last
    | (tbl, .error _) => tbl

/-- As `nfs4_callback_sequence` does it. -/
def lookupAndLock (mem : Nat) (tbl : SlotTable) (slotid : U32) : SlotTable :=
  match tbl.nfs4LookupSlot mem slotid with
  | (tbl, .ok i) => (tbl.nfs4TryToLockSlot i slotid).1
  | (tbl, .error _) => tbl

end SlotTable

/-- Calls on a slot table. -/
inductive TableEvent
  | allocSlot (mem : Nat)
  | freeSlot (slotid : U32)
  | lookupAndLock (mem : Nat) (slotid : U32)
  | wakeAndAssignSlot (slotid : U32) (taken : Bool)
  | wakeSlotTable (rounds : List Nat) (last : Nat)
  | setTargetSlotid (target : U32) (rounds : List Nat) (last : Nat)
  | updateTargetSlotid (slotid highest target : U32) (rounds : List Nat) (last : Nat)

namespace ForeChannel
variable (s : ForeChannel)

def nfs4ReallocSlotTable (mem : Nat) (maxReqs ivalue : U32) : ForeChannel × Bool :=
  match s.tbl.nfs4ReallocSlotTable mem maxReqs ivalue with
  | (tbl, true) => ({ s with tbl := tbl, dTarget := 0, d2Target := 0 }, true)
  | (tbl, false) => ({ s with tbl := tbl }, false)

def wakeSlotTable (rounds : List Nat) (last : Nat) : ForeChannel :=
  { s with tbl := s.tbl.nfs41WakeSlotTable rounds last, locked := none }

def tableStep : TableEvent → Option ForeChannel
  | .allocSlot mem => some { s with tbl := (s.tbl.nfs4AllocSlot mem).1 }
  | .freeSlot slotid =>
    if slotid.toNat ∈ s.tbl.usedSlots then some { s with tbl := s.tbl.nfs4FreeSlot slotid } else none
  | .lookupAndLock mem slotid => some { s with tbl := s.tbl.lookupAndLock mem slotid }
  | .wakeAndAssignSlot slotid taken =>
    if slotid.toNat ∈ s.tbl.usedSlots then some { s with tbl := (s.tbl.nfs41WakeAndAssignSlot slotid taken).1 } else none
  | .wakeSlotTable rounds last => some (s.wakeSlotTable rounds last)
  | .setTargetSlotid target rounds last => some ((s.nfs41SetTargetSlotid target).wakeSlotTable rounds last)
  | .updateTargetSlotid slotid highest target rounds last =>
    if slotid.toNat ∈ s.tbl.usedSlots then
      match s.tbl.slots[slotid.toNat]? with
      | some slot => some ((s.nfs41UpdateTargetSlotid slot.generation highest target).wakeSlotTable rounds last)
      | none => none
    else none

end ForeChannel

/-- `struct nfs4_channel_attrs`. -/
structure ChannelAttrs where
  maxRqstSz : U32 := 0
  maxRespSz : U32 := 0
  maxRespSzCached : U32 := 0
  maxOps : U32 := 0
  maxReqs : U32 := 0
deriving DecidableEq

/-- The channel attributes of a CREATE_SESSION call or reply, and the flag `SESSION4_BACK_CHAN`. -/
structure CreateSession where
  backChan : Bool
  fcAttrs : ChannelAttrs
  bcAttrs : ChannelAttrs
deriving DecidableEq

/-- The attributes to use, or `-EINVAL`. -/
def nfs4VerifyForeChannelAttrs (sent rcvd : ChannelAttrs) : Option ChannelAttrs :=
  if sent.maxRespSz < rcvd.maxRespSz then none
  else if rcvd.maxOps < sent.maxOps then none
  else if rcvd.maxReqs = 0 then none
  else if nfs4MaxSlotTable < rcvd.maxReqs then some { rcvd with maxReqs := nfs4MaxSlotTable }
  else some rcvd

def nfs4VerifyBackChannelAttrs (backChan : Bool) (sent rcvd : ChannelAttrs) : Bool :=
  if !backChan then true
  else if sent.maxRqstSz < rcvd.maxRqstSz then false
  else if sent.maxRespSz < rcvd.maxRespSz then false
  else if sent.maxRespSzCached < rcvd.maxRespSzCached then false
  else if sent.maxOps < rcvd.maxOps then false
  else if sent.maxReqs < rcvd.maxReqs then false
  else true

/-- The reply as it will be used, if it is accepted. -/
def nfs4VerifyChannelAttrs (args res : CreateSession) : Option CreateSession :=
  match nfs4VerifyForeChannelAttrs args.fcAttrs res.fcAttrs with
  | none => none
  | some fcAttrs =>
    if nfs4VerifyBackChannelAttrs res.backChan args.bcAttrs res.bcAttrs then some { res with fcAttrs := fcAttrs } else none

/-- The session with its two channels. -/
structure Channels where
  backChan : Bool := false
  fcAttrs : ChannelAttrs := {}
  bcAttrs : ChannelAttrs := {}
  fc : ForeChannel := { tbl := {} }
  bc : ForeChannel := { tbl := {} }

namespace Channels
variable (s : Channels)

def nfs4UpdateSession (res : CreateSession) : Channels :=
  { s with
    backChan := res.backChan
    fcAttrs := res.fcAttrs
    bcAttrs := if res.backChan then res.bcAttrs else s.bcAttrs }

def nfs4ReleaseSessionSlotTables : Channels :=
  { s with
    fc := { s.fc with tbl := s.fc.tbl.nfs4ShrinkSlotTable 0 }
    bc := { s.bc with tbl := s.bc.tbl.nfs4ShrinkSlotTable 0 } }

def nfs4SetupSessionSlotTables (foreMem backMem : Nat) : Channels :=
  match s.fc.nfs4ReallocSlotTable foreMem s.fcAttrs.maxReqs 1 with
  | (fc, false) => { s with fc := fc }
  | (fc, true) =>
    if !s.backChan then { s with fc := fc }
    else
      match s.bc.nfs4ReallocSlotTable backMem s.bcAttrs.maxReqs 0 with
      | (bc, true) => { s with fc := fc, bc := bc }
      | (bc, false) =>
        if bc.tbl.slots = [] then { s with fc := fc, bc := bc }.nfs4ReleaseSessionSlotTables
        else { s with fc := fc, bc := bc }

/-- The reply has status 0; one that is not accepted changes nothing. -/
def nfs4ProcCreateSession (args res : CreateSession) (foreMem backMem : Nat) : Channels :=
  match nfs4VerifyChannelAttrs args res with
  | none => s
  | some res => (s.nfs4UpdateSession res).nfs4SetupSessionSlotTables foreMem backMem

end Channels

/-- Calls on the session. -/
inductive ChannelsEvent
  | createSession (args res : CreateSession) (foreMem backMem : Nat)
  | fore (e : TableEvent)
  | back (e : TableEvent)

def Channels.step (s : Channels) : ChannelsEvent → Option Channels
  | .createSession args res foreMem backMem => some (s.nfs4ProcCreateSession args res foreMem backMem)
  | .fore e => (s.fc.tableStep e).map fun fc => { s with fc := fc }
  | .back e => (s.bc.tableStep e).map fun bc => { s with bc := bc }

end Mynfs
