import Mynfs.Lib.Run
import Mynfs.Session.SlotTable

/-! Draining the fore channel (nfs4state.c, nfs4session.c, nfs4proc.c). The bit is written without `slot_tbl_lock`, so
    locked sections are cut where they read it (`Locked`). -/

namespace Mynfs

/-- A task that needs a slot. -/
structure SeqTask where
  id : Nat
  saPrivileged : Bool
deriving DecidableEq

/-- Where a locked section was cut. -/
inductive Locked
  | setupSequence (task : SeqTask)
  | wakeAndAssign (slotid : U32) (table : Bool)
  | freeSlot (slotid : U32)
  | wakeSlotTable
deriving DecidableEq

/-- What the state manager does. -/
inductive Manager
  | idle
  | draining
  | waiting
  | ending
deriving DecidableEq

/-- A slot table with its tasks. -/
structure ForeChannel where
  tbl : SlotTable
  dTarget : U32 := 0
  d2Target : U32 := 0
  waitq : List SeqTask := []
  owned : List (SeqTask × U32) := []
  locked : Option Locked := none
  manager : Manager := .idle
  /-- `nfs4_drain_slot_tbl` has returned 0 and the bit has not been cleared since. Not in the source. -/
  drained : Bool := false

/-- Steps of tasks, of locked sections and of the manager. -/
inductive DrainEvent
  | setupSequence (task : SeqTask)
  | allocSlot (mem : Nat)
  | releaseSlot (i : Nat)
  | wakeUpFirst (i : Nat)
  | freeSlot
  | tryWakeNext (mem : Nat)
  /-- A queued task is woken by its timeout or by a signal. -/
  | leaveWaitq (i : Nat)
  | setTargetSlotid (target : U32)
  | updateTargetSlotid (i : Nat) (highest target : U32)
  /-- The `session_recover` of `nfs41_sequence_process` sets the bit. -/
  | sessionRecover
  | drainSlotTbl
  | checkHighestUsed
  /-- `wait_for_completion_interruptible` returns, with `-ERESTARTSYS` or with 0. -/
  | endWait (interrupted : Bool)
  | endDrainSlotTable
  | endDrainWake

/-- `nfs41_derivative_target_slotid`, on `s32`. -/
def nfs41DerivativeTargetSlotid (s1 s2 : U32) : U32 :=
  let s1 := s1 - s2
  if s1 = 0 then 0
  else if s1.slt 0 then (s1 - 1).sshiftRight 1
  else (s1 + 1).sshiftRight 1

def nfs41SameSignOrZeroS32 (s1 s2 : U32) : Bool :=
  if s1 = 0 ∨ s2 = 0 then true else s1.slt 0 == s2.slt 0

namespace SlotTable

def nfs41SetTargetSlotidLocked (tbl : SlotTable) (target : U32) : SlotTable :=
  if tbl.targetHighestSlotid = target then tbl
  else { tbl with targetHighestSlotid := target, generation := tbl.generation + 1 }

def nfs41SetMaxSlotidLocked (tbl : SlotTable) (target : U32) : SlotTable :=
  let maxSlotid := minU32 (nfs4MaxSlotTable - 1) target
  let maxSlotid := if tbl.serverHighestSlotid < maxSlotid then tbl.serverHighestSlotid else maxSlotid
  let maxSlotid := if tbl.targetHighestSlotid < maxSlotid then tbl.targetHighestSlotid else maxSlotid
  { tbl with maxSlotid }

def nfs41SetServerSlotidLocked (tbl : SlotTable) (highest : U32) : SlotTable :=
  if tbl.serverHighestSlotid = highest ∨ highest < tbl.highestUsedSlotid then tbl
  else { tbl.nfs4ShrinkSlotTable (highest + 1) with serverHighestSlotid := highest }

end SlotTable

namespace ForeChannel
variable (s : ForeChannel)

def nfs41IsOutlierTargetSlotid (newTarget : U32) : ForeChannel × Bool :=
  let dTarget := nfs41DerivativeTargetSlotid newTarget s.tbl.targetHighestSlotid
  let d2Target := nfs41DerivativeTargetSlotid dTarget s.dTarget
  ({ s with dTarget, d2Target },
    !nfs41SameSignOrZeroS32 dTarget s.dTarget && !nfs41SameSignOrZeroS32 d2Target s.d2Target)

def nfs41SetTargetSlotid (target : U32) : ForeChannel :=
  { s with
    tbl := (s.tbl.nfs41SetTargetSlotidLocked target).nfs41SetMaxSlotidLocked target
    dTarget := 0, d2Target := 0, locked := some .wakeSlotTable }

/-- Up to `nfs41_wake_slot_table`, for a slot of the given generation. -/
def nfs41UpdateTargetSlotid (generation : Nat) (highest target : U32) : ForeChannel :=
  let target := minU32 target (nfs4MaxSlotTable - 1)
  let highest := minU32 highest (nfs4MaxSlotTable - 1)
  let (s, outlier) := s.nfs41IsOutlierTargetSlotid target
  let tbl := if outlier then s.tbl else s.tbl.nfs41SetTargetSlotidLocked target
  let tbl := if tbl.generation = generation then tbl.nfs41SetServerSlotidLocked highest else tbl
  { s with tbl := tbl.nfs41SetMaxSlotidLocked target, locked := some .wakeSlotTable }

def setupSequence (task : SeqTask) : ForeChannel :=
  if s.owned.any (·.1 == task) then s
  else if s.tbl.draining && !task.saPrivileged then { s with waitq := s.waitq ++ [task] }
  else { s with locked := some (.setupSequence task) }

def give (task : SeqTask) (slotid : U32) : ForeChannel := { s with owned := s.owned ++ [(task, slotid)] }

def allocSlot (mem : Nat) (task : SeqTask) : ForeChannel :=
  let s := { s with locked := none }
  match s.tbl.nfs4AllocSlot mem with
  | (tbl, .ok slotid) =>
    { s with tbl := tbl.modifySlot slotid.toNat fun slot => { slot with privileged := task.saPrivileged } }.give task slotid
  | (tbl, .error _) => { s with tbl := tbl, waitq := s.waitq ++ [task] }

/-- Up to `rpc_wake_up_first` or `nfs4_free_slot`. -/
def nfs41ReleaseSlot (i : Nat) (slotid : U32) : ForeChannel :=
  { s with
    tbl := s.tbl.modifySlot slotid.toNat fun slot =>
      { slot with seqNr := if slot.seqDone then slot.seqNr + 1 else slot.seqNr, seqDone := false }
    owned := s.owned.eraseIdx i
    locked := if s.tbl.maxSlotid < slotid then some (.freeSlot slotid) else some (.wakeAndAssign slotid false) }

def nfs41AssignSlot (i : Nat) (task : SeqTask) (slotid : U32) (table : Bool) : ForeChannel :=
  if s.tbl.draining && !task.saPrivileged then { s with locked := some (.freeSlot slotid) }
  else
    { s with
      tbl := s.tbl.modifySlot slotid.toNat fun slot => { slot with generation := s.tbl.generation }
      waitq := s.waitq.eraseIdx i
      locked := if table then some .wakeSlotTable else none }.give task slotid

def tryWakeNext (mem : Nat) : ForeChannel :=
  match s.tbl.nfs4AllocSlot mem with
  | (tbl, .ok slotid) => { s with tbl := tbl, locked := some (.wakeAndAssign slotid true) }
  | (tbl, .error _) => { s with tbl := tbl, locked := none }

def step : DrainEvent → Option ForeChannel
  | .setupSequence task => if s.locked.isNone ∧ task ∉ s.waitq then some (s.setupSequence task) else none
  | .allocSlot mem =>
    match s.locked with
    | some (.setupSequence task) => some (s.allocSlot mem task)
    | _ => none
  | .releaseSlot i =>
    match s.owned[i]? with
    | some (_, slotid) => if s.locked.isNone then some (s.nfs41ReleaseSlot i slotid) else none
    | none => none
  | .wakeUpFirst i =>
    match s.locked with
    | some (.wakeAndAssign slotid table) =>
      match s.waitq[i]? with
      | some task => some (s.nfs41AssignSlot i task slotid table)
      | none => if s.waitq = [] then some { s with locked := some (.freeSlot slotid) } else none
    | _ => none
  | .freeSlot =>
    match s.locked with
    | some (.freeSlot slotid) => some { s with tbl := s.tbl.nfs4FreeSlot slotid, locked := none }
    | _ => none
  | .tryWakeNext mem => if s.locked = some .wakeSlotTable then some (s.tryWakeNext mem) else none
  | .leaveWaitq i => some { s with waitq := s.waitq.eraseIdx i }
  | .setTargetSlotid target => if s.locked.isNone then some (s.nfs41SetTargetSlotid target) else none
  | .updateTargetSlotid i highest target =>
    match s.owned[i]?.bind fun owner => s.tbl.slots[owner.2.toNat]? with
    | some slot => if s.locked.isNone then some (s.nfs41UpdateTargetSlotid slot.generation highest target) else none
    | none => none
  | .sessionRecover => some { s with tbl := { s.tbl with draining := true } }
  | .drainSlotTbl =>
    if s.manager = .idle then some { s with tbl := { s.tbl with draining := true }, manager := .draining } else none
  | .checkHighestUsed =>
    if s.manager = .draining ∧ s.locked.isNone then
      if s.tbl.highestUsedSlotid ≠ noSlot then
        some { s with tbl := { s.tbl with complete := false }, manager := .waiting }
      else some { s with manager := .idle, drained := true }
    else none
  | .endWait interrupted =>
    if s.manager = .waiting then
      if interrupted then some { s with manager := .idle }
      else if s.tbl.complete then some { s with manager := .idle, drained := true }
      else none
    else none
  | .endDrainSlotTable =>
    if s.manager = .idle then
      if s.tbl.draining then
        some { s with tbl := { s.tbl with draining := false }, manager := .ending, drained := false }
      else some s
    else none
  | .endDrainWake =>
    if s.manager = .ending ∧ s.locked.isNone then some { s with manager := .idle, locked := some .wakeSlotTable }
    else none

def init (mem : Nat) (maxReqs : U32) : ForeChannel where
  tbl := (SlotTable.nfs4ReallocSlotTable mem {} maxReqs 1).1

end ForeChannel

end Mynfs
