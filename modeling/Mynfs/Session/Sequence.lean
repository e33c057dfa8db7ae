import Mynfs.Lib.Run
import Mynfs.Lib.Serial
import Mynfs.Session.SlotTable

/-! SEQUENCE processing on the fore channel (nfs4proc.c). What the RPC layer decides is an input. -/

namespace Mynfs

/-- The procedure of a call. -/
inductive RpcProc
  | sequence
  | other
deriving DecidableEq

/-- `canRestart` is what `rpc_restart_call` and `rpc_restart_call_prepare` return. -/
structure RpcTask where
  wasSent : Bool
  tkStatus : Int
  rpcProc : RpcProc
  canRestart : Bool

/-- `struct nfs4_sequence_res`. -/
structure SequenceRes where
  srStatus : Int
  srTimestamp : Nat := 0
  srStatusFlags : U32 := 0
  srHighestSlotid : U32 := 0
  srTargetHighestSlotid : U32 := 0
deriving DecidableEq

/-- How `_nfs41_proc_sequence` ends for a probe: no client reference or memory, no task, or started. -/
inductive ProbeStart
  | notAttached
  | notRun
  | started
deriving DecidableEq

/-- `assign` is the table's generation if a queued task takes a released slot over (`nfs41_wake_and_assign_slot`). -/
structure SequenceEnv where
  targetHighestSlotid : U32
  probe : ProbeStart
  assign : Option Nat
deriving DecidableEq

/-- Who has the slot afterwards. -/
inductive Holder
  | task
  | probe
  | waiter
  | nobody
deriving DecidableEq

/-- What else is done about a result. -/
inductive SequenceEffect
  | renewLease (timestamp : Nat)
  | handleSequenceFlagErrors (flags : U32) (privileged : Bool)
  | updateTargetSlotid (generation : Nat) (highest target : U32)
  | setDraining
  | scheduleSessionRecovery (status : Int)
  | probeSequence
  | rpcDelay

/-- What processing a result leaves. -/
structure SequenceOutcome where
  slot : Slot
  ret : Nat
  holder : Holder
  tkStatus : Int
  effects : List SequenceEffect

def nfs4SlotSequenceRecordSent (slot : Slot) (seqnr : U32) : Slot :=
  if Serial.newer seqnr slot.seqNrHighestSent then { slot with seqNrHighestSent := seqnr } else slot

def nfs4SlotSequenceAcked (slot : Slot) (seqnr : U32) : Slot :=
  { nfs4SlotSequenceRecordSent slot seqnr with seqNrLastAcked := seqnr }

/-- Bump the number if it was used, then hand the slot to a queued task or free it. -/
def nfs41ReleaseSlot (assign : Option Nat) (slot : Slot) : Slot × Holder :=
  let slot := { slot with seqNr := if slot.seqDone then slot.seqNr + 1 else slot.seqNr, seqDone := false }
  match assign with
  | some generation => ({ slot with generation := generation }, .waiter)
  | none => (slot, .nobody)

namespace Sequence

def out (task : RpcTask) (slot : Slot) (effects : List SequenceEffect) : SequenceOutcome :=
  ⟨slot, 1, .task, task.tkStatus, effects⟩

def outRetry (task : RpcTask) (slot : Slot) : SequenceOutcome :=
  if task.canRestart then ⟨slot, 0, .task, task.tkStatus, [.rpcDelay]⟩ else out task slot []

section
variable (env : SequenceEnv) (task : RpcTask)

/-- Prepare the call again, on whatever slot it then gets. -/
def retryNowait (slot : Slot) : SequenceOutcome :=
  if task.canRestart then
    let (slot, holder) := nfs41ReleaseSlot env.assign slot
    ⟨slot, 0, holder, 0, []⟩
  else out task slot []

def sessionRecover (status : Int) (slot : Slot) : SequenceOutcome :=
  let (slot, holder) := nfs41ReleaseSlot env.assign slot
  ⟨slot, 1, holder, task.tkStatus, [.setDraining, .scheduleSessionRecovery status]⟩

/-- The probe owns the slot, or has released it if it could not start. -/
def nfs4ProbeSequence (env : SequenceEnv) (slot : Slot) : Slot × Holder :=
  match env.probe with
  | .notAttached => nfs41ReleaseSlot env.assign slot
  | .notRun => nfs41ReleaseSlot env.assign { slot with privileged := true }
  | .started => ({ slot with privileged := true }, .probe)

def probeAndRetry (slot : Slot) : SequenceOutcome :=
  let (slot, holder) := nfs4ProbeSequence env slot
  if task.canRestart then ⟨slot, 0, holder, 0, [.probeSequence]⟩
  else ⟨slot, 1, holder, task.tkStatus, [.probeSequence]⟩

end

def status (task : RpcTask) (res : SequenceRes) : Int :=
  if task.tkStatus = negErr Nfs4err.deadsession then negErr Nfs4err.deadsession else res.srStatus

end Sequence

open Sequence in
/-- The task has a slot; without one the function returns 1 at once. -/
def nfs41SequenceProcess (env : SequenceEnv) (task : RpcTask) (res : SequenceRes) (slot : Slot) : SequenceOutcome :=
  -- don't increment the sequence number if the task wasn't sent
  if task.wasSent = false ∨ slot.seqDone then out task slot []
  else if status task res = 0 then
    out task { nfs4SlotSequenceAcked slot slot.seqNr with seqDone := true }
      [.renewLease res.srTimestamp, .handleSequenceFlagErrors res.srStatusFlags slot.privileged,
        .updateTargetSlotid slot.generation res.srHighestSlotid res.srTargetHighestSlotid]
  else if status task res = 1 then
    out task { nfs4SlotSequenceRecordSent slot slot.seqNr with seqDone := true } []
  else if status task res = negErr Nfs4err.delay then outRetry task slot
  else if status task res = negErr Nfs4err.retryUncachedRep ∨ status task res = negErr Nfs4err.seqFalseRetry then
    let slot := nfs4SlotSequenceAcked slot slot.seqNr
    retryNowait env task { slot with seqNr := slot.seqNr + 1 }
  else if status task res = negErr Nfs4err.badslot then
    if slot.slotNr < env.targetHighestSlotid then sessionRecover env task (status task res) slot
    else retryNowait env task slot
  else if status task res = negErr Nfs4err.seqMisordered then
    let slot := nfs4SlotSequenceRecordSent slot slot.seqNr
    if 1 < Serial.diff slot.seqNr slot.seqNrLastAcked then
      let slot := { slot with seqNr := slot.seqNr - 1 }
      if task.rpcProc ≠ .sequence then probeAndRetry env task slot else retryNowait env task slot
    else outRetry task { slot with seqNr := slot.seqNrHighestSent }
  else if status task res = negErr Nfs4err.badsession ∨ status task res = negErr Nfs4err.deadsession ∨
      status task res = negErr Nfs4err.connNotBoundToSession then
    sessionRecover env task (status task res) slot
  else out task { slot with seqDone := true } []

/-- Free, with a task that has (`held true`) or has not yet transmitted, or with a task whose call is over. -/
inductive SlotPhase
  | free
  | held (sent : Bool)
  | done
deriving DecidableEq

/-- A slot, and what its task does. -/
structure SlotState where
  slot : Slot
  phase : SlotPhase

/-- The life of a slot. -/
inductive SlotEvent
  | acquire (privileged : Bool) (generation : Nat)
  /-- The RPC layer transmits the call; the request carries `slot->seq_nr`. -/
  | transmit
  | process (env : SequenceEnv) (tkStatus : Int) (rpcProc : RpcProc) (canRestart : Bool) (res : SequenceRes)
  | release (assign : Option Nat)
deriving DecidableEq

/-- A task whose call is over only releases its slot; any other holder goes on to transmit on it. -/
def SequenceOutcome.phase (o : SequenceOutcome) : SlotPhase :=
  match o.holder with
  | .task => if o.ret = 0 then .held false else .done
  | .probe | .waiter => .held false
  | .nobody => .free

def SlotState.step (s : SlotState) : SlotEvent → Option SlotState
  | .acquire privileged generation =>
    match s.phase with
    | .free => some ⟨{ s.slot with privileged := privileged, generation := generation }, .held false⟩
    | _ => none
  | .transmit =>
    match s.phase with
    | .held _ => some ⟨s.slot, .held true⟩
    | _ => none
  | .process env tkStatus rpcProc canRestart res =>
    match s.phase with
    | .held sent =>
      let o := nfs41SequenceProcess env ⟨sent, tkStatus, rpcProc, canRestart⟩ res s.slot
      some ⟨o.slot, o.phase⟩
    | _ => none
  | .release assign =>
    match s.phase with
    | .done =>
      let (slot, holder) := nfs41ReleaseSlot assign s.slot
      some ⟨slot, if holder = .waiter then .held false else .free⟩
    | _ => none

def SlotState.create (slotid : U32) : SlotState := ⟨nfs4NewSlot slotid 1, .free⟩

end Mynfs
