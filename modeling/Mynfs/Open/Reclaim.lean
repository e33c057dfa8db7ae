import Mynfs.Exception
import Mynfs.Lib.Loop
import Mynfs.Open.State

/-! `nfs4_reclaim_open_state` (nfs4state.c), which starts again after each attempt. Attempts give what the recovery
    returns and leaves. References, bad contexts and copies are left out. -/

namespace Mynfs
open Loop

namespace Nfs4err

abbrev noGrace : Nat := 10033
abbrev reclaimBad : Nat := 10034
abbrev reclaimConflict : Nat := 10035

end Nfs4err

/-- `state_flag_bit` of the recovery operations. -/
inductive ReclaimBit
  | reboot
  | nograce

/-- The flags of a lock state. -/
structure LockFlags where
  initialized : Bool
  unlocking : Bool
  lost : Bool

/-- A `struct file_lock` of the inode: whether its file was opened with this state, and its lock state, if any. -/
structure FileLock where
  ofState : Bool
  owner : Option Nat

/-- `struct file_lock_context`. -/
structure FileLockContext where
  flcPosix : List FileLock
  flcFlock : List FileLock

/-- `struct nfs4_state`; `attempts` counts the calls of `recover_open`. -/
structure ReclaimState where
  id : Nat
  reclaimReboot : Bool := false
  reclaimNograce : Bool := false
  recoveryFailed : Bool := false
  srvSscCopyState : Bool := false
  delegatedState : Bool := false
  state : Fmode := ⟨true, false⟩
  lockStates : List LockFlags := []
  flctx : Option FileLockContext := none
  attempts : Nat := 0

/-- `ops->recover_lock`: its status, and the lock states after it. -/
structure LockRecovery where
  status : Int
  lockStates : List LockFlags

/-- An attempt: its status, what it leaves in the state, whether a replaced stateid marks the state with
    `nfs4_state_mark_reclaim_nograce`, and the calls of `ops->recover_lock`. -/
structure Recovery where
  status : Int
  delegatedState : Bool := false
  state : Fmode := ⟨true, false⟩
  lockStates : List LockFlags := []
  marksNograce : Bool := false
  recoverLock : Nat → LockRecovery := fun _ => ⟨0, []⟩

/-- `struct nfs4_state_recovery_ops`; `recover` takes a state and the number of the attempt. -/
structure RecoveryOps where
  stateFlagBit : ReclaimBit
  recover : Nat → Nat → Recovery

namespace ReclaimState
variable (st : ReclaimState)

def flag : ReclaimBit → Bool
  | .reboot => st.reclaimReboot
  | .nograce => st.reclaimNograce

def putFlag (value : Bool) : ReclaimBit → ReclaimState
  | .reboot => { st with reclaimReboot := value }
  | .nograce => { st with reclaimNograce := value }

def nfs4StateMarkRecoveryFailed : ReclaimState := { st with recoveryFailed := true }

/-- `nfs4_state_mark_reclaim_nograce`, and whether it marks the state. -/
def nfs4StateMarkReclaimNograce : Bool × ReclaimState :=
  if st.recoveryFailed then (false, st) else (true, { st with reclaimNograce := true, reclaimReboot := false })

end ReclaimState

/-- The statuses of `recover_lock` with which `nfs4_reclaim_locks` returns. -/
def lockReclaimStops : List Int :=
  [Errno.etimedout, .estale].map negErrno ++
    [Nfs4err.adminRevoked, Nfs4err.staleStateid, Nfs4err.badStateid, Nfs4err.expired, Nfs4err.noGrace, Nfs4err.staleClientid,
      Nfs4err.badsession, Nfs4err.badslot, Nfs4err.badHighSlot, Nfs4err.connNotBoundToSession].map negErr

/-- One list, from the call with number `k`: the status, the number of the next call, and the lock states. -/
def reclaimLockList (recoverLock : Nat → LockRecovery) : List FileLock → Nat → List LockFlags → Int × Nat × List LockFlags
  | [], k, locks => (0, k, locks)
  | fl :: rest, k, locks =>
    if !fl.ofState then reclaimLockList recoverLock rest k locks
    else
      let r := recoverLock k
      if r.status = 0 then reclaimLockList recoverLock rest (k + 1) r.lockStates
      else if r.status ∈ lockReclaimStops then (r.status, k + 1, r.lockStates)
      else
        let locks := match fl.owner with
          | none => r.lockStates
          | some lsp => r.lockStates.modify lsp fun lock => { lock with lost := true }
        reclaimLockList recoverLock rest (k + 1) locks

def nfs4ReclaimLocks (recoverLock : Nat → LockRecovery) (flctx : Option FileLockContext) (locks : List LockFlags) :
    Int × List LockFlags :=
  match flctx with
  | none => (0, locks)
  | some flctx =>
    let (status, k, locks) := reclaimLockList recoverLock flctx.flcPosix 0 locks
    if status ≠ 0 then (status, locks)
    else
      let (status, _, locks) := reclaimLockList recoverLock flctx.flcFlock k locks
      (status, locks)

/-- `sp->so_states`, the bits `NFS_OWNER_RECLAIM_NOGRACE` and `NFS4CLNT_RECLAIM_NOGRACE`, `*lost_locks`, and the
    variables. -/
structure Reclaim where
  soStates : List ReclaimState
  ownerReclaimNograce : Bool := false
  clntReclaimNograce : Bool := false
  lostLocks : Nat := 0
  loop : U32 := 0
  foundSscCopyState : Bool := false

def ReclaimState.recoverOpen (st : ReclaimState) (r : Recovery) : ReclaimState :=
  let st := if r.marksNograce then st.nfs4StateMarkReclaimNograce.2 else st
  { st with
    delegatedState := r.delegatedState
    state := r.state
    lockStates := r.lockStates
    attempts := st.attempts + 1 }

/-- `__nfs4_reclaim_open_state`: its status, the state, and `*lost_locks`. -/
def nfs4ReclaimOneOpenState (r : Recovery) (st : ReclaimState) (lostLocks : Nat) : Int × ReclaimState × Nat :=
  let st := st.recoverOpen r
  if r.status < 0 then (r.status, st, lostLocks)
  else
    let (status, locks) := nfs4ReclaimLocks r.recoverLock st.flctx st.lockStates
    let st := { st with lockStates := locks }
    if status < 0 then (status, st, lostLocks)
    else
      let lostLocks := if !st.delegatedState then lostLocks + st.lockStates.countP fun lock => !lock.initialized && !lock.unlocking
        else lostLocks
      (status, { st with reclaimNograce := false }, lostLocks)

/-- What the loop does with a state. -/
inductive Visit
  | skip
  | sscCopy
  | recover
deriving DecidableEq

def ReclaimState.visit (bit : ReclaimBit) (st : ReclaimState) : Visit × ReclaimState :=
  if !st.flag bit then (.skip, st)
  else
    let st := st.putFlag false bit
    if st.recoveryFailed then (.skip, st)
    else if st.state = ⟨false, false⟩ then (.skip, st)
    else if st.srvSscCopyState then (.sscCopy, st.nfs4StateMarkRecoveryFailed)
    else (.recover, st)

/-- A scan ends at its end or at a state to recover, and may have met a state of a server-side copy. -/
inductive Scan
  | atEnd (states : List ReclaimState) (ssc : Bool)
  | atState (pre : List ReclaimState) (st : ReclaimState) (post : List ReclaimState) (ssc : Bool)

def reclaimScan (bit : ReclaimBit) : List ReclaimState → Scan
  | [] => .atEnd [] false
  | st :: rest =>
    match st.visit bit with
    | (.recover, st) => .atState [] st rest false
    | (visit, st) =>
      match reclaimScan bit rest with
      | .atEnd states ssc => .atEnd (st :: states) (decide (visit = .sscCopy) || ssc)
      | .atState pre next post ssc => .atState (st :: pre) next post (decide (visit = .sscCopy) || ssc)

/-- The cases of the `switch` on the status. -/
inductive ReclaimCase
  | recovered
  | cannotRecover
  | tryAgain
  | nograce
  | nograceReturn
  | giveUp
deriving DecidableEq

/-- The `switch`; `-ENOENT`, `-ENOMEM`, `-EACCES`, `-EROFS`, `-EIO` and `-ESTALE` are handled as unhandled errors are. -/
def reclaimCase (status : Int) : ReclaimCase :=
  if 0 ≤ status then .recovered
  else if status = negErrno .eagain then .tryAgain
  else if status ∈ [Nfs4err.adminRevoked, Nfs4err.staleStateid, Nfs4err.oldStateid, Nfs4err.badStateid, Nfs4err.reclaimBad,
      Nfs4err.reclaimConflict].map negErr then
    .nograce
  else if status ∈ [Nfs4err.expired, Nfs4err.noGrace].map negErr then .nograceReturn
  else if status ∈ negErrno .etimedout :: [Nfs4err.staleClientid, Nfs4err.badsession, Nfs4err.badslot, Nfs4err.badHighSlot,
      Nfs4err.connNotBoundToSession].map negErr then
    .giveUp
  else .cannotRecover

namespace Reclaim
variable (s : Reclaim)

def markNograce (pre : List ReclaimState) (st : ReclaimState) (post : List ReclaimState) : Reclaim :=
  let (marked, st) := st.nfs4StateMarkReclaimNograce
  { s with
    soStates := pre ++ st :: post
    ownerReclaimNograce := s.ownerReclaimNograce || marked
    clntReclaimNograce := s.clntReclaimNograce || marked }

def handle (bit : ReclaimBit) (status : Int) (pre : List ReclaimState) (st : ReclaimState) (post : List ReclaimState) :
    Next Reclaim (Int × Reclaim) :=
  match reclaimCase status with
  | .recovered => .again { s with soStates := pre ++ st :: post, loop := 0 }
  | .cannotRecover => .again { s with soStates := pre ++ st.nfs4StateMarkRecoveryFailed :: post }
  | .tryAgain =>
    if s.loop < 10 then .again { s with soStates := pre ++ st.putFlag true bit :: post, loop := s.loop + 1 }
    else .again ({ s with loop := s.loop + 1 }.markNograce pre st post)
  | .nograce => .again (s.markNograce pre st post)
  | .nograceReturn => .done (status, s.markNograce pre st post)
  | .giveUp => .done (status, { s with soStates := pre ++ st :: post })

def scanOnce (ops : RecoveryOps) : Next Reclaim (Int × Reclaim) :=
  match reclaimScan ops.stateFlagBit s.soStates with
  | .atEnd states ssc =>
    let found := s.foundSscCopyState || ssc
    .done (if found then negErrno .eio else 0, { s with soStates := states, foundSscCopyState := found })
  | .atState pre st post ssc =>
    let r := ops.recover st.id st.attempts
    let (status, st, lostLocks) := nfs4ReclaimOneOpenState r st s.lostLocks
    -- the state is not a failed one, so `recover_open` marks the owner and the client with it
    let s := { s with
      ownerReclaimNograce := s.ownerReclaimNograce || r.marksNograce
      clntReclaimNograce := s.clntReclaimNograce || r.marksNograce
      foundSscCopyState := s.foundSscCopyState || ssc
      lostLocks := lostLocks }
    s.handle ops.stateFlagBit status pre st post

end Reclaim

/-- `nfs4_reclaim_open_state`, if it returns within `fuel` scans. -/
def nfs4ReclaimOpenState (fuel : Nat) (ops : RecoveryOps) (s : Reclaim) : Option (Int × Reclaim) :=
  run (fun s => s.scanOnce ops) fuel { s with loop := 0, foundSscCopyState := false }

end Mynfs
