import Mynfs.Stateid

/-! Open state (nfs4proc.c, nfs4state.c). Where a function drops its locks, it is cut in two. -/

namespace Mynfs

/-- `FMODE_READ` and `FMODE_WRITE`. -/
structure Fmode where
  read : Bool
  write : Bool
deriving DecidableEq

namespace Fmode

def covers (m sub : Fmode) : Bool := (!sub.read || m.read) && (!sub.write || m.write)

def or (m n : Fmode) : Fmode := ⟨m.read || n.read, m.write || n.write⟩

end Fmode

/-- The stateids, the bits of `flags`, the number of opens of each mode, and their union. -/
structure Nfs4State where
  openStateid : Stateid := {}
  stateid : Stateid := {}
  openState : Bool := false
  rdonlyState : Bool := false
  wronlyState : Bool := false
  rdwrState : Bool := false
  delegatedState : Bool := false
  reclaimNograce : Bool := false
  recoveryFailed : Bool := false
  nRdonly : Nat := 0
  nWronly : Nat := 0
  nRdwr : Nat := 0
  state : Fmode := ⟨false, false⟩
deriving DecidableEq

def invalidStateid : Stateid := ⟨.invalid, 0xffffffff, 0⟩

namespace Nfs4State
variable (st : Nfs4State)

def nfsStateidIsSequential (stateid : Stateid) : Bool :=
  if st.openState && stateid.nfs4StateidMatchOther st.openStateid then st.openStateid.nfs4StateidIsNext stateid
  else decide (stateid.seqid = 1)

/-- How the last wait in `nfs_set_open_stateid_locked` ended, if there was one. -/
inductive WaitStatus
  | ok
  | eagain
  | eintr
deriving DecidableEq

/-- What a round of the loop in `nfs_set_open_stateid_locked` decides. -/
inductive SetTest
  | update
  | skip
  | wait
deriving DecidableEq

def setOpenStateidTest (hasSession : Bool) (stateid : Stateid) (status : WaitStatus) : SetTest :=
  if st.nfsStateidIsSequential stateid then .update
  else if status ≠ .ok then
    if stateid.nfs4StateidMatchOther st.openStateid && !stateid.nfs4StateidIsNewer st.openStateid then .skip
    else .update
  else if !hasSession then .update
  else .wait

def nfsTestAndClearAllOpenStateid : Nfs4State :=
  let needRecover := (st.rdonlyState && decide (st.nRdonly ≠ 0)) || (st.wronlyState && decide (st.nWronly ≠ 0)) ||
    (st.rdwrState && decide (st.nRdwr ≠ 0))
  { st with
    rdonlyState := false
    wronlyState := false
    rdwrState := false
    reclaimNograce := st.reclaimNograce || (needRecover && !st.recoveryFailed) }

def nfsSetOpenStateidLocked (stateid : Stateid) : Nfs4State :=
  let st := if st.openState && !stateid.nfs4StateidMatchOther st.openStateid then st.nfsTestAndClearAllOpenStateid
    else st
  let st := if !st.delegatedState then { st with stateid := stateid } else st
  { st with openStateid := stateid }

def setOpenMode (fmode : Fmode) : Nfs4State :=
  let st := match fmode with
    | ⟨true, false⟩ => { st with rdonlyState := true }
    | ⟨false, true⟩ => { st with wronlyState := true }
    | ⟨true, true⟩ => { st with rdwrState := true }
    | ⟨false, false⟩ => st
  { st with openState := true }

def nfsStateSetOpenStateid (test : SetTest) (stateid : Stateid) (fmode : Fmode) : Nfs4State :=
  (if test = .update then st.nfsSetOpenStateidLocked stateid else st).setOpenMode fmode

def nfs4StateSetModeLocked (fmode : Fmode) : Nfs4State := { st with state := fmode }

def updateOpenStateflags (fmode : Fmode) : Nfs4State :=
  let st := match fmode with
    | ⟨false, true⟩ => { st with nWronly := st.nWronly + 1 }
    | ⟨true, false⟩ => { st with nRdonly := st.nRdonly + 1 }
    | ⟨true, true⟩ => { st with nRdwr := st.nRdwr + 1 }
    | ⟨false, false⟩ => st
  st.nfs4StateSetModeLocked (st.state.or fmode)

def nfsStateSetDelegation (delegStateid : Stateid) : Nfs4State :=
  { st with stateid := delegStateid, delegatedState := true }

end Nfs4State

/-- The delegation of the inode. -/
structure OpenDelegation where
  stateid : Stateid
  type : Fmode
  returning : Bool := false
deriving DecidableEq

/-- The delegation can be used for an open with the mode, and is the one that the caller knows, if any. -/
def OpenDelegation.suits (d : OpenDelegation) (delegation : Option Stateid) (fmode : Fmode) : Bool :=
  !d.returning && d.type.covers fmode &&
    (match delegation with
      | none => true
      | some s => d.stateid.nfs4StateidMatchOther s)

/-- The claim types of an OPEN. -/
inductive OpenClaim
  | null
  | previous
  | delegateCur
  | delegatePrev
  | fh
  | delegCurFh
  | delegPrevFh

namespace Nfs4State
variable (st : Nfs4State)

/-- `update_open_stateid` after the open stateid is set, or if there is none (`hasOpen`). Is the file open? -/
def updateOpenStateidFinish (deleg : Option OpenDelegation) (hasOpen : Bool) (delegation : Option Stateid)
    (fmode : Fmode) : Bool × Nfs4State :=
  match deleg with
  | some d =>
    if d.suits delegation fmode then (true, (st.nfsStateSetDelegation d.stateid).updateOpenStateflags fmode)
    else (hasOpen, if hasOpen then st.updateOpenStateflags fmode else st)
  | none => (hasOpen, if hasOpen then st.updateOpenStateflags fmode else st)

/-- `truncates` tells that the open has `O_EXCL` or `O_TRUNC`. -/
def canOpenCached (mode : Fmode) (truncates : Bool) (claim : OpenClaim) : Bool :=
  if truncates then false
  else
    match claim with
    | .null | .fh => false
    | _ =>
      match mode with
      | ⟨true, false⟩ => st.rdonlyState && decide (st.nRdonly ≠ 0)
      | ⟨false, true⟩ => st.wronlyState && decide (st.nWronly ≠ 0)
      | ⟨true, true⟩ => st.rdwrState && decide (st.nRdwr ≠ 0)
      | ⟨false, false⟩ => false

def nfsResyncOpenStateidLocked : Nfs4State :=
  if st.nWronly = 0 ∧ st.nRdonly = 0 ∧ st.nRdwr = 0 then st
  else
    { st with
      wronlyState := st.wronlyState || decide (st.nWronly ≠ 0)
      rdonlyState := st.rdonlyState || decide (st.nRdonly ≠ 0)
      rdwrState := st.rdwrState || decide (st.nRdwr ≠ 0)
      openState := true }

def clearOpenMode (fmode : Fmode) : Nfs4State :=
  let st := { st with rdwrState := false }
  match fmode with
  | ⟨false, true⟩ => { st with rdonlyState := false }
  | ⟨true, false⟩ => { st with wronlyState := false }
  | ⟨false, false⟩ => { st with rdonlyState := false, wronlyState := false, openState := false }
  | ⟨true, true⟩ => st

def nfsClearOpenStateidLocked (stateid : Option Stateid) (fmode : Fmode) : Nfs4State :=
  let st := st.clearOpenMode fmode
  match stateid with
  | none => st
  | some stateid =>
    if stateid.nfs4StateidMatchOther st.openStateid && !stateid.nfs4StateidIsNewer st.openStateid then
      st.nfsResyncOpenStateidLocked
    else
      let st := if !st.delegatedState then { st with stateid := stateid } else st
      { st with openStateid := stateid }

def nfs4StateMatchOpenStateidOther (stateid : Stateid) : Bool :=
  st.openState && st.openStateid.nfs4StateidMatchOther stateid

def nfsClearOpenStateid (argStateid : Stateid) (stateid : Option Stateid) (fmode : Fmode) : Nfs4State :=
  if st.nfs4StateMatchOpenStateidOther argStateid then st.nfsClearOpenStateidLocked stateid fmode else st

def closeCount (fmode : Fmode) : Nfs4State :=
  match fmode with
  | ⟨true, false⟩ => { st with nRdonly := st.nRdonly - 1 }
  | ⟨false, true⟩ => { st with nWronly := st.nWronly - 1 }
  | ⟨true, true⟩ => { st with nRdwr := st.nRdwr - 1 }
  | ⟨false, false⟩ => st

/-- `__nfs4_close` up to the call of `nfs4_do_close`, which is made if the flag in the result is set. -/
def nfs4Close (fmode : Fmode) : Bool × Nfs4State :=
  let st := st.closeCount fmode
  if st.nRdwr = 0 then
    let newstate : Fmode := ⟨decide (st.nRdonly ≠ 0), decide (st.nWronly ≠ 0)⟩
    let callClose := (decide (st.nRdonly = 0) && (st.rdonlyState || st.rdwrState)) ||
      (decide (st.nWronly = 0) && (st.wronlyState || st.rdwrState))
    let st := if newstate = ⟨false, false⟩ then { st with delegatedState := false } else st
    (callClose, st.nfs4StateSetModeLocked newstate)
  else (false, st.nfs4StateSetModeLocked ⟨true, true⟩)

/-- No CLOSE is made if there is no open stateid. -/
def nfs4CopyOpenStateid : Option Stateid := if st.openState then some st.openStateid else none

def nfs4SyncOpenStateid (dst : Stateid) : Stateid :=
  if st.recoveryFailed then dst
  else if st.nfs4StateMatchOpenStateidOther dst then
    if Serial.diff dst.seqid st.openStateid.seqid < 0 then { dst with seqid := st.openStateid.seqid } else dst
  else st.openStateid

/-- The share mode that `nfs4_close_prepare` asks for, and whether there is anything to ask. -/
def closeMode : Fmode × Bool :=
  if st.nRdwr = 0 then
    let fmode : Fmode := ⟨decide (st.nRdonly ≠ 0) && st.rdonlyState, decide (st.nWronly ≠ 0) && st.wronlyState⟩
    (fmode, (decide (st.nRdonly = 0) && st.rdonlyState) || (decide (st.nWronly = 0) && st.wronlyState) ||
      (decide (fmode ≠ ⟨true, true⟩) && st.rdwrState))
  else (if st.rdwrState then ⟨true, true⟩ else ⟨false, false⟩, false)

/-- The stateid and share mode of the OPEN_DOWNGRADE, or of the CLOSE if the share mode is empty. -/
def nfs4ClosePrepare (argStateid : Stateid) : Option (Stateid × Fmode) :=
  if st.closeMode.2 && !st.recoveryFailed then some (st.nfs4SyncOpenStateid argStateid, st.closeMode.1) else none

end Nfs4State

/-- The stateid that `nfs4_close_done` gets; for a CLOSE the invalid one, which `decode_close` puts there. -/
def closeResStateid (fmode : Fmode) (reply : Stateid) : Stateid :=
  if fmode = ⟨false, false⟩ then invalidStateid else reply

end Mynfs
