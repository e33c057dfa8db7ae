import Mynfs.Exception
import Mynfs.Open.Select
import Mynfs.Open.System

/-! The stateid that the client works with and the one given for the open (nfs4proc.c), as opens, closes, recalls and
    the recovery of an expired open write them; the delegation is an input. -/

namespace Mynfs
open Nfs4State

namespace Nfs4State
variable (st : Nfs4State)

def nfsStateClearDelegation : Nfs4State := { st with stateid := st.openStateid, delegatedState := false }

def nfsStateClearOpenStateFlags : Nfs4State :=
  { st with rdwrState := false, wronlyState := false, rdonlyState := false, openState := false }

def nfsOpenStateidRecoverOpenmode : Bool :=
  (decide (st.nRdonly ≠ 0) && !st.rdonlyState) || (decide (st.nWronly ≠ 0) && !st.wronlyState) ||
    (decide (st.nRdwr ≠ 0) && !st.rdwrState)

end Nfs4State

/-- `testStateid` is the status of the TEST_STATEID. -/
def nfs41TestAndFreeExpiredStateid (stateid : Stateid) (testStateid : Int) : Int :=
  match stateid.type with
  | .invalid | .special | .freed => negErr Nfs4err.badStateid
  | .revoked => negErr Nfs4err.expired
  | _ =>
    if testStateid ∈ [Nfs4err.expired, Nfs4err.adminRevoked, Nfs4err.delegRevoked].map negErr then negErr Nfs4err.expired
    else testStateid

namespace Nfs4State
variable (st : Nfs4State)

section
variable (delegation : Option InodeDelegation)

/-- `testExpired` is the bit `NFS_DELEGATION_TEST_EXPIRED`. -/
def nfs41CheckDelegationStateid (testExpired : Bool) (testStateid : Int) : Int × Nfs4State :=
  match delegation with
  | none => (0, st.nfsStateClearDelegation)
  | some d =>
    if !testExpired then (0, st)
    else
      let status := nfs41TestAndFreeExpiredStateid d.stateid testStateid
      if status = negErr Nfs4err.expired ∨ status = negErr Nfs4err.badStateid then (0, st.nfsStateClearDelegation)
      else (status, st)

/-- The stateid that `nfs41_delegation_recover_stateid` installs. -/
def recoverableDelegation : Option Stateid :=
  match delegation with
  | none => none
  | some d =>
    if st.delegatedState && d.isValid st.state && st.stateid.nfs4StateidMatchOther d.stateid then some d.stateid else none

def nfs41DelegationRecoverStateid : Nfs4State :=
  match st.recoverableDelegation delegation with
  | some tmp => st.nfsStateSetDelegation tmp
  | none => st.nfsStateClearDelegation

end

def nfs41CheckOpenStateid (testStateid : Int) : Int × Nfs4State :=
  if !st.openState then (negErr Nfs4err.badStateid, st)
  else
    let status := nfs41TestAndFreeExpiredStateid st.openStateid testStateid
    if status = negErr Nfs4err.expired ∨ status = negErr Nfs4err.badStateid then
      (status, { st.nfsStateClearOpenStateFlags with openStateid := { st.openStateid with type := .invalid } })
    else if st.nfsOpenStateidRecoverOpenmode then (negErr Nfs4err.openmode, st)
    else (0, st)

def nfs40OpenExpired (hasDelegation : Bool) : Nfs4State :=
  (if hasDelegation then st.nfsStateClearDelegation else st).nfsStateClearOpenStateFlags

def nfs4OpenRecoverEnd : Nfs4State :=
  if !st.delegatedState && !st.stateid.nfs4StateidMatch st.openStateid then { st with stateid := st.openStateid } else st

end Nfs4State

/-- The loop returns or tries again. `nfs4_clear_cap_atomic_open_v1` takes `atomicOpenV1` away. -/
def nfs4DoOpenExpired (atomicOpenV1 : Bool) (env : ExceptionEnv) (err : Int) : Option Int :=
  if err = negErrno .einval ∧ atomicOpenV1 then none
  else if err = negErr Nfs4err.grace ∨ err = negErr Nfs4err.delay then
    -- `err` is 0 from here on, also if there is no retry
    if (nfs4HandleException env err).1 then none else some 0
  else some err

/-- Where the recovery of an expired open is. -/
inductive ExpiredPhase
  | idle
  | delegationChecked
  | delegationRecovered
  | opening
deriving DecidableEq

/-- An open state with its recovery. -/
structure StateidSys where
  hasSession : Bool
  st : Nfs4State := {}
  /-- The stateid that `nfs_state_set_delegation` was last called with. -/
  installed : Option Stateid := none
  opener : Option Fmode := none
  waiting : List (Stateid × Fmode) := []
  phase : ExpiredPhase := .idle
  /-- The open needs a recovery, and none has been completed without an error since. -/
  unrecovered : Bool := false

/-- What writes the two stateids. -/
inductive StateidEvent
  | openReply (stateid : Stateid) (fmode : Fmode)
  /-- A waiting OPEN reply goes on: it was woken up, the five seconds are over, or there is a signal. -/
  | wake (i : Nat) (status : WaitStatus)
  | finishOpen (deleg : Option OpenDelegation)
  | delegatedOpen (deleg : Option OpenDelegation) (delegation : Option Stateid) (fmode : Fmode)
  | cachedOpen (fmode : Fmode) (truncates : Bool) (claim : OpenClaim)
  | close (fmode : Fmode)
  | closeReply (argStateid : Stateid) (stateid : Option Stateid) (fmode : Fmode)
  /-- The end of `nfs4_open_delegation_recall`, if none of its OPENs has failed. -/
  | recalled
  | checkDelegation (delegation : Option InodeDelegation) (testExpired : Bool) (testStateid : Int)
  | recoverDelegation (delegation : Option InodeDelegation)
  /-- `nfs41_check_expired_locks`, with its status, and `nfs41_check_open_stateid`. -/
  | checkOpen (expiredLocks : Int) (testStateid : Int)
  | open40Expired (hasDelegation : Bool)
  | openExpired (err : Int) (atomicOpenV1 : Bool) (env : ExceptionEnv)

namespace StateidSys
variable (s : StateidSys)

def setRound (stateid : Stateid) (fmode : Fmode) (status : WaitStatus) : StateidSys :=
  match s.st.setOpenStateidTest s.hasSession stateid status with
  | .wait => { s with waiting := s.waiting ++ [(stateid, fmode)] }
  | test => { s with st := s.st.nfsStateSetOpenStateid test stateid fmode, opener := some fmode }

def finishOpen (deleg : Option OpenDelegation) (hasOpen : Bool) (delegation : Option Stateid) (fmode : Fmode) : StateidSys :=
  { s with
    st := (s.st.updateOpenStateidFinish deleg hasOpen delegation fmode).2
    installed := match deleg with
      | some d => if d.suits delegation fmode then some d.stateid else s.installed
      | none => s.installed }

def checkOpen (expiredLocks : Int) (testStateid : Int) : StateidSys :=
  if expiredLocks ≠ 0 then { s with phase := .idle }
  else
    let r := s.st.nfs41CheckOpenStateid testStateid
    if r.1 = 0 then { s with st := r.2, phase := .idle, unrecovered := false }
    else { s with st := r.2, phase := .opening, unrecovered := true }

def openExpired (err : Int) (atomicOpenV1 : Bool) (env : ExceptionEnv) : StateidSys :=
  let s := if err = 0 then { s with st := s.st.nfs4OpenRecoverEnd } else s
  match nfs4DoOpenExpired atomicOpenV1 env err with
  | none => s
  | some ret => { s with phase := .idle, unrecovered := s.unrecovered && decide (ret ≠ 0) }

def step : StateidEvent → Option StateidSys
  | .openReply stateid fmode => if s.opener = none then some (s.setRound stateid fmode .ok) else none
  | .wake i status =>
    if s.opener = none then
      (s.waiting[i]?).map fun (stateid, fmode) =>
        StateidSys.setRound { s with waiting := s.waiting.eraseIdx i } stateid fmode status
    else none
  | .finishOpen deleg => s.opener.map fun fmode => { s.finishOpen deleg true none fmode with opener := none }
  | .delegatedOpen deleg delegation fmode => if s.opener = none then some (s.finishOpen deleg false delegation fmode) else none
  | .cachedOpen fmode truncates claim =>
    if s.opener = none ∧ s.st.canOpenCached fmode truncates claim then some { s with st := s.st.updateOpenStateflags fmode }
    else none
  | .close fmode =>
    -- the file is open with this mode
    if s.opener = none ∧ s.st.count fmode ≠ 0 then some { s with st := (s.st.nfs4Close fmode).2 } else none
  | .closeReply argStateid stateid fmode => some { s with st := s.st.nfsClearOpenStateid argStateid stateid fmode }
  | .recalled => some { s with st := s.st.nfsStateClearDelegation }
  | .checkDelegation delegation testExpired testStateid =>
    if s.hasSession ∧ s.phase = .idle then
      let r := s.st.nfs41CheckDelegationStateid delegation testExpired testStateid
      some { s with st := r.2, phase := if r.1 = 0 then .delegationChecked else .idle }
    else none
  | .recoverDelegation delegation =>
    if s.phase = .delegationChecked then
      some { s with
        st := s.st.nfs41DelegationRecoverStateid delegation
        installed := (s.st.recoverableDelegation delegation).or s.installed
        phase := .delegationRecovered }
    else none
  | .checkOpen expiredLocks testStateid =>
    if s.phase = .delegationRecovered then some (s.checkOpen expiredLocks testStateid) else none
  | .open40Expired hasDelegation =>
    if !s.hasSession ∧ s.phase = .idle then
      some { s with st := s.st.nfs40OpenExpired hasDelegation, phase := .opening, unrecovered := true }
    else none
  | .openExpired err atomicOpenV1 env => if s.phase = .opening then some (s.openExpired err atomicOpenV1 env) else none

end StateidSys

end Mynfs
