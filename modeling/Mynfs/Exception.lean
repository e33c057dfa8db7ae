import Mynfs.Stateid

/-! What a caller does with an error (nfs4proc.c, `nfs4_handle_exception`): it tries again or gives up. -/

namespace Mynfs

namespace Nfs4err

/-! The codes of nfs4.h that the errors of this file and its users need. -/

abbrev expired : Nat := 10011
abbrev grace : Nat := 10013
abbrev shareDenied : Nat := 10015
abbrev wrongsec : Nat := 10016
abbrev moved : Nat := 10019
abbrev staleClientid : Nat := 10022
abbrev staleStateid : Nat := 10023
abbrev notSame : Nat := 10027
abbrev leaseMoved : Nat := 10031
abbrev openmode : Nat := 10038
abbrev badowner : Nat := 10039
abbrev badname : Nat := 10041
abbrev fileOpen : Nat := 10046
abbrev adminRevoked : Nat := 10047
abbrev layouttrylater : Nat := 10058
abbrev recallconflict : Nat := 10061
abbrev wrongCred : Nat := 10082
abbrev returnconflict : Nat := 10086
abbrev delegRevoked : Nat := 10087

end Nfs4err

/-- A negative error. -/
abbrev Failure := { e : Int // e < 0 }

/-- The return value of a call: 0 or its error. -/
def statusOf : Option Failure → Int
  | none => 0
  | some e => e.1

/-- Errors of the protocol as the VFS sees them. -/
def nfs4MapErrors (err : Int) : Int :=
  if -1000 ≤ err then err
  else if err ∈ [Nfs4err.resource, Nfs4err.layouttrylater, Nfs4err.recallconflict, Nfs4err.returnconflict].map negErr then
    negErrno .eremoteio
  else if err ∈ [Nfs4err.wrongsec, Nfs4err.wrongCred].map negErr then -1
  else if err ∈ [Nfs4err.badowner, Nfs4err.badname].map negErr then negErrno .einval
  else if err = negErr Nfs4err.shareDenied then negErrno .eacces
  -- `-EPROTONOSUPPORT`
  else if err = negErr Nfs4err.minorVersMismatch then -93
  else if err = negErr Nfs4err.fileOpen then negErrno .ebusy
  -- `-ENOTSYNC`
  else if err = negErr Nfs4err.notSame then -522
  else negErrno .eio

/-- The fields of `struct nfs4_exception` and of the server that are read, and what the called functions return. -/
structure ExceptionEnv where
  hasInode : Bool := false
  /-- The type of the recoverable stateid of the operation, or else of its open state. -/
  stateid : Option StateidType := none
  hasState : Bool := false
  asyncInodeReturnDelegation : Option Failure := none
  scheduleStateidRecovery : Option Failure := none
  scheduleMigrationRecovery : Option Failure := none
  timedOut : Bool := false
  uidgidNomap : Bool := false
  shouldRetrans : Option Failure := none
  delay : Option Failure := none
  taskIsPrivileged : Bool := false
  waitClntRecover : Option Failure := none
  migFailed : Bool := false

/-- The bits of `struct nfs4_exception`. -/
structure ExceptionFlags where
  delay : Bool := false
  recovering : Bool := false
  retry : Bool := false

/-- Recovery, a delay, a retry or the mapped error. -/
def nfs4DoHandleException (env : ExceptionEnv) (errorcode : Int) : ExceptionFlags × Int :=
  let waitOnRecovery : ExceptionFlags × Int := ({ recovering := true }, 0)
  let again : ExceptionFlags × Int := ({ retry := true }, nfs4MapErrors errorcode)
  let failed (ret : Int) : ExceptionFlags × Int := ({}, nfs4MapErrors ret)
  let revoked := [Nfs4err.delegRevoked, Nfs4err.adminRevoked, Nfs4err.expired, Nfs4err.badStateid, Nfs4err.partnerNoAuth]
  if errorcode = 0 then ({}, 0)
  else if errorcode = negErr Nfs4err.badhandle ∨ errorcode = negErrno .estale then failed errorcode
  else if errorcode ∈ revoked.map negErr ∧ env.hasInode ∧ env.stateid.isSome then waitOnRecovery
  else if errorcode ∈ (revoked ++ [Nfs4err.openmode]).map negErr then
    if env.hasInode ∧ env.asyncInodeReturnDelegation = none then waitOnRecovery
    else if env.hasInode ∧ env.stateid = some .delegation then again
    else if !env.hasState then failed errorcode
    else
      match env.scheduleStateidRecovery with
      | some e => failed e.1
      | none => waitOnRecovery
  else if errorcode ∈ [Nfs4err.staleStateid, Nfs4err.staleClientid, Nfs4err.leaseMoved, Nfs4err.badsession, Nfs4err.badslot,
      Nfs4err.badHighSlot, Nfs4err.connNotBoundToSession, Nfs4err.deadsession, Nfs4err.seqFalseRetry,
      Nfs4err.seqMisordered].map negErr then
    waitOnRecovery
  else if errorcode = negErr Nfs4err.moved then
    match env.scheduleMigrationRecovery with
    | some e => failed e.1
    | none => waitOnRecovery
  else if errorcode = negErr Nfs4err.fileOpen ∧ env.timedOut then failed (negErrno .ebusy)
  else if errorcode ∈ [Nfs4err.fileOpen, Nfs4err.delay, Nfs4err.grace, Nfs4err.layouttrylater, Nfs4err.recallconflict,
      Nfs4err.returnconflict].map negErr then
    ({ delay := true }, 0)
  else if errorcode ∈ [Nfs4err.retryUncachedRep, Nfs4err.oldStateid].map negErr then again
  else if errorcode ∈ [Nfs4err.badowner, Nfs4err.badname].map negErr ∧ env.uidgidNomap then again
  else failed errorcode

/-- Whether to try again, and what to return. -/
def nfs4HandleException (env : ExceptionEnv) (errorcode : Int) : Bool × Int :=
  let (flags, ret) := nfs4DoHandleException env errorcode
  let outRetry (status : Option Failure) : Bool × Int := (flags.retry || status.isNone, statusOf status)
  if flags.delay then
    match env.shouldRetrans with
    | some e => (false, e.1)
    | none => outRetry env.delay
  else if flags.recovering then
    -- `-EDEADLOCK`
    if env.taskIsPrivileged then (flags.retry, -35)
    else if env.migFailed then (flags.retry, negErrno .eio)
    else outRetry env.waitClntRecover
  else (flags.retry, ret)

end Mynfs
