import Mynfs.Exception
import Mynfs.Copy.Offload

/-! Server-side COPY (nfs42proc.c) with its COMMIT, whose count has 32 bits. Answers and failures are given by attempt. -/

namespace Mynfs

namespace Nfs4err

abbrev offloadDenied : Nat := 10091
abbrev offloadNoReqs : Nat := 10094

end Nfs4err

def negEnotsupp : Int := -524

def negEopnotsupp : Int := -95

/-- A COMMIT and the verifier it was answered with. -/
structure Commit where
  offset : U64
  count : U32
  verifier : U64
deriving DecidableEq

/-- One try of a COMMIT of its own, with the verifier if it is answered. -/
structure CommitTry where
  call : Option Failure := none
  verifier : U64 := 0
  exception : ExceptionEnv := {}

/-- The status, the verifier in the caller's buffer, and whether the last try was answered; nothing while it tries
    again. -/
def nfs4ProcCommit (verf : U64) : List CommitTry → Option (Int × U64 × Bool)
  | [] => none
  | try_ :: tries =>
    let verf := if try_.call.isNone then try_.verifier else verf
    let (retry, status) := nfs4HandleException try_.exception (statusOf try_.call)
    if retry then nfs4ProcCommit verf tries else some (status, verf, try_.call.isNone)

/-- `struct nfs42_copy_res`. -/
structure CopyRes where
  stateid : Stateid := {}
  count : U64 := 0
  verifier : WriteVerf := {}
  synchronous : Bool := false
  commitVerf : U64 := 0

def processCopyCommit (canAlloc : Bool) (posDst : U64) (res : CopyRes) (tries : List CommitTry) :
    Option (Int × Option Commit) :=
  if !canAlloc then some (negErrno .enomem, none)
  else
    (nfs4ProcCommit 0 tries).map fun (status, verf, answered) =>
      let commit : Option Commit := if answered then some ⟨posDst, res.count.setWidth 32, verf⟩ else none
      if status ≠ 0 then (status, commit)
      else (if res.verifier.verifier ≠ verf then negErrno .eagain else 0, commit)

/-- How an asynchronous copy ends for `handle_async_copy`. -/
inductive AsyncEnd
  | noMemory
  | interrupted
  /-- The state of a file was recovered meanwhile, or the servers do not trust each other. -/
  | restarted
  | finished (copy : CopyState)

def AsyncEnd.result (r : AsyncCopyResult) : AsyncEnd → AsyncCopyResult
  | .noMemory => { r with status := negErrno .enomem }
  | .interrupted => { r with status := negErrno .erestartsys }
  | .restarted => { r with status := negErrno .eagain, restart := true }
  | .finished copy => copyOut r copy

/-- The answers in one call of `_nfs42_proc_copy`. -/
structure CopyAttempt where
  srcStateid : Option Failure := none
  flushSrc : Option Failure := none
  dstStateid : Option Failure := none
  syncDst : Option Failure := none
  canAllocVerf : Bool := true
  call : Option Failure := none
  /-- What is in `res` after the call, successful or not. -/
  res : CopyRes := {}
  async : AsyncEnd := .interrupted
  canAllocCommit : Bool := true
  commits : List CommitTry := []
  srcException : ExceptionEnv := {}
  dstException : ExceptionEnv := {}

/-- The arguments of `nfs42_proc_copy`. -/
structure CopyCall where
  posDst : U64
  count : U64
  /-- `nss`: the source is on another server, which has given a stateid. -/
  inter : Bool := false
  sameServer : Bool := true

/-- The variables of the loop in `nfs42_proc_copy`; `res` is not initialised. -/
structure CopyLoop where
  sync : Bool
  res : CopyRes
  restart : Bool := false

/-- What `nfs42_proc_copy` returns. -/
structure CopyOutcome where
  status : Int
  vars : CopyLoop
  /-- The COMMIT that was answered after the copy was done. Not in the source. -/
  commit : Option Commit := none

namespace CopyCall
variable (c : CopyCall)

def prepare (a : CopyAttempt) (sync : Bool) : Option Int :=
  let rwStateid (e : Failure) : Int := if e.1 = negErrno .eagain then negErr Nfs4err.badStateid else e.1
  if !c.inter ∧ a.srcStateid.isSome then a.srcStateid.map rwStateid
  else if a.flushSrc.isSome then a.flushSrc.map (·.1)
  else if a.dstStateid.isSome then a.dstStateid.map rwStateid
  else if a.syncDst.isSome then a.syncDst.map (·.1)
  else if sync && !a.canAllocVerf then some (negErrno .enomem)
  else none

def commitCopy (a : CopyAttempt) (v : CopyLoop) : Option CopyOutcome :=
  if (!v.res.synchronous || !v.sync) ∧ v.res.verifier.committed ≠ nfsFileSync then
    (processCopyCommit a.canAllocCommit c.posDst v.res a.commits).map fun (status, commit) =>
      ⟨if status ≠ 0 then status else v.res.count.toInt, v, commit⟩
  else
    -- the COMMIT in the compound came after the copy if the copy was synchronous
    let commit : Option Commit :=
      if v.sync && v.res.synchronous then some ⟨c.posDst, c.count.setWidth 32, v.res.commitVerf⟩ else none
    some ⟨v.res.count.toInt, v, commit⟩

def proc (a : CopyAttempt) (v : CopyLoop) : Option CopyOutcome :=
  match c.prepare a v.sync with
  | some status => some ⟨status, v, none⟩
  | none =>
    let v := { v with res := a.res }
    if a.call.isSome then some ⟨statusOf a.call, v, none⟩
    else if v.sync ∧ v.res.verifier.verifier ≠ v.res.commitVerf then some ⟨negErrno .eagain, v, none⟩
    else if !v.res.synchronous then
      let r := a.async.result ⟨0, v.restart, v.res.count, v.res.verifier, []⟩
      let v := { v with restart := r.restart, res := { v.res with count := r.count, verifier := r.verf } }
      if r.status ≠ 0 then some ⟨r.status, v, none⟩ else c.commitCopy a v
    else c.commitCopy a v

/-- There is no result as long as it tries again. -/
def nfs42ProcCopy (v : CopyLoop) : List CopyAttempt → Option CopyOutcome
  | [] => none
  | a :: attempts =>
    match c.proc a v with
    | none => none
    | some o =>
      let err := o.status
      if 0 ≤ err then some o
      else if (err = negEnotsupp ∨ err = negErr Nfs4err.offloadDenied) ∧ c.sameServer then some { o with status := negEopnotsupp }
      else if err = negErrno .eagain then if !o.vars.restart then nfs42ProcCopy o.vars attempts else some o
      else if err = negErr Nfs4err.offloadNoReqs ∧ o.vars.sync ≠ o.vars.res.synchronous then
        nfs42ProcCopy { o.vars with sync := o.vars.res.synchronous } attempts
      else if (err = negErrno .estale ∨ err = negErr Nfs4err.offloadDenied ∨ err = negEnotsupp) ∧ !c.sameServer then
        some { o with status := negEopnotsupp }
      else
        let (srcRetry, err2) := nfs4HandleException a.srcException err
        let (dstRetry, err) := nfs4HandleException a.dstException err
        if srcRetry || dstRetry then nfs42ProcCopy o.vars attempts
        else some { o with status := if err = 0 then err2 else err }

end CopyCall

end Mynfs
