import Mynfs.Open.State

/-! The stateid of a READ or WRITE (nfs4state.c). References to lock states and to credentials are not counted. -/

namespace Mynfs

/-- `struct nfs4_lock_state`. -/
structure LockState where
  lsOwner : Nat
  lsStateid : Stateid
  initialized : Bool
  lost : Bool

/-- `struct nfs_lock_context`: `lockowner`, and `flock_owner` of its open context. -/
structure LockContext where
  lockowner : Nat
  flockOwner : Nat

/-- `struct nfs_delegation`. -/
structure InodeDelegation where
  stateid : Stateid
  type : Fmode
  revoked : Bool
  returning : Bool
  cred : Nat

/-- A `struct nfs4_state` with its locks, the delegation of its inode, and a capability of the server. -/
structure RwState where
  state : Nfs4State
  lockStates : List LockState
  lkStateInUse : Bool
  delegation : Option InodeDelegation
  capStateidNfsv41 : Bool
  in_use : lockStates ≠ [] → lkStateInUse

def zeroStateid : Stateid := { type := .special }

def findLockState (flOwner flOwner2 : Nat) : List LockState → Option LockState → Option LockState
  | [], ret => ret
  | pos :: rest, ret =>
    if pos.lsOwner = flOwner then some pos
    else findLockState flOwner flOwner2 rest (if pos.lsOwner = flOwner2 then some pos else ret)

def InodeDelegation.isValid (d : InodeDelegation) (type : Fmode) : Bool := d.type.covers type && !d.revoked && !d.returning

namespace RwState
variable (s : RwState)

def nfs4FindLockState (flOwner flOwner2 : Nat) : Option LockState := findLockState flOwner flOwner2 s.lockStates none

def nfs4CopyLockStateid (dst : Stateid) (lCtx : Option LockContext) : Int × Stateid :=
  match lCtx with
  | none => (negErrno .enoent, dst)
  | some lCtx =>
    if !s.lkStateInUse then (negErrno .enoent, dst)
    else
      match s.nfs4FindLockState lCtx.lockowner lCtx.flockOwner with
      | none => (negErrno .enoent, dst)
      | some lsp =>
        if lsp.lost then (negErrno .eio, dst)
        else if lsp.initialized then (0, lsp.lsStateid)
        else (negErrno .enoent, dst)

/-- The stateid and the credential of the delegation, if it can be used. -/
def nfs4CopyDelegationStateid (flags : Fmode) : Option (Stateid × Nat) :=
  match s.delegation with
  | none => none
  | some d => if d.isValid flags then some (d.stateid, d.cred) else none

def nfs4CopyOpenStateid : Bool × Stateid :=
  if s.state.openState then (true, s.state.openStateid) else (false, zeroStateid)

/-- What `nfs4_select_rw_stateid` returns, and leaves behind its pointers. -/
structure Selected where
  ret : Int
  dst : Stateid
  cred : Option Nat
deriving DecidableEq

section
variable (fmode : Fmode) (lCtx : Option LockContext) (dst : Stateid)

def selectStateid : Selected :=
  let (ret, dst) := s.nfs4CopyLockStateid dst lCtx
  if ret = negErrno .eio then ⟨ret, dst, none⟩
  else
    match s.nfs4CopyDelegationStateid fmode with
    | some (stateid, cred) => ⟨0, stateid, some cred⟩
    | none =>
      if ret ≠ negErrno .enoent then ⟨ret, dst, none⟩
      else
        let (found, dst) := s.nfs4CopyOpenStateid
        ⟨if found then 0 else negErrno .eagain, dst, none⟩

/-- `dst` and `cred` are what the pointers point to before. -/
def nfs4SelectRwStateid (cred : Option Nat) : Selected :=
  if s.state.recoveryFailed then ⟨negErrno .eio, dst, cred⟩
  else
    let r := s.selectStateid fmode lCtx dst
    if s.capStateidNfsv41 then { r with dst := { r.dst with seqid := 0 } } else r

end

end RwState

end Mynfs
