import Mathlib.Logic.Function.Basic
import Mynfs.Stateid

/-! The delegations of a server (delegation.c). What runs under a lock or is one atomic bit operation is one function. -/

namespace Mynfs

open Function

/-- `delegation->flags`: `NFS_DELEGATION_RETURN`, `NFS_DELEGATION_RETURN_IF_CLOSED` and so on. -/
structure DelegFlags where
  ret : Bool := false
  returnIfClosed : Bool := false
  returning : Bool := false
  revoked : Bool := false
  inodeFreeing : Bool := false
  returnDelayed : Bool := false
deriving DecidableEq

/-- The delegations of one server, with the flags of the server and of its client that announce work. -/
structure Delegations where
  inode : Nat → Option Nat
  stateid : Nat → Stateid
  flags : Nat → DelegFlags
  delegation : Nat → Option Nat
  freeing : Nat → Bool
  opened : Nat → Bool
  superList : List Nat
  servDelegreturn : Bool := false
  servDelegreturnDelayed : Bool := false
  clntDelegreturn : Bool := false
  clntDelegreturnDelayed : Bool := false
  linked : ∀ d i, inode d = some i → delegation i = some d

namespace Delegations
variable (s : Delegations)

def setFlags (d : Nat) (f : DelegFlags → DelegFlags) : Delegations :=
  { s with flags := update s.flags d (f (s.flags d)) }

def setStateid (d : Nat) (stateid : Stateid) : Delegations :=
  { s with stateid := update s.stateid d stateid }

@[simp] theorem flags_setFlags_self (d : Nat) (f : DelegFlags → DelegFlags) :
    (s.setFlags d f).flags d = f (s.flags d) := update_self ..

theorem flags_setFlags_of_ne {d d' : Nat} (h : d' ≠ d) (f : DelegFlags → DelegFlags) :
    (s.setFlags d f).flags d' = s.flags d' := update_of_ne h ..

@[simp] theorem flags_setStateid (d : Nat) (stateid : Stateid) : (s.setStateid d stateid).flags = s.flags := rfl

def nfsMarkReturnDelegation (d : Nat) : Delegations :=
  { s.setFlags d ({ · with ret := true }) with servDelegreturn := true, clntDelegreturn := true }

def nfsMarkDelegationRevoked (d : Nat) : Delegations :=
  if (s.flags d).revoked then s
  else (s.setFlags d ({ · with revoked := true })).setStateid d { s.stateid d with type := .invalid }

def nfs4IsValidDelegation (d : Nat) : Bool := !(s.flags d).revoked && !(s.flags d).returning

section
variable (inode : Nat)

def nfs4GetValidDelegation : Option Nat :=
  match s.delegation inode with
  | none => none
  | some d => if s.nfs4IsValidDelegation d then some d else none

def nfsDelegationGrabInode (d : Nat) : Option Nat × Delegations :=
  match s.inode d with
  | some i => if s.freeing i then (none, s.setFlags d ({ · with inodeFreeing := true })) else (some i, s)
  | none => (none, s.setFlags d ({ · with inodeFreeing := true }))

def nfsStartDelegationReturnLocked : Option Nat × Delegations :=
  match s.delegation inode with
  | none => (none, s)
  | some d =>
    if (s.inode d).isSome ∧ (s.flags d).returning = false then
      (some d, s.setFlags d ({ · with returning := true, returnDelayed := false }))
    else (none, s)

def nfsAbortDelegationReturn (d : Nat) (err : Int) : Delegations :=
  if err = negErrno .eagain then
    { s.setFlags d ({ · with returning := false, returnDelayed := true }) with
      servDelegreturnDelayed := true, clntDelegreturnDelayed := true }
  else s.setFlags d ({ · with returning := false })

def nfsDetachDelegation (inode d : Nat) : Delegations :=
  if h : s.delegation inode = some d ∧ s.inode d ≠ none then
    { s with
      superList := s.superList.erase d
      inode := update s.inode d none
      delegation := update s.delegation inode none
      linked := fun d' i' hd' => by
        by_cases hd : d' = d
        · subst hd
          simp at hd'
        · rw [update_of_ne hd] at hd'
          have hlink := s.linked d' i' hd'
          have hi : i' ≠ inode := fun hi => hd (Option.some.inj ((hi ▸ hlink).symm.trans h.1))
          rw [update_of_ne hi, hlink] }
  else s

def nfsDelegationNeedReturn (d : Nat) : Bool × Delegations :=
  let f := s.flags d
  (f.ret && !(f.returning || f.returnDelayed || f.revoked), s.setFlags d ({ · with ret := false }))

def clearDelayed (d : Nat) : Delegations :=
  if (s.flags d).returnDelayed then (s.nfsMarkReturnDelegation d).setFlags d ({ · with returnDelayed := false }) else s

def nfsInodeEvictDelegation : Delegations :=
  match s.delegation inode with
  | none => s
  | some d =>
    if s.inode d = none then s
    else (s.nfsDetachDelegation inode d).setFlags d ({ · with returning := true, inodeFreeing := true })

def nfs4InodeSetReturnDelegationOnClose : Option Nat × Delegations :=
  match s.nfs4GetValidDelegation inode with
  | none => (none, s)
  | some d =>
    if s.inode d = none then (none, s)
    else if !s.opened inode ∧ (s.flags d).returning = false then (some d, s.setFlags d ({ · with returning := true }))
    else (none, s.setFlags d ({ · with returnIfClosed := true }))

/-- Up to the return. `watermark`: there are more delegations than the client wants to hold. -/
def nfs4InodeReturnDelegationOnClose (watermark : Bool) : Option Nat × Delegations :=
  match s.nfs4GetValidDelegation inode with
  | none => (none, s)
  | some d =>
    if ((s.flags d).returnIfClosed || watermark) ∧ (s.inode d).isSome ∧ s.opened inode = false ∧
        (s.flags d).returning = false then
      (some d, s.setFlags d ({ · with returning := true, returnIfClosed := false }))
    else (none, s)

def nfsRevokeDelegation (stateid : Option Stateid) : Delegations :=
  match s.delegation inode, stateid with
  | none, _ => s
  | some d, none => s.nfsMarkDelegationRevoked d
  | some d, some stateid =>
    if !stateid.nfs4StateidMatchOther (s.stateid d) then s
    else if stateid.seqid = 0 then s.nfsMarkDelegationRevoked d
    else if (s.stateid d).nfs4StateidIsNewer stateid then s
    else (s.setStateid d { s.stateid d with seqid := stateid.seqid }).nfsMarkDelegationRevoked d

def nfsDelegationMarkReturned (stateid : Stateid) : Delegations :=
  match s.delegation inode with
  | none => s
  | some d =>
    if !stateid.nfs4StateidMatchOther (s.stateid d) then s
    else if stateid.seqid ≠ 0 ∧ (s.stateid d).nfs4StateidIsNewer stateid then
      s.setFlags d ({ · with returning := false })
    else
      let s := if stateid.seqid ≠ 0 then s.setStateid d { s.stateid d with seqid := stateid.seqid } else s
      ((s.nfsMarkDelegationRevoked d).setFlags d ({ · with returning := false })).nfsDetachDelegation inode d

end

/-- `matchStateid` is the one of the minor version. Breaking the leases of applications has no effect on the delegation. -/
def nfsAsyncInodeReturnDelegation (matchStateid : Stateid → Stateid → Bool) (inode : Nat) (stateid : Option Stateid) :
    Int × Delegations :=
  match s.nfs4GetValidDelegation inode with
  | none => (negErrno .enoent, s)
  | some d =>
    match stateid with
    | some stateid =>
      if matchStateid (s.stateid d) stateid then (0, s.nfsMarkReturnDelegation d) else (negErrno .enoent, s)
    | none => (0, s.nfsMarkReturnDelegation d)

end Delegations

end Mynfs
