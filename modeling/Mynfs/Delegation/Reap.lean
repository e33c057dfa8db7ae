import Mynfs.Exception
import Mynfs.Lib.Loop

/-! The scans for expired and for unclaimed delegations (delegation.c), which start again after each one taken up. -/

namespace Mynfs

/-- A delegation on the list of its server, with the flags that the scans look at. -/
structure ReapDeleg where
  id : Nat
  inodeFreeing : Bool := false
  returning : Bool := false
  needReclaim : Bool := false
  testExpired : Bool := false
  testGen : Nat := 0
  /-- The type of the stateid is `NFS4_INVALID_STATEID_TYPE`. -/
  invalid : Bool := false
  /-- `igrab` succeeds for the inode of the delegation. -/
  grabbable : Bool := true

/-- The list `delegations` of a server, its `delegation_gen`, and whether `NFS4SERV_DELEGATION_EXPIRED` is set. -/
structure ReapServer where
  delegations : List ReapDeleg
  delegationGen : Nat := 0
  expired : Bool := true
  distinct : (delegations.map (·.id)).Nodup
  stamped : ∀ d ∈ delegations, d.testGen ≤ delegationGen

/-- A pass up to the first delegation that is due and whose inode can be grabbed; others get
    `NFS_DELEGATION_INODE_FREEING`. -/
def grabFirst (due : ReapDeleg → Bool) : List ReapDeleg → List ReapDeleg × Option Nat
  | [] => ([], none)
  | d :: l =>
    if due d then
      if d.grabbable then (d :: l, some d.id)
      else ({ d with inodeFreeing := true } :: (grabFirst due l).1, (grabFirst due l).2)
    else (d :: (grabFirst due l).1, (grabFirst due l).2)

namespace ReapDeleg

/-- A delegation that was not reclaimed and is not on its way out. -/
def dueUnclaimed (d : ReapDeleg) : Bool := !d.inodeFreeing && !d.returning && d.needReclaim

/-- A delegation that is marked and was not tested in this run. -/
def dueExpired (gen : Nat) (d : ReapDeleg) : Bool := !d.inodeFreeing && !d.returning && d.testExpired && d.testGen ≠ gen

def nfsMarkTestExpiredDelegation (d : ReapDeleg) : ReapDeleg :=
  if d.invalid then d else { d with needReclaim := false, testExpired := true }

end ReapDeleg

/-- The outcome of `test_and_free_expired`, what `nfs4_server_rebooted` says, and the delegations marked by others
    meanwhile. -/
structure ExpiredTest where
  status : Int := 0
  /-- FREE_STATEID was sent, so that the type of the stateid is `NFS4_FREED_STATEID_TYPE`. -/
  freed : Bool := false
  /-- The delegation has got a newer stateid meanwhile. -/
  newer : Bool := false
  rebooted : Bool := false
  marked : List Nat := []

namespace ReapDeleg

/-- A delegation that is taken up has the stamp of the run and no mark. -/
def test (gen : Nat) (d : ReapDeleg) : ReapDeleg := { d with testGen := gen, testExpired := false }

def markByOthers (t : ExpiredTest) (d : ReapDeleg) : ReapDeleg :=
  if d.id ∈ t.marked then d.nfsMarkTestExpiredDelegation else d

/-- What `nfs_delegation_mark_returned` leaves: the delegation is detached, unless its stateid is newer. -/
def nfsDelegationMarkReturned (t : ExpiredTest) (d : ReapDeleg) : Option ReapDeleg :=
  if t.newer then some { d with returning := false } else none

def nfsRevokeDelegation (t : ExpiredTest) (d : ReapDeleg) : ReapDeleg :=
  if t.newer then d else { d with invalid := true }

/-- If the server was told to free the stateid, the delegation is cleaned up, else it is kept as a revoked one. -/
def removeBadDelegation (t : ExpiredTest) (d : ReapDeleg) : Option ReapDeleg :=
  if t.freed then d.nfsDelegationMarkReturned t else some (d.nfsRevokeDelegation t)

def testFreeExpired (t : ExpiredTest) (d : ReapDeleg) : Option ReapDeleg :=
  if t.status = negErr Nfs4err.expired ∨ t.status = negErr Nfs4err.badStateid then d.removeBadDelegation t else some d

/-- What is left of a delegation of the list after the test of the one with the number `i`. -/
def tested (gen i : Nat) (t : ExpiredTest) (d : ReapDeleg) : Option ReapDeleg :=
  if d.id = i then ((d.test gen).markByOthers t).testFreeExpired t else some (d.markByOthers t)

def markAgain (i : Nat) (d : ReapDeleg) : ReapDeleg := if d.id = i then d.nfsMarkTestExpiredDelegation else d

end ReapDeleg

/-- The scan for expired delegations: the list as it is now, and what the call returns or sets on the server. -/
structure ExpiredScan where
  delegations : List ReapDeleg
  /-- The delegations that were tested. -/
  log : List Nat := []
  ret : Int := 0
  expired : Bool := false

/-- The scan from `restart` on, up to the next test or to the end of the list. -/
def reapExpiredBody (gen : Nat) (tests : Nat → ExpiredTest) (s : ExpiredScan) : Loop.Next ExpiredScan ExpiredScan :=
  match grabFirst (·.dueExpired gen) s.delegations with
  | (l, none) => .done { s with delegations := l }
  | (l, some i) =>
    let t := tests s.log.length
    let l := l.filterMap (·.tested gen i t)
    if t.rebooted then
      .done { delegations := l.map (·.markAgain i), log := s.log ++ [i], ret := negErrno .eagain, expired := true }
    else .again { s with delegations := l, log := s.log ++ [i] }

def nfsServerReapExpiredDelegations (server : ReapServer) (tests : Nat → ExpiredTest) (fuel : Nat) : Option ExpiredScan :=
  if server.expired then
    Loop.run (reapExpiredBody (server.delegationGen + 1) tests) fuel { delegations := server.delegations }
  else some { delegations := server.delegations }

def reapUnclaimedBody (l : List ReapDeleg) : Loop.Next (List ReapDeleg) (List ReapDeleg) :=
  match grabFirst ReapDeleg.dueUnclaimed l with
  | (l, none) => .done l
  -- `nfs_start_delegation_return_locked` and `nfs_detach_delegation`
  | (l, some i) => .again (l.filter (·.id ≠ i))

def nfsServerReapUnclaimedDelegations (server : ReapServer) (fuel : Nat) : Option (List ReapDeleg) :=
  Loop.run reapUnclaimedBody fuel server.delegations

end Mynfs
