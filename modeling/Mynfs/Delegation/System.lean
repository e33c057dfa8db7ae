import Mynfs.Lib.Run
import Mynfs.Delegation.Table

/-! Returning delegations, by the state manager and by others. A step ends with a wait, or is the visit of a delegation. -/

namespace Mynfs

/-- Where `nfs_end_delegation_return` waits: for `break_lease`, `nfs_delegation_claim_opens` or
    `nfs4_wait_clnt_recover`. -/
inductive ReturnPhase
  | lease
  | claim
  | wait

/-- A running `nfs_end_delegation_return`. -/
structure Return where
  inode : Nat
  deleg : Nat
  issync : Bool
  phase : ReturnPhase := .lease

/-- What follows after a wait. -/
inductive ReturnOutcome
  | next (phase : ReturnPhase)
  | abort (err : Int)
  | doReturn

/-- What `nfs_end_delegation_return` does after a wait that ended with `err`. Opens are claimed unless revoked by then. -/
def nfsEndDelegationReturn (revoked issync : Bool) : ReturnPhase → Int → ReturnOutcome
  | .lease, err | .wait, err =>
    if err ≠ 0 then .abort err
    else if revoked then .doReturn
    else .next .claim
  | .claim, err =>
    if issync ∧ err = negErrno .eagain then .next .wait
    else if err = 0 then .doReturn
    else .abort err

/-- The state manager in `nfs_client_return_marked_delegations`. `holder` is an inode and the delegation it had. -/
inductive Pass
  | idle
  | restart (holder : Option (Nat × Nat))
  | scan (todo : List Nat) (prev : Option Nat) (holder : Option (Nat × Nat))
  | returning (ret : Return) (holder : Option (Nat × Nat))
  | clear
  | clearing (todo : List Nat)

/-- The table with the threads that return delegations. -/
structure DelegSystem where
  dels : Delegations
  pass : Pass := .idle
  /-- The returns of the other threads. -/
  returns : List Return := []
  /-- The DELEGRETURN calls without a reply: the inode and the stateid of the call. -/
  sent : List (Nat × Stateid) := []

/-- Recalls, and the steps of the threads. -/
inductive DelegEvent
  | recallDelegation (inode : Nat) (stateid : Option Stateid)
  | passBegin
  | passNext
  /-- The call that the state manager waits for returns `err`; `sendErr` is the result of starting DELEGRETURN. -/
  | passResult (err sendErr : Int)
  | returnDelegation (inode : Nat)
  | setReturnOnClose (inode : Nat)
  | returnOnClose (inode : Nat) (watermark : Bool)
  | result (k : Nat) (err sendErr : Int)
  | done (k : Nat)
  | markReturn (d : Nat)
  | revoke (inode : Nat) (stateid : Option Stateid)
  | evict (inode : Nat)
  | freeing (inode : Nat)
  | setOpened (inode : Nat) (opened : Bool)

namespace DelegSystem
variable (s : DelegSystem)

/-- From `restart` to the loop: the list from the delegation of the place holder on, if it still has it. -/
def passRestart (holder : Option (Nat × Nat)) : DelegSystem :=
  let todo := match holder with
    | some (inode, d) =>
      if s.dels.delegation inode = some d then s.dels.superList.dropWhile (· ≠ d) else s.dels.superList
    | none => s.dels.superList
  { s with pass := .scan todo none holder }

/-- The place holder after a delegation to return was found: `prev`, if its inode can be grabbed. -/
def nextHolder (dels : Delegations) (prev : Option Nat) (holder : Option (Nat × Nat)) : Option (Nat × Nat) × Delegations :=
  match prev with
  | none => (holder, dels)
  | some p =>
    match dels.nfsDelegationGrabInode p with
    | (some tmp, dels) => (some (tmp, p), dels)
    | (none, dels) => (holder, dels)

def passVisit (d : Nat) (todo : List Nat) (prev : Option Nat) (holder : Option (Nat × Nat)) : DelegSystem :=
  if (s.dels.flags d).inodeFreeing then { s with pass := .scan todo prev holder }
  else
    match s.dels.nfsDelegationNeedReturn d with
    | (false, dels) =>
      { s with dels, pass := .scan todo (if dels.nfs4IsValidDelegation d then some d else prev) holder }
    | (true, dels) =>
      match dels.nfsDelegationGrabInode d with
      | (none, dels) => { s with dels, pass := .scan todo prev holder }
      | (some inode, dels) =>
        let (holder, dels) := nextHolder dels prev holder
        match dels.nfsStartDelegationReturnLocked inode with
        | (some d, dels) => { s with dels, pass := .returning ⟨inode, d, false, .lease⟩ holder }
        -- ending a return of no delegation succeeds
        | (none, dels) => { s with dels, pass := .restart holder }

def passNext : Option DelegSystem :=
  match s.pass with
  | .idle => none
  | .restart holder => some (s.passRestart holder)
  | .scan [] _ _ => some { s with pass := .clear }
  | .scan (d :: todo) prev holder => some (s.passVisit d todo prev holder)
  | .returning _ _ => none
  | .clear =>
    if s.dels.clntDelegreturnDelayed then
      if s.dels.servDelegreturnDelayed then
        some { s with
          dels := { s.dels with clntDelegreturnDelayed := false, servDelegreturnDelayed := false }
          pass := .clearing s.dels.superList }
      else some { s with dels := { s.dels with clntDelegreturnDelayed := false }, pass := .idle }
    else some { s with pass := .idle }
  | .clearing [] => some { s with pass := .idle }
  | .clearing (d :: todo) => some { s with dels := s.dels.clearDelayed d, pass := .clearing todo }

def passBegin : Option DelegSystem :=
  match s.pass with
  | .idle =>
    if s.dels.servDelegreturn then
      some { s with dels := { s.dels with servDelegreturn := false }, pass := .restart none }
    else some { s with pass := .clear }
  | _ => none

/-- `nfs_do_return_delegation`. If the call is started, RETURNING stays set until it is done. -/
def doReturn (r : Return) (sendErr : Int) : Int × DelegSystem :=
  if (s.dels.flags r.deleg).revoked then (0, s)
  else if sendErr = 0 then (0, { s with sent := s.sent ++ [(r.inode, s.dels.stateid r.deleg)] })
  else (sendErr, s)

def outcome (r : Return) (err : Int) : ReturnOutcome :=
  nfsEndDelegationReturn (s.dels.flags r.deleg).revoked r.issync r.phase err

def advance (r : Return) (err sendErr : Int) : (Return ⊕ Int) × DelegSystem :=
  match s.outcome r err with
  | .next phase => (.inl { r with phase }, s)
  | .abort err => (.inr err, { s with dels := s.dels.nfsAbortDelegationReturn r.deleg err })
  | .doReturn => ((s.doReturn r sendErr).map .inr id)

/-- The state manager gets a result: it starts again, or after an error it leaves the flags for the next pass. -/
def passResult (err sendErr : Int) : Option DelegSystem :=
  match s.pass with
  | .returning r holder =>
    match s.advance r err sendErr with
    | (.inl r, t) => some { t with pass := .returning r holder }
    | (.inr 0, t) => some { t with pass := .restart holder }
    | (.inr _, t) =>
      some { t with dels := { t.dels with servDelegreturn := true, clntDelegreturn := true }, pass := .idle }
  | _ => none

def result (k : Nat) (err sendErr : Int) : Option DelegSystem :=
  match s.returns[k]? with
  | none => none
  | some r =>
    match s.advance r err sendErr with
    | (.inl r, t) => some { t with returns := t.returns.set k r }
    | (.inr _, t) => some { t with returns := t.returns.eraseIdx k }

def start (inode : Nat) (issync : Bool) (started : Option Nat × Delegations) : DelegSystem :=
  match started with
  | (some d, dels) => { s with dels, returns := s.returns ++ [⟨inode, d, issync, .lease⟩] }
  | (none, dels) => { s with dels }

def step (matchStateid : Stateid → Stateid → Bool) (s : DelegSystem) : DelegEvent → Option DelegSystem
  | .recallDelegation inode stateid =>
    some { s with dels := (s.dels.nfsAsyncInodeReturnDelegation matchStateid inode stateid).2 }
  | .passBegin => s.passBegin
  | .passNext => s.passNext
  | .passResult err sendErr => s.passResult err sendErr
  | .returnDelegation inode => some (s.start inode true (s.dels.nfsStartDelegationReturnLocked inode))
  | .setReturnOnClose inode => some (s.start inode false (s.dels.nfs4InodeSetReturnDelegationOnClose inode))
  | .returnOnClose inode watermark =>
    some (s.start inode false (s.dels.nfs4InodeReturnDelegationOnClose inode watermark))
  | .result k err sendErr => s.result k err sendErr
  | .done k =>
    match s.sent[k]? with
    | some (inode, stateid) =>
      some { s with dels := s.dels.nfsDelegationMarkReturned inode stateid, sent := s.sent.eraseIdx k }
    | none => none
  | .markReturn d => if d ∈ s.dels.superList then some { s with dels := s.dels.nfsMarkReturnDelegation d } else none
  | .revoke inode stateid => some { s with dels := s.dels.nfsRevokeDelegation inode stateid }
  | .evict inode => some { s with dels := s.dels.nfsInodeEvictDelegation inode }
  | .freeing inode => some { s with dels := { s.dels with freeing := Function.update s.dels.freeing inode true } }
  | .setOpened inode opened => some { s with dels := { s.dels with opened := Function.update s.dels.opened inode opened } }

end DelegSystem

end Mynfs
