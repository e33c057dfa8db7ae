import Mynfs.Lib.Run
import Mynfs.Open.State

/-! One open state, and the server's open, which numbers its changes from 1 on, takes a CLOSE or OPEN_DOWNGRADE only
    with the current stateid, and uses no `other` twice. An OPEN reply counts the open later; until then `so_lock` stops
    all but `nfs4_close_done`. -/

namespace Mynfs
open Nfs4State

/-- The sequence id after `n` changes of an open: it skips 0 when it wraps around. -/
def seqOf (n : Nat) : U32 := BitVec.ofNat 32 ((n - 1) % (2 ^ 32 - 1) + 1)

/-- A stateid by its unwrapped number. -/
@[ext]
structure OpenNumber where
  other : BitVec 96
  n : Nat
deriving DecidableEq

def OpenNumber.stateid (k : OpenNumber) : Stateid := ⟨.open_, seqOf k.n, k.other⟩

/-- An OPEN reply. -/
structure OpenReply where
  number : OpenNumber
  fmode : Fmode
deriving DecidableEq

/-- A CLOSE (without share mode) or an OPEN_DOWNGRADE. `sentAt` is the number of its stateid, not part of it. -/
structure CloseCall where
  argStateid : Stateid
  fmode : Fmode
  sentAt : Nat
deriving DecidableEq

/-- The client, the server, and the calls between them. -/
structure OpenNet where
  st : Nfs4State := {}
  deleg : Option OpenDelegation := none
  opener : Option Fmode := none
  rank : Nat := 0
  /-- OPEN replies that are not applied yet, on their way or waiting for their turn. -/
  openReplies : List OpenReply := []
  closers : Nat := 0
  /-- The calls of `nfs4_do_close` that are not sent yet, with the number of their stateid. -/
  tasks : List (Stateid × Nat) := []
  calls : List CloseCall := []
  closeReplies : List (CloseCall × OpenNumber) := []
  server : Option OpenNumber := none
  used : List (BitVec 96) := []
deriving DecidableEq

/-- Steps of the client and of the server. -/
inductive OpenNetEvent
  | serveOpen (fmode : Fmode) (other : BitVec 96)
  | serveClose (i : Nat)
  | openReply (i : Nat) (status : WaitStatus)
  | finishOpen
  | cachedOpen (fmode : Fmode) (truncates : Bool) (claim : OpenClaim)
  /-- An open without an OPEN reply, or with one that has no open stateid. -/
  | delegatedOpen (delegation : Option Stateid) (fmode : Fmode)
  /-- The inode gets a delegation, which is not weaker than the one it has. -/
  | grant (deleg : OpenDelegation)
  | close (fmode : Fmode)
  | doClose
  | closePrepare (i : Nat)
  | closeDone (i : Nat)

def Nfs4State.count (st : Nfs4State) : Fmode → Nat
  | ⟨true, false⟩ => st.nRdonly
  | ⟨false, true⟩ => st.nWronly
  | ⟨true, true⟩ => st.nRdwr
  | ⟨false, false⟩ => 0

def Nfs4State.flag (st : Nfs4State) : Fmode → Bool
  | ⟨true, false⟩ => st.rdonlyState
  | ⟨false, true⟩ => st.wronlyState
  | ⟨true, true⟩ => st.rdwrState
  | ⟨false, false⟩ => false

namespace OpenNet

section
variable (s : OpenNet)

def serveOpen (fmode : Fmode) (other : BitVec 96) : Option OpenNet :=
  match s.server with
  | some k =>
    let k := { k with n := k.n + 1 }
    some { s with server := some k, openReplies := s.openReplies ++ [⟨k, fmode⟩] }
  | none =>
    if other ≠ 0 ∧ other ∉ s.used then
      let k : OpenNumber := ⟨other, 1⟩
      some { s with server := some k, used := other :: s.used, openReplies := s.openReplies ++ [⟨k, fmode⟩] }
    else none

def serveClose (i : Nat) (call : CloseCall) : Option OpenNet :=
  match s.server with
  | some k =>
    if call.argStateid.seqid = k.stateid.seqid ∧ call.argStateid.other = k.other then
      let next := { k with n := k.n + 1 }
      some { s with
        server := if call.fmode = ⟨false, false⟩ then none else some next
        calls := s.calls.eraseIdx i
        closeReplies := s.closeReplies ++ [(call, next)] }
    else none
  | none => none

def openReply (i : Nat) (reply : OpenReply) (status : WaitStatus) : OpenNet :=
  let stateid := reply.number.stateid
  match s.st.setOpenStateidTest true stateid status with
  | .wait => s
  | test =>
    { s with
      st := s.st.nfsStateSetOpenStateid test stateid reply.fmode
      opener := some reply.fmode
      rank := if test = .update then reply.number.n else s.rank
      openReplies := s.openReplies.eraseIdx i }

def closePrepare (i : Nat) (stateid : Stateid) (q : Nat) : OpenNet :=
  let s' := { s with tasks := s.tasks.eraseIdx i }
  match s.st.nfs4ClosePrepare stateid with
  | some (arg, fmode) =>
    let sentAt := if arg.seqid = s.st.openStateid.seqid then s.rank else q
    { s' with calls := s.calls ++ [⟨arg, fmode, sentAt⟩] }
  | none => s'

def closeDone (i : Nat) (call : CloseCall) (number : OpenNumber) : OpenNet :=
  let downgraded := s.st.nfs4StateMatchOpenStateidOther call.argStateid && decide (call.fmode ≠ ⟨false, false⟩) &&
    number.stateid.nfs4StateidIsNewer s.st.openStateid
  { s with
    st := s.st.nfsClearOpenStateid call.argStateid (some (closeResStateid call.fmode number.stateid)) call.fmode
    rank := if downgraded then number.n else s.rank
    closeReplies := s.closeReplies.eraseIdx i }

def doClose : OpenNet :=
  { s with closers := s.closers - 1, tasks := s.tasks ++ s.st.nfs4CopyOpenStateid.toList.map (·, s.rank) }

def step : OpenNetEvent → Option OpenNet
  | .serveOpen fmode other => s.serveOpen fmode other
  | .serveClose i => (s.calls[i]?).bind (s.serveClose i)
  | .openReply i status => if s.opener = none then (s.openReplies[i]?).map (s.openReply i · status) else none
  | .finishOpen =>
    s.opener.map fun fmode => { s with st := (s.st.updateOpenStateidFinish s.deleg true none fmode).2, opener := none }
  | .cachedOpen fmode truncates claim =>
    if s.opener = none ∧ s.st.canOpenCached fmode truncates claim then
      some { s with st := s.st.updateOpenStateflags fmode }
    else none
  | .delegatedOpen delegation fmode =>
    if s.opener = none then some { s with st := (s.st.updateOpenStateidFinish s.deleg false delegation fmode).2 }
    else none
  | .grant deleg =>
    if deleg.returning = false ∧ s.deleg.all (fun d => deleg.type.covers d.type) then
      some { s with deleg := some deleg }
    else none
  | .close fmode =>
    -- the file is open with this mode
    if s.opener = none ∧ s.st.count fmode ≠ 0 then
      let (callClose, st) := s.st.nfs4Close fmode
      some { s with st := st, closers := if callClose then s.closers + 1 else s.closers }
    else none
  | .doClose => if s.closers ≠ 0 then some s.doClose else none
  | .closePrepare i =>
    if s.opener = none then (s.tasks[i]?).map fun (stateid, q) => s.closePrepare i stateid q else none
  | .closeDone i => (s.closeReplies[i]?).map fun (call, number) => s.closeDone i call number

end

end OpenNet

end Mynfs
