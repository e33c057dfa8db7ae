import Mynfs.Lib.Run
import Mynfs.Open.State

/-! Replies to OPEN, OPEN_DOWNGRADE and CLOSE for one open state, in any order. An OPEN reply out of sequence waits. -/

namespace Mynfs
open Nfs4State

/-- An open state, and the OPEN replies that wait. -/
structure OpenSys where
  st : Nfs4State := {}
  waiting : List (Stateid × Fmode) := []
deriving DecidableEq

/-- Replies, and the end of a wait. -/
inductive OpenEvent
  | openReply (stateid : Stateid) (fmode : Fmode)
  /-- A waiting OPEN reply goes on: it was woken, the five seconds are over, or there is a signal. -/
  | wake (i : Nat) (status : WaitStatus)
  | finishOpen (deleg : Option OpenDelegation) (hasOpen : Bool) (delegation : Option Stateid) (fmode : Fmode)
  | close (fmode : Fmode)
  /-- A CLOSE (no share mode is left) or an OPEN_DOWNGRADE; without a stateid if the call failed and is given up. -/
  | closeReply (argStateid : Stateid) (fmode : Fmode) (reply : Option Stateid)

namespace OpenSys

def setRound (s : OpenSys) (stateid : Stateid) (fmode : Fmode) (status : WaitStatus) : OpenSys :=
  match s.st.setOpenStateidTest true stateid status with
  | .wait => { s with waiting := s.waiting ++ [(stateid, fmode)] }
  | test => { s with st := s.st.nfsStateSetOpenStateid test stateid fmode }

def step (s : OpenSys) : OpenEvent → Option OpenSys
  | .openReply stateid fmode => some (s.setRound stateid fmode .ok)
  | .wake i status =>
    (s.waiting[i]?).map fun (stateid, fmode) =>
      OpenSys.setRound { s with waiting := s.waiting.eraseIdx i } stateid fmode status
  | .finishOpen deleg hasOpen delegation fmode =>
    some { s with st := (s.st.updateOpenStateidFinish deleg hasOpen delegation fmode).2 }
  | .close fmode => some { s with st := (s.st.nfs4Close fmode).2 }
  | .closeReply argStateid fmode reply =>
    some { s with st := s.st.nfsClearOpenStateid argStateid (reply.map (closeResStateid fmode)) fmode }

end OpenSys

end Mynfs
