import Mynfs.Lib.Loop
import Mynfs.Open.State

/-! `nfs4_refresh_open_old_stateid` (nfs4proc.c) waits for an OPEN reply. The state is read under `read_seqbegin`, the
    sequence id later, under `write_seqlock`. -/

namespace Mynfs
open Loop

/-- How the wait ends. -/
inductive RefreshWait
  | fatalSignal
  | wokenUp
  | wholeTime
deriving DecidableEq

/-- What one round sees. -/
structure RefreshRound where
  state : Nfs4State
  seqidOpen : U32
  wait : RefreshWait

/-- `slept` says that it returns because it has slept the whole time. -/
structure Refreshed where
  ret : Bool
  dst : Stateid
  slept : Bool := false

def RefreshWait.status (status : Nfs4State.WaitStatus) : RefreshWait → Nfs4State.WaitStatus
  | .fatalSignal => .eintr
  | .wokenUp => .ok
  | .wholeTime => status

def refreshRound (dst : Stateid) (status : Nfs4State.WaitStatus) (round : RefreshRound) : Next Nfs4State.WaitStatus Refreshed :=
  if round.state.recoveryFailed then .done { ret := false, dst := dst }
  else if !round.state.nfs4StateMatchOpenStateidOther dst then .done { ret := false, dst := dst }
  -- did another OPEN bump the state's seqid?
  else if Serial.newer round.seqidOpen dst.seqid then .done { ret := true, dst := { dst with seqid := round.seqidOpen } }
  else
    match round.wait.status status with
    | .ok => .again .ok
    | .eintr => .done { ret := false, dst := dst }
    | .eagain => .done { ret := true, dst := { dst with seqid := dst.seqid + 1 }, slept := true }

def refreshBody (dst : Stateid) (rounds : Nat → RefreshRound) :
    Nat × Nfs4State.WaitStatus → Next (Nat × Nfs4State.WaitStatus) Refreshed
  | (k, status) =>
    match refreshRound dst status (rounds k) with
    | .again status => .again (k + 1, status)
    | .done r => .done r

/-- If it ends within `fuel` iterations. -/
def nfs4RefreshOpenOldStateid (fuel : Nat) (dst : Stateid) (rounds : Nat → RefreshRound) : Option Refreshed :=
  run (refreshBody dst rounds) fuel (0, .eagain)

end Mynfs
