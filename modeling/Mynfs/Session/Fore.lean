import Mynfs.Session.Sequence
import Mynfs.Session.Table

/-! The slots of the fore channel in use (nfs4session.c, nfs4proc.c, callback_proc.c), while targets change, the session
    is reset, and CB_SEQUENCEs ask for slots of referring calls. -/

namespace Mynfs

/-- The fore channel, and what was sent on it. -/
structure ForeSession where
  chan : ForeChannel
  sent : Finset Nat := ∅
  /-- The slots on which a request was transmitted since they were created. Not in the source. -/
  begun : Finset Nat := ∅
  /-- The sequence numbers of the first requests on a slot. Not in the source. -/
  firsts : List U32 := []

/-- Steps on the channel, requests and results. -/
inductive ForeEvent
  | channel (e : DrainEvent)
  | slotSeqidInUse (mem : Nat) (slotid seqNr : U32)
  | transmit (i : Nat)
  /-- The SEQUENCE result of the task at a position is processed. A probe gets the given number. -/
  | process (i : Nat) (probe : ProbeStart) (probeId : Nat) (tkStatus : Int) (rpcProc : RpcProc) (canRestart : Bool)
      (res : SequenceRes)
  | resetSession (mem : Nat) (maxReqs : U32)

namespace ForeSession
variable (s : ForeSession)

/-- A slot that is not held any more is not sent on, and what was sent on a slot is forgotten when the slot is freed. -/
def withChannel (chan : ForeChannel) : ForeSession :=
  { s with
    chan := chan
    sent := s.sent.filter fun n => ∃ owner ∈ chan.owned, owner.2.toNat = n
    begun := s.begun.filter (· < chan.tbl.slots.length) }

def channelStep (e : DrainEvent) : Option ForeSession := (s.chan.step e).map s.withChannel

def putSlot (slotid : U32) (slot : Slot) : ForeSession :=
  { s with
    chan := { s.chan with tbl := s.chan.tbl.modifySlot slotid.toNat fun _ => slot }
    sent := s.sent.erase slotid.toNat }

def slotSeqidInUse (mem : Nat) (slotid seqNr : U32) : ForeSession :=
  s.withChannel { s.chan with tbl := (s.chan.tbl.nfs4SlotSeqidInUse mem slotid seqNr).1 }

def transmit (slotid : U32) (slot : Slot) : ForeSession :=
  { s with
    sent := insert slotid.toNat s.sent
    begun := insert slotid.toNat s.begun
    firsts := if slotid.toNat ∈ s.begun then s.firsts else s.firsts ++ [slot.seqNr] }

/-- What processing a result does to the channel, besides the slot of the task at position `i`. -/
def followUps (i : Nat) (o : SequenceOutcome) : List DrainEvent :=
  o.effects.filterMap (fun
    | .setDraining => some .sessionRecover
    | .updateTargetSlotid _ highest target => some (.updateTargetSlotid i highest target)
    | _ => none) ++
  if o.holder = .nobody then [.releaseSlot i] else []

/-- `nfs41_sequence_process` has ended: the probe has the slot of the task, the task has it, or nobody. -/
def processed (i : Nat) (slotid : U32) (probeId : Nat) (o : SequenceOutcome) : Option ForeSession :=
  let s := s.putSlot slotid o.slot
  if o.holder = .probe then some { s with chan := { s.chan with owned := s.chan.owned.set i (⟨probeId, true⟩, slotid) } }
  else Machine.exec channelStep s (followUps i o)

def step : ForeEvent → Option ForeSession
  | .channel e => s.channelStep e
  | .slotSeqidInUse mem slotid seqNr => if s.chan.locked.isNone then some (s.slotSeqidInUse mem slotid seqNr) else none
  | .transmit i =>
    match s.chan.owned[i]? with
    | some (_, slotid) =>
      match s.chan.tbl.slots[slotid.toNat]? with
      | some slot => if slot.seqDone then none else some (s.transmit slotid slot)
      | none => none
    | none => none
  | .process i probe probeId tkStatus rpcProc canRestart res =>
    match s.chan.owned[i]? with
    | some (_, slotid) =>
      match s.chan.tbl.slots[slotid.toNat]? with
      | some slot =>
        let env := ⟨s.chan.tbl.targetHighestSlotid, probe, none⟩
        let task := ⟨decide (slotid.toNat ∈ s.sent), tkStatus, rpcProc, canRestart⟩
        s.processed i slotid probeId (nfs41SequenceProcess env task res slot)
      | none => none
    | none => none
  | .resetSession mem maxReqs =>
    if s.chan.drained ∧ s.chan.owned = [] ∧ s.chan.locked.isNone ∧ maxReqs ≠ 0 then
      some (s.withChannel (s.chan.nfs4ReallocSlotTable mem maxReqs 1).1)
    else none

def init (mem : Nat) (maxReqs : U32) : ForeSession where
  chan := ForeChannel.init mem maxReqs

end ForeSession

end Mynfs
