import Mynfs.Session.SlotTable

/-! CB_SEQUENCE (callback_proc.c), one at a time. `Wakeup` is what a waiter sees after it had dropped the table lock. -/

namespace Mynfs

abbrev SessionId := BitVec 128

/-- An address as `rpc_cmp_addr` sees it, which ignores the port. -/
structure SockAddr where
  ip : Nat
  port : Nat

/-- `struct nfs4_session`. -/
structure Session where
  sessId : SessionId
  backChan : Bool
  fcSlotTable : SlotTable
  bcSlotTable : SlotTable

/-- `cl_cons_state`. -/
inductive ConsState
  | ready
  | sessionIniting
  | initing
  | failed
deriving DecidableEq

/-- `struct nfs_client`, as far as callbacks look at it. -/
structure NfsClient where
  consState : ConsState
  version : Nat
  minorversion : U32
  addr : SockAddr
  session : Option Session
  sessionReset : Bool

/-- `struct referring_call`. -/
structure ReferringCall where
  rcSequenceid : U32
  rcSlotid : U32

/-- `struct referring_call_list`. -/
structure ReferringCallList where
  rclSessionid : SessionId
  rclRefcalls : List ReferringCall

/-- `struct cb_sequenceargs`. -/
structure CbSequenceArgs where
  csaAddr : SockAddr
  csaSessionid : SessionId
  csaSequenceid : U32
  csaSlotid : U32
  csaHighestslotid : U32
  csaCachethis : U32
  csaRclists : List ReferringCallList

/-- `struct cb_sequenceres`. -/
structure CbSequenceRes where
  csrStatus : Nat := 0
  csrSessionid : SessionId := 0
  csrSequenceid : U32 := 0
  csrSlotid : U32 := 0
  csrHighestslotid : U32 := 0
  csrTargetHighestslotid : U32 := 0

/-- Clients and slots are named by their position. -/
structure CbProcessState where
  clp : Option Nat := none
  slot : Option Nat := none
  minorversion : U32
  drcStatus : Nat := 0
  referringCalls : Nat := 0

/-- What happens to the fore channel until the waiter looks at it again. -/
structure Wakeup where
  change : SlotTable → SlotTable
  mem : Nat

/-- One wait: the allocations that succeed in the first look, then the wakeups up to the time limit. -/
structure Wait where
  mem : Nat
  wakeups : List Wakeup

def etimedout : Int := 110

def nfs4SlotWaitOnSeqid (slotid seqNr : U32) (mem : Nat) (tbl : SlotTable) : List Wakeup → SlotTable × Int
  | [] =>
    let (tbl, inUse) := tbl.nfs4SlotSeqidInUse mem slotid seqNr
    (tbl, if inUse then -etimedout else 0)
  | w :: ws =>
    let (tbl, inUse) := tbl.nfs4SlotSeqidInUse mem slotid seqNr
    if inUse then nfs4SlotWaitOnSeqid slotid seqNr w.mem (w.change tbl) ws else (tbl, 0)

def waitRefcalls (waits : Nat → Wait) : List ReferringCall → Nat → SlotTable → SlotTable × Int × Nat
  | [], found, tbl => (tbl, 0, found)
  | ref :: refs, found, tbl =>
    let (tbl, waited) := nfs4SlotWaitOnSeqid ref.rcSlotid ref.rcSequenceid (waits found).mem tbl (waits found).wakeups
    let status : Int := if waited < 0 then 1 else 0
    if status ≠ 0 then (tbl, status, found) else waitRefcalls waits refs (found + 1) tbl

def waitRclists (waits : Nat → Wait) (sessId : SessionId) : List ReferringCallList → Nat → SlotTable → SlotTable × Int × Nat
  | [], found, tbl => (tbl, 0, found)
  | rclist :: rclists, found, tbl =>
    if sessId ≠ rclist.rclSessionid then waitRclists waits sessId rclists found tbl
    else
      let (tbl, status, found) := waitRefcalls waits rclist.rclRefcalls found tbl
      if status ≠ 0 then (tbl, status, found) else waitRclists waits sessId rclists found tbl

def referringCallExists (waits : Nat → Wait) (session : Session) (rclists : List ReferringCallList) : SlotTable × Int :=
  let (tbl, status, found) := waitRclists waits session.sessId rclists 0 session.fcSlotTable
  (tbl, if status < 0 then status else found)

def validateSeqid (tbl : SlotTable) (slot : Slot) (args : CbSequenceArgs) : Nat :=
  if tbl.serverHighestSlotid < args.csaSlotid then Nfs4err.badslot
  else if args.csaSequenceid = slot.seqNr then
    if tbl.nfs4TestLockedSlot slot.slotNr then Nfs4err.delay
    -- signal process_op to set this error on the next op
    else if args.csaCachethis = 0 then Nfs4err.retryUncachedRep
    else Nfs4err.seqFalseRetry
  else if args.csaSequenceid ≠ slot.seqNr + 1 then Nfs4err.seqMisordered
  else Nfs4err.ok

def nfs4CbMatchClient (addr : SockAddr) (clp : NfsClient) (minorversion : U32) : Bool :=
  if ¬(clp.consState = .ready ∨ clp.consState = .sessionIniting) then false
  else if clp.version ≠ 4 ∨ clp.minorversion ≠ minorversion then false
  else decide (addr.ip = clp.addr.ip)

/-- The first client that matches, with its position and its session. -/
def nfs4FindClientSessionid (clients : List NfsClient) (addr : SockAddr) (sid : SessionId) (minorversion : U32) :
    Option (Nat × NfsClient × Session) :=
  clients.zipIdx.findSome? fun (clp, k) =>
    match nfs4CbMatchClient addr clp minorversion, clp.session with
    | true, some session => if session.sessId = sid then some (k, clp, session) else none
    | _, _ => none

/-- The allocations that succeed in the slot lookup, and the waits. -/
structure CbSequenceEnv where
  mem : Nat
  waits : Nat → Wait

/-- The variables of `nfs4_callback_sequence` under the table lock. -/
structure CbLocked where
  session : Session
  status : Nat
  res : CbSequenceRes
  cps : CbProcessState

section
variable (env : CbSequenceEnv) (args : CbSequenceArgs) (session : Session) (res : CbSequenceRes) (cps : CbProcessState) (i : Nat)

/-- The tail of `nfs4_callback_sequence` on the slot at position `i`, which is locked by now. -/
def cbSequenceReferring : CbLocked :=
  -- the ca_maxresponsesize_cached is 0 with no DRC
  if args.csaCachethis ≠ 0 then ⟨session, Nfs4err.repTooBigToCache, res, cps⟩
  else
    let (fcTbl, ret) := referringCallExists env.waits session args.csaRclists
    let session := { session with fcSlotTable := fcTbl }
    if ret < 0 then ⟨session, Nfs4err.delay, res, cps⟩
    else
      let tbl := session.bcSlotTable.modifySlot i fun slot => { slot with seqNr := args.csaSequenceid }
      ⟨{ session with bcSlotTable := tbl }, Nfs4err.ok, res, { cps with referringCalls := ret.toNat }⟩

def cbSequenceSlot (slot : Slot) : CbLocked :=
  let tbl := session.bcSlotTable
  let res := { res with
    csrHighestslotid := tbl.serverHighestSlotid, csrTargetHighestslotid := tbl.targetHighestSlotid }
  let status := validateSeqid tbl slot args
  if status ≠ 0 then ⟨session, status, res, cps⟩
  else
    match tbl.nfs4TryToLockSlot i slot.slotNr with
    | (_, false) => ⟨session, Nfs4err.delay, res, cps⟩
    | (tbl, true) =>
      cbSequenceReferring env args { session with bcSlotTable := tbl } res { cps with slot := some i } i

end

def cbSequenceLocked (env : CbSequenceEnv) (args : CbSequenceArgs) (sessionReset : Bool) (session : Session)
    (res : CbSequenceRes) (cps : CbProcessState) : CbLocked :=
  if session.bcSlotTable.draining then
    ⟨session, if sessionReset then Nfs4err.badsession else Nfs4err.delay, res, cps⟩
  else
    match session.bcSlotTable.nfs4LookupSlot env.mem args.csaSlotid with
    | (tbl, .error _) => ⟨{ session with bcSlotTable := tbl }, Nfs4err.badslot, res, cps⟩
    | (tbl, .ok i) =>
      match tbl.slots[i]? with
      | none => ⟨{ session with bcSlotTable := tbl }, Nfs4err.badslot, res, cps⟩
      | some slot => cbSequenceSlot env args { session with bcSlotTable := tbl } res cps i slot

/-- What `nfs4_callback_sequence` returns and leaves. -/
structure CbSequenceOutcome where
  clients : List NfsClient
  status : Nat
  res : CbSequenceRes
  cps : CbProcessState

/-- From `out` on: an uncached replay is answered with success, and the error is left for the next operation. -/
def cbSequenceOut (clients : List NfsClient) (status : Nat) (res : CbSequenceRes) (cps : CbProcessState) : CbSequenceOutcome :=
  if status = Nfs4err.retryUncachedRep then ⟨clients, Nfs4err.ok, res, { cps with drcStatus := status }⟩
  else ⟨clients, status, { res with csrStatus := status }, cps⟩

def nfs4CallbackSequence (env : CbSequenceEnv) (clients : List NfsClient) (args : CbSequenceArgs)
    (res : CbSequenceRes) (cps : CbProcessState) : CbSequenceOutcome :=
  match nfs4FindClientSessionid clients args.csaAddr args.csaSessionid cps.minorversion with
  | none => cbSequenceOut clients Nfs4err.badsession res { cps with clp := none }
  | some (k, clp, session) =>
    if session.backChan = false then cbSequenceOut clients Nfs4err.badsession res { cps with clp := some k }
    else
      let l := cbSequenceLocked env args clp.sessionReset session
        { res with csrSessionid := args.csaSessionid, csrSequenceid := args.csaSequenceid, csrSlotid := args.csaSlotid }
        cps
      cbSequenceOut (clients.set k { clp with session := some l.session }) l.status l.res { l.cps with clp := some k }

end Mynfs
