import Mynfs.Callback.Xdr

/-! CB_COMPOUND (callback_xdr.c). `CbEnv.body` gives the handlers other than CB_SEQUENCE, and `CbState.calls` what ran. -/

namespace Mynfs
open Xdr

/-- A handler that ran, with what it was given and what it left. -/
structure CbCall where
  nop : Nat
  op : CbOp
  clients : List NfsClient
  cps : CbProcessState
  status : Nat
  cpsAfter : CbProcessState

/-- Streams, the client list, the rest of the client, the process state, and the handlers that ran so far. -/
structure CbState (ω : Type) where
  input : List Byte
  out : Out
  clients : List NfsClient
  rest : ω
  cps : CbProcessState
  calls : List CbCall := []

/-- `identClient` and `gssOk` stand for `nfs4_find_client_ident` and `check_gss_callback_principal`. -/
structure CbEnv (ω : Type) where
  decode : DecodeEnv
  sequence : CbSequenceEnv
  body : CbArgs → CbProcessState → ω → ω × Nat × CbGetattrRes
  pageSize : Nat
  identClient : U32 → Option Nat
  gssOk : Nat → Bool

def nfs41Op (opNr : U32) : Except Nat CbOp :=
  match opNr.toNat with
  | 3 => .ok (.body .getattr)
  | 4 => .ok (.body .recall)
  | 11 => .ok .sequence
  | 8 => .ok (.body .recallAny)
  | 10 => .ok (.body .recallSlot)
  | 5 => .ok (.body .layoutrecall)
  | 14 => .ok (.body .notifyDeviceid)
  | 13 => .ok (.body .notifyLock)
  -- CB_NOTIFY, CB_PUSH_DELEG, CB_RECALLABLE_OBJ_AVAIL, CB_WANTS_CANCELLED
  | 6 | 7 | 9 | 12 => .error Nfs4err.notsupp
  | _ => .error Nfs4err.opIllegal

def preprocessNfs41Op (nop : Nat) (opNr : U32) : Except Nat CbOp :=
  if opNr = 11 ∧ nop ≠ 0 then .error Nfs4err.sequencePos
  else if opNr ≠ 11 ∧ nop = 0 then .error Nfs4err.opNotInSession
  else nfs41Op opNr

def preprocessNfs42Op (nop : Nat) (opNr : U32) : Except Nat CbOp :=
  match preprocessNfs41Op nop opNr with
  | .ok op => .ok op
  | .error status =>
    if status ≠ Nfs4err.opIllegal then .error status
    else if opNr = 15 then .ok (.body .offload)
    else .error Nfs4err.notsupp

def preprocessNfs4Op (opNr : U32) : Except Nat CbOp :=
  match opNr.toNat with
  | 3 => .ok (.body .getattr)
  | 4 => .ok (.body .recall)
  | _ => .error Nfs4err.opIllegal

def preprocessOp (minorversion : U32) (nop : Nat) (opNr : U32) : Except Nat CbOp :=
  match minorversion.toNat with
  | 0 => preprocessNfs4Op opNr
  | 1 => preprocessNfs41Op nop opNr
  | 2 => preprocessNfs42Op nop opNr
  | _ => .error Nfs4err.minorVersMismatch

/-- The result for the encoder, if the operation has one. -/
inductive CbRes
  | none
  | getattr (res : CbGetattrRes)
  | sequence (res : CbSequenceRes)

def runSequence {ω : Type} (env : CbEnv ω) (nop : Nat) (st : CbState ω) : CbState ω × Nat × CbRes :=
  match decodeCbSequenceArgs env.decode st.input with
  | .error status => (st, status, .none)
  | .ok (args, input) =>
    let o := nfs4CallbackSequence env.sequence st.clients args {} st.cps
    let call : CbCall := ⟨nop, .sequence, st.clients, st.cps, o.status, o.cps⟩
    ({ st with input := input, clients := o.clients, cps := o.cps, calls := st.calls ++ [call] }, o.status,
      .sequence o.res)

def runBody {ω : Type} (env : CbEnv ω) (nop : Nat) (op : CbBodyOp) (st : CbState ω) : CbState ω × Nat × CbRes :=
  match decodeArgs env.decode op st.input with
  | .error status => (st, status, .none)
  | .ok (args, input) =>
    let (rest, status, res) := env.body args st.cps st.rest
    let call : CbCall := ⟨nop, .body op, st.clients, st.cps, status, st.cps⟩
    ({ st with input := input, rest := rest, calls := st.calls ++ [call] }, status,
      if op = .getattr then .getattr { res with status := status } else .none)

/-- The handler runs if there is room for a reply. -/
def runOp {ω : Type} (env : CbEnv ω) (nop : Nat) (op : CbOp) (st : CbState ω) : CbState ω × Nat × CbRes :=
  if 0 < st.out.room ∧ st.out.room < env.pageSize then
    match op with
    | .sequence => runSequence env nop st
    | .body op => runBody env nop op st
  else (st, Nfs4err.resource, .none)

def encodeRes (res : CbRes) (out : Out) : Out × Nat :=
  match res with
  | .none => (out, 0)
  | .getattr res => encodeGetattrRes res out
  | .sequence res => encodeCbSequenceRes res out

def encodeHdr {ω : Type} (opNr : U32) (st : CbState ω) (status : Nat) (res : CbRes) : CbState ω × Nat :=
  let (out, err) := encodeOpHdr opNr status st.out
  if err ≠ 0 then ({ st with out := out }, err)
  else if status = 0 then
    let (out, status) := encodeRes res out
    ({ st with out := out }, status)
  else ({ st with out := out }, status)

def processOp {ω : Type} (env : CbEnv ω) (nop : Nat) (st : CbState ω) : CbState ω × Nat :=
  match decodeOpHdr st.input with
  | .error status => (st, status)
  | .ok (opNr, input) =>
    let st := { st with input := input }
    match preprocessOp st.cps.minorversion nop opNr with
    | .error status =>
      -- OP_CB_ILLEGAL
      encodeHdr (if status = Nfs4err.opIllegal then 10044 else opNr) st status .none
    | .ok op =>
      if st.cps.drcStatus ≠ 0 then encodeHdr opNr st st.cps.drcStatus .none
      else
        let (st, status, res) := runOp env nop op st
        encodeHdr opNr st status res

/-- The loop of `nfs4_callback_compound`: the state, the status and the number of operations processed. -/
def processOps {ω : Type} (env : CbEnv ω) : Nat → Nat → CbState ω → CbState ω × Nat × Nat
  | 0, nop, st => (st, 0, nop)
  | n + 1, nop, st =>
    let (st, status) := processOp env nop st
    if status = 0 then processOps env n (nop + 1) st else (st, status, nop + 1)

def nfs4CallbackFreeSlot (clients : List NfsClient) (k i : Nat) : List NfsClient :=
  clients.modify k fun clp => { clp with
    session := clp.session.map fun session => { session with
      bcSlotTable := match session.bcSlotTable.slots[i]? with
        | some slot => session.bcSlotTable.nfs4FreeSlot slot.slotNr
        | none => session.bcSlotTable } }

def nfs4CbFreeSlot {ω : Type} (st : CbState ω) : CbState ω :=
  match st.cps.slot, st.cps.clp with
  | some i, some k =>
    { st with clients := nfs4CallbackFreeSlot st.clients k i, cps := { st.cps with slot := none } }
  | _, _ => st

/-- The outcome of `nfs4_callback_compound`. -/
inductive CbReply
  | garbageArgs
  | systemErr
  | invalidCred
  | success (status : Nat) (nops : Nat)
deriving DecidableEq

/-- The status and the count are filled in at the end. -/
def encodeCompoundHdrRes (tag : List Byte) (out : Out) : Out × Nat :=
  andThen (andThen (encodeWords [0] Nfs4err.resource out) (encodeString tag)) (encodeWords [0] Nfs4err.resource)

def compoundClient {ω : Type} (env : CbEnv ω) (hdr : CbCompoundHdrArg) : Option (Option Nat) :=
  if hdr.minorversion = 0 then
    match env.identClient hdr.cbIdent with
    | none => none
    | some k => if env.gssOk k then some (some k) else none
  else some none

def nfs4CallbackCompound {ω : Type} (env : CbEnv ω) (input : List Byte) (out : Out) (clients : List NfsClient)
    (rest : ω) : CbState ω × CbReply :=
  match decodeCompoundHdrArg input with
  | .error _ => (⟨input, out, clients, rest, { minorversion := 0 }, []⟩, .garbageArgs)
  | .ok ((hdr, status), input) =>
    match compoundClient env hdr with
    | none => (⟨input, out, clients, rest, { minorversion := hdr.minorversion }, []⟩, .invalidCred)
    | some clp =>
      let (out, err) := encodeCompoundHdrRes hdr.tag out
      let st : CbState ω := ⟨input, out, clients, rest, { clp := clp, minorversion := hdr.minorversion }, []⟩
      if err ≠ 0 then (st, .systemErr)
      else
        let (st, status, nops) := if status = 0 then processOps env hdr.nops.toNat 0 st else (st, status, 0)
        -- a reply without room for the last operation's header reports one operation less
        let (status, nops) := if status = nfs4errResourceHdr then (Nfs4err.resource, nops - 1) else (status, nops)
        (nfs4CbFreeSlot st, .success status nops)

end Mynfs
