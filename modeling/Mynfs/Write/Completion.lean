import Mynfs.Write.Commit

/-! The replies to a buffered WRITE, and its completion (write.c). The header keeps the last reply's commit level only. -/

namespace Mynfs

section
variable {shift : Nat}

/-- The header of a WRITE. -/
structure WriteHeader (shift : Nat) extends PgioHeader shift where
  lseg : Option DsWrite
  /-- `task->tk_ops` is set: the WRITE is an RPC, not I/O of a layout driver. -/
  tkOps : Bool
  argsStable : U32
  pnfsError : Int := 0

/-- Replies to a WRITE. -/
inductive WritebackReply
  /-- An error for which `write_done` starts the call again. -/
  | retry
  /-- `tk_status` is negative. A reply may end behind `committed`, and then that has been decoded. -/
  | error (status : Err) (verf : Option WriteVerf)
  | written (count : Nat) (verf : WriteVerf)

/-- A reply, or a failure without RPC. -/
inductive WritebackEvent
  | reply (reply : WritebackReply)
  /-- A layout driver that does not use RPCs failed, and has set `pnfs_error`. -/
  | pnfsError (error : Err)

/-- What is done with a request. -/
inductive Completed
  | failed (error : Int)
  | commit (place : WritePlace)
  | removed

namespace WriteHeader
variable (hdr : WriteHeader shift)

def nfsWritebackDone (verf : WriteVerf) : WriteHeader shift :=
  { hdr with toPgioHeader := hdr.toPgioHeader.writebackDone verf }

def nfsWritebackResult (count : Nat) : WriteHeader shift × Bool :=
  if count < hdr.argsCount then
    if count = 0 then ({ hdr with toPgioHeader := hdr.setPgioError (negErrno .eio) hdr.argsOffset }, false)
    else if !hdr.tkOps then ({ hdr with pnfsError := negErrno .eagain }, false)
    else
      let hdr :=
        if hdr.verf.committed ≠ nfsUnstable then
          { hdr with argsOffset := hdr.argsOffset + count, argsCount := hdr.argsCount - count }
        else { hdr with argsStable := nfsFileSync }
      ({ hdr with verf := { hdr.verf with committed := 0 } }, true)
  else (hdr, false)

def nfsPgioResult : WritebackReply → WriteHeader shift × Bool
  | .retry => (hdr, true)
  | .error status verf =>
    ({ hdr with toPgioHeader := { hdr.toPgioHeader with verf := verf.getD hdr.verf }.setPgioError status hdr.argsOffset }, false)
  | .written count verf => (hdr.nfsWritebackDone verf).nfsWritebackResult count

/-- Up to `nfs_write_completion`: the requests of a header with an error of the driver are sent again. -/
def mypnfsLdWriteDone (event : WritebackEvent) : WriteHeader shift :=
  let hdr :=
    match event with
    | .reply reply => (hdr.nfsPgioResult reply).1
    | .pnfsError error => { hdr with pnfsError := error.1 }
  if hdr.pnfsError ≠ 0 then { hdr with iohdrRedo := true } else hdr

def completePages : Nat → List (NfsPage shift) → List (NfsPage shift × Completed)
  | _, [] => []
  | bytes, req :: reqs =>
    let bytes := bytes + req.wbBytes
    (if hdr.iohdrError && decide (hdr.goodBytes < bytes) then (req, .failed hdr.error)
      else if nfsWriteNeedCommit hdr.verf hdr.lseg then
        ({ req with wbNio := 0, wbVerf := hdr.verf.verifier }, .commit (nfsMarkRequestCommit hdr.lseg))
      else (req, .removed)) :: completePages bytes reqs

def nfsWriteCompletion : List (NfsPage shift × Completed) :=
  if hdr.iohdrRedo then [] else hdr.completePages 0 hdr.pages

end WriteHeader

/-- Acknowledged bytes and their level. -/
structure AckRange where
  offset : Nat
  count : Nat
  committed : U32
deriving DecidableEq

def AckRange.Has (ack : AckRange) (b : Nat) : Prop := ack.offset ≤ b ∧ b < ack.offset + ack.count

instance (ack : AckRange) (b : Nat) : Decidable (ack.Has b) := inferInstanceAs (Decidable (_ ∧ _))

/-- A header with what was acknowledged. -/
structure Writeback (shift : Nat) where
  hdr : WriteHeader shift
  done : Bool := false
  acks : List AckRange := []

namespace Writeback
variable (s : Writeback shift)

def acked : WritebackEvent → List AckRange
  | .reply (.written count verf) => [⟨s.hdr.argsOffset, count, verf.committed⟩]
  | _ => []

def step (event : WritebackEvent) : Option (Writeback shift) :=
  if s.done then none
  else if s.hdr.tkOps then
    match event with
    | .reply reply =>
      let (hdr, restarted) := s.hdr.nfsPgioResult reply
      some ⟨hdr, !restarted, s.acks ++ s.acked event⟩
    | .pnfsError _ => none
  else some ⟨s.hdr.mypnfsLdWriteDone event, true, s.acks ++ s.acked event⟩

def init (mirror : PgioMirror shift) (first : NfsPage shift) (lseg : Option DsWrite) (tkOps : Bool) (stable : U32) :
    Writeback shift :=
  ⟨{ toPgioHeader := mynfsPgheaderInit mirror first, lseg := lseg, tkOps := tkOps, argsStable := stable }, false, []⟩

end Writeback

end

end Mynfs
