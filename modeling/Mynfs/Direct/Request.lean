import Mynfs.Pageio.Add

/-! Direct writes (direct.c, `struct nfs_direct_req`): the byte counts, the flags and the requests that wait. -/

namespace Mynfs

/-- The values of `flags` in `struct nfs_direct_req`. -/
inductive OdirectFlags
  | zero
  | doCommit
  | reschedWrites
  | done
deriving DecidableEq

/-- What `nfs_direct_count_bytes` looks at in a header. -/
structure IoCount where
  ioStart : Nat
  goodBytes : Nat
  iohdrError : Bool
  iohdrEof : Bool
  error : Int

section
variable {shift : Nat}

/-- `struct nfs_direct_req`, with the list and the count of RPCs of its `mds_cinfo`. -/
structure DirectReq (shift : Nat) where
  ctx : Nat := 0
  lockowner : Nat := 0
  ioStart : Nat
  count : Nat := 0
  maxCount : Nat
  error : Int := 0
  flags : OdirectFlags := .zero
  ioCount : Nat := 0
  commitList : List (NfsPage shift) := []
  rpcsOut : Nat := 0

namespace DirectReq
variable (dreq : DirectReq shift)

def handleTruncated (hdr : IoCount) (dreqLen : Nat) : DirectReq shift :=
  if !(hdr.iohdrError || hdr.iohdrEof) then dreq
  else
    let dreq :=
      if dreqLen ≤ dreq.maxCount then
        { dreq with maxCount := dreqLen, count := if dreqLen < dreq.count then dreqLen else dreq.count }
      else dreq
    if hdr.iohdrError ∧ dreq.error = 0 then { dreq with error := hdr.error } else dreq

def countIo (hdr : IoCount) : DirectReq shift :=
  let hdrEnd := hdr.ioStart + hdr.goodBytes
  let dreqLen := if dreq.ioStart < hdrEnd then hdrEnd - dreq.ioStart else 0
  let dreq := dreq.handleTruncated hdr dreqLen
  let dreqLen := if dreq.maxCount < dreqLen then dreq.maxCount else dreqLen
  if dreq.count < dreqLen then { dreq with count := dreqLen } else dreq

section
variable (hdr : PgioHeader shift)

/-- `nfs_direct_count_bytes` for a WRITE; `NFS_IOHDR_EOF` is for reads. -/
def countBytes : DirectReq shift :=
  dreq.countIo ⟨hdr.ioStart, hdr.goodBytes, hdr.iohdrError, false, hdr.error⟩

def truncateRequest (req : NfsPage shift) : DirectReq shift :=
  let reqStart := req.reqOffset - dreq.ioStart
  let dreq := if reqStart < dreq.maxCount then { dreq with maxCount := reqStart } else dreq
  if reqStart < dreq.count then { dreq with count := reqStart } else dreq

def markRequestCommit (req : NfsPage shift) : DirectReq shift :=
  { dreq with commitList := dreq.commitList ++ [req] }

def markRequests (reqs : List (NfsPage shift)) : DirectReq shift := reqs.foldl markRequestCommit dreq

/-- The loops that truncate at every request of a list and release it. -/
def truncateRequests (reqs : List (NfsPage shift)) : DirectReq shift := reqs.foldl truncateRequest dreq

/-- The requests are unlocked and released, and nothing else. -/
def writeSyncPgioError (_head : List (NfsPage shift)) : DirectReq shift := dreq

def writeCompletion : DirectReq shift :=
  if hdr.iohdrRedo then dreq
  else
    let dreq := dreq.countBytes hdr
    if hdr.iohdrUnstableWrites && !hdr.iohdrError then
      let dreq := if dreq.flags = .zero then { dreq with flags := .doCommit } else dreq
      match dreq.flags with
      | .doCommit => dreq.markRequests (hdr.pages.map fun req => { req with wbVerf := hdr.verf.verifier })
      | .reschedWrites => dreq.markRequests hdr.pages
      | .zero | .done => dreq
    else dreq

def writeRescheduleIo : DirectReq shift × PgioHeader shift :=
  let dreq := if dreq.error = 0 then { dreq with flags := .reschedWrites } else dreq
  (dreq.markRequests hdr.pages, { hdr with iohdrRedo := true, pages := [] })

end

end DirectReq

def nfsWriteMatchVerf (verf : WriteVerf) (req : NfsPage shift) : Bool :=
  decide (nfsUnstable < verf.committed) && decide (req.wbVerf = verf.verifier)

namespace DirectReq
variable (dreq : DirectReq shift)

def commitRequest (status : Int) (verf : WriteVerf) (req : NfsPage shift) : DirectReq shift :=
  if status < 0 then dreq.truncateRequest req
  else if !nfsWriteMatchVerf verf req then
    let dreq := if dreq.flags = .zero then { dreq with flags := .reschedWrites } else dreq
    dreq.markRequestCommit { req with wbNio := 0 }
  else dreq

def commitComplete (status : Int) (verf : WriteVerf) (pages : List (NfsPage shift)) : DirectReq shift :=
  if status < 0 then
    pages.foldl (fun dreq => dreq.commitRequest status verf) { dreq with error := status, flags := .done }
  else pages.foldl (fun d => d.commitRequest dreq.error verf) dreq

end DirectReq

namespace PgioHeader
variable (hdr : PgioHeader shift)

def setPgioError (error : Int) (pos : Nat) : PgioHeader shift :=
  let new := pos - hdr.ioStart
  if new < hdr.goodBytes then
    { hdr with goodBytes := new, iohdrError := true, error := if hdr.iohdrError then hdr.error else error }
  else hdr

def writebackDone (verf : WriteVerf) : PgioHeader shift :=
  { hdr with verf := verf, iohdrUnstableWrites := hdr.iohdrUnstableWrites || decide (verf.committed = nfsUnstable) }

/-- `nfs_writeback_result`, for an RPC: the header, and whether the call is restarted. -/
def writebackResult (count : Nat) : PgioHeader shift × Bool :=
  if count < hdr.argsCount then
    if count = 0 then (hdr.setPgioError (negErrno .eio) hdr.argsOffset, false)
    else if hdr.verf.committed ≠ nfsUnstable then
      ({ hdr with argsOffset := hdr.argsOffset + count, argsCount := hdr.argsCount - count }, true)
    else (hdr, true)
  else (hdr, false)

end PgioHeader

end

end Mynfs
