import Mynfs.Pageio.Coalesce

/-! The header of a READ and its replies (read.c, pagelist.c). The pages have the bytes before a reply is decoded. -/

namespace Mynfs

/-- `rw_done` has restarted the call, it has failed, or there is a READ result with `avail` bytes of data. -/
inductive ReadOutcome
  | restarted
  | failed (tkStatus : Err)
  | result (eof : Bool) (count avail : Nat)

/-- The bytes in the pages, and the result. -/
structure ReadReply where
  bytes : Nat → UInt8
  outcome : ReadOutcome

/-- A result as it was decoded, with the offset that was asked for. -/
structure ReadAnswer where
  offset : Nat
  count : Nat
  eof : Bool
  bytes : Nat → UInt8

/-- The call goes on, `nfs_read_completion` has gone over `bytes` bytes, or the header is released. -/
inductive HeaderPhase
  | running
  | completing (bytes : Nat)
  | released
deriving DecidableEq

/-- Requests are given by number, `answers` are the results so far. `tkOps` is false for I/O without RPCs. -/
structure ReadHeader where
  ioStart : Nat
  goodBytes : Nat
  pages : List Nat
  args : PgioArgs
  resCount : Nat := 0
  resEof : Bool := false
  iohdrEof : Bool := false
  iohdrError : Bool := false
  iohdrRedo : Bool := false
  error : Int := 0
  pnfsError : Int := 0
  tkOps : Bool := true
  phase : HeaderPhase := .running
  answers : List ReadAnswer := []

/-- How many of `count` bytes are in the pages, if the message has `avail`. -/
def xdrReadPages (pageLen avail count : Nat) : Nat := min count (min avail pageLen)

/-- The count and the EOF flag, as in `decode_read` and at the end of `decode_read3resok`. -/
def decodeRead (pageLen : Nat) (eof : Bool) (count avail : Nat) : Nat × Bool :=
  let recvd := xdrReadPages pageLen avail count
  if count > recvd then (recvd, false) else (count, eof)

namespace ReadHeader

section
variable (hdr : ReadHeader)

def nfsSetPgioError (error : Int) (pos : Nat) : ReadHeader :=
  let new := (pos - hdr.ioStart) % 2 ^ 32
  if hdr.goodBytes > new then
    { hdr with
      goodBytes := new
      iohdrEof := false
      iohdrError := true
      error := if hdr.iohdrError then hdr.error else error }
  else hdr

def ended : ReadHeader := { hdr with phase := .completing 0 }

def nfsReadpageRetry : ReadHeader :=
  if hdr.resCount = 0 then (hdr.nfsSetPgioError (negErrno .eio) hdr.args.offset).ended
  else if !hdr.tkOps then { hdr with pnfsError := negErrno .eagain }.ended
  else
    { hdr with
      args := { hdr.args with
        offset := hdr.args.offset + hdr.resCount
        pgbase := hdr.args.pgbase + hdr.resCount
        count := hdr.args.count - BitVec.ofNat 32 hdr.resCount }
      resCount := 0
      resEof := false }

def nfsReadpageResult : ReadHeader :=
  if hdr.resEof then
    let pos := hdr.args.offset + hdr.resCount
    let new := (pos - hdr.ioStart) % 2 ^ 32
    if hdr.goodBytes > new then { hdr with goodBytes := new, iohdrEof := true, iohdrError := false }.ended
    else hdr.ended
  else if hdr.resCount < hdr.args.count.toNat then hdr.nfsReadpageRetry
  else hdr.ended

def nfsPgioResult (reply : ReadReply) : ReadHeader :=
  match reply.outcome with
  | .restarted => hdr
  | .failed tkStatus => (hdr.nfsSetPgioError tkStatus hdr.args.offset).ended
  | .result eof count avail =>
    let (count, eof) := decodeRead hdr.args.count.toNat eof count avail
    { hdr with
      resCount := count
      resEof := eof
      answers := ⟨hdr.args.offset, count, eof, reply.bytes⟩ :: hdr.answers }.nfsReadpageResult

end

end ReadHeader

end Mynfs
