import Mynfs.Lib.Run
import Mynfs.Lib.Scatter
import Mynfs.Read.Header

/-! Buffered reads (read.c): requests for folios, split and coalesced into READs. Callers, RPCs and layout drivers act
    in any order. -/

namespace Mynfs

open Scatter

/-- The first page, the order and the index of each folio. Folios do not share pages; `nfs_server_set_fsinfo` bounds
    `rsize`. -/
structure PageCache (shift n : Nat) where
  head : Fin n → Nat
  order : Fin n → Nat
  slot : Fin n → Nat
  rsize : U32
  apart : ∀ f g, f ≠ g → head f + 2 ^ order f ≤ head g ∨ head g + 2 ^ order g ≤ head f
  size_le : ∀ f, 2 ^ order f * 2 ^ shift ≤ 2 ^ 31
  rsize_pos : 0 < rsize.toNat
  rsize_le : rsize.toNat ≤ 2 ^ 22

namespace PageCache
variable {shift n : Nat} (c : PageCache shift n)

section
variable (f : Fin n)

def folio : Folio := ⟨c.head f, 2 ^ c.order f⟩

def size : Nat := 2 ^ c.order f * 2 ^ shift

def index : Nat := c.slot f * 2 ^ c.order f

def addr (j : Nat) : Page × Nat := (c.head f + j / 2 ^ shift, j % 2 ^ shift)

def offset (j : Nat) : Nat := c.index f * 2 ^ shift + j

def nfsFolioLength (iSize : Nat) : Nat :=
  if iSize > 0 then
    let endIndex := (iSize - 1) / c.size f
    if c.slot f < endIndex then c.size f
    else if c.slot f = endIndex then (iSize - 1) % c.size f + 1
    else 0
  else 0

/-- `aligned_len` of `nfs_read_add_folio`: `ALIGN` adds and takes off the mask `rsize - 1`. -/
def alignedLen (len : Nat) : Nat :=
  let mask := c.rsize - 1
  min ((BitVec.ofNat 32 len + mask) &&& ~~~mask).toNat (c.size f)

def folioZeroSegment (start stop : Nat) (mem : Page × Nat → UInt8) : Page × Nat → UInt8 :=
  scatter (fun i => some (c.addr f (start + i))) (fun _ => 0) mem (stop - start)

end

end PageCache

/-- On a list of a descriptor or of a header, or released, by `nfs_read_completion` or by `nfs_async_read_error`. -/
inductive ReqPlace
  | listed
  | header (h : Nat)
  | completed (h : Nat) (error : Int)
  | cleaned (error : Int)
deriving DecidableEq

/-- The bits that the requests of a page group are synchronised on. -/
inductive PgBit
  | unlockpage
  | uptodate

/-- A request for a folio. -/
structure ReadReq (shift n : Nat) where
  req : NfsPage shift
  folio : Fin n
  place : ReqPlace := .listed
  pgUnlockpage : Bool := false
  pgUptodate : Bool := false

namespace ReadReq
variable {shift n : Nat} (r : ReadReq shift n)

def testBit : PgBit → Bool
  | .unlockpage => r.pgUnlockpage
  | .uptodate => r.pgUptodate

def setBit (val : Bool) : PgBit → ReadReq shift n
  | .unlockpage => { r with pgUnlockpage := val }
  | .uptodate => { r with pgUptodate := val }

end ReadReq

/-- The flags, and the page group of the last read, with the length it had then and how much was requested. -/
structure FolioState where
  uptodate : Bool := false
  locked : Bool := false
  error : Bool := false
  length : Nat := 0
  requested : Nat := 0
  group : List Nat := []

/-- `openctxErrors` are the errors put into the open contexts. -/
structure ReadSystem (shift n : Nat) where
  folios : Fin n → FolioState := fun _ => {}
  reqs : List (ReadReq shift n) := []
  headers : List ReadHeader := []
  mem : Page × Nat → UInt8
  openctxErrors : List (Nat × Int) := []

def nfsErrorIsFatal (err : Int) : Bool :=
  let fatal : List Errno :=
    [.erestartsys, .eintr, .eacces, .edquot, .efbig, .eio, .enospc, .erofs, .estale, .e2big, .enomem, .etimedout]
  fatal.any fun e => decide (err = negErrno e)

def nfsErrorIsFatalOnServer (err : Int) : Bool :=
  if err = 0 then false
  else if err = negErrno .erestartsys ∨ err = negErrno .eintr ∨ err = negErrno .enomem then false
  else nfsErrorIsFatal err

namespace ReadSystem
variable {shift n : Nat} (c : PageCache shift n) (s : ReadSystem shift n)

def updateReqs (p : Nat → Bool) (f : ReadReq shift n → ReadReq shift n) : ReadSystem shift n :=
  { s with reqs := s.reqs.mapIdx fun id r => if p id then f r else r }

def updateFolio (f : Fin n) (g : FolioState → FolioState) : ReadSystem shift n :=
  { s with folios := fun f' => if f' = f then g (s.folios f') else s.folios f' }

def updateHeader (h : Nat) (hdr : ReadHeader) : ReadSystem shift n := { s with headers := s.headers.set h hdr }

def setPlace (ids : List Nat) (place : ReqPlace) : ReadSystem shift n :=
  s.updateReqs (fun id => decide (id ∈ ids)) fun r => { r with place := place }

def testBit (bit : PgBit) (id : Nat) : Bool :=
  match s.reqs[id]? with
  | some r => r.testBit bit
  | none => false

def nfsPageGroupSyncOnBit (bit : PgBit) (id : Nat) (f : Fin n) : Bool × ReadSystem shift n :=
  let group := (s.folios f).group
  if group.all fun other => decide (other = id) || s.testBit bit other then
    (true, s.updateReqs (fun other => decide (other ∈ group)) fun r => r.setBit false bit)
  else (false, s.updateReqs (fun other => decide (other = id)) fun r => r.setBit true bit)

def nfsPageGroupSetUptodate (id : Nat) (f : Fin n) : ReadSystem shift n :=
  match s.nfsPageGroupSyncOnBit .uptodate id f with
  | (true, s) => s.updateFolio f fun folio => { folio with uptodate := true }
  | (false, s) => s

def nfsReadpageRelease (id : Nat) (f : Fin n) (error : Int) : ReadSystem shift n :=
  let fatal := nfsErrorIsFatalOnServer error && decide (error ≠ negErrno .etimedout)
  let s := s.updateFolio f fun folio => { folio with error := folio.error || fatal }
  match s.nfsPageGroupSyncOnBit .unlockpage id f with
  | (true, s) => s.updateFolio f fun folio => { folio with locked := false }
  | (false, s) => s

def nfsReturnEmptyFolio (f : Fin n) : ReadSystem shift n :=
  { s.updateFolio f fun folio => { folio with uptodate := true, length := 0, requested := 0, group := [] } with
    mem := c.folioZeroSegment f 0 (c.size f) s.mem }

/-- The file has `iSize` bytes for all the client knows. -/
structure AddFolio (n : Nat) where
  folio : Fin n
  iSize : Nat
  openctx : Nat
  lockowner : Nat

/-- Up to `nfs_pageio_add_request`, for a folio that its caller has locked. Without memory nothing happens. -/
def nfsReadAddFolio (a : AddFolio n) : Option (ReadSystem shift n) :=
  let f := a.folio
  if (s.folios f).locked || (s.folios f).uptodate then none
  else
    let len := c.nfsFolioLength f a.iSize
    if len = 0 then some (s.nfsReturnEmptyFolio c f)
    else
      let alignedLen := c.alignedLen f len
      if h : 0 < alignedLen ∧ 0 + alignedLen ≤ (WbMem.folio (c.folio f)).maxLength shift then
        let req := NfsPage.create (.folio (c.folio f)) 0 (c.index f) 0 alignedLen a.openctx a.lockowner h.1 h.2
        some { s.updateFolio f fun folio =>
            { folio with locked := true, length := len, requested := alignedLen, group := [s.reqs.length] } with
          reqs := s.reqs ++ [{ req, folio := f }]
          mem := c.folioZeroSegment f len (c.size f) s.mem }
      else none

/-- The first `size` bytes of a request on no header, and what `__nfs_pageio_add_request` leaves of it. -/
def nfsCreateSubreq (id size : Nat) : Option (ReadSystem shift n) :=
  match s.reqs[id]? with
  | some r =>
    if r.place = .listed then
      if h : 0 < size ∧ size < r.req.wbBytes then
        let sub := { req := r.req.createSubreq ⟨size, h⟩, folio := r.folio }
        let s := s.updateReqs (fun other => decide (other = id)) fun r' => { r' with req := r.req.advance ⟨size, h⟩ }
        let s := s.updateFolio r.folio fun folio => { folio with group := folio.group ++ [s.reqs.length] }
        some { s with reqs := s.reqs ++ [sub] }
      else none
    else none
  | none => none

def listed? (id : Nat) : Option (NfsPage shift) :=
  match s.reqs[id]? with
  | some r => if r.place = .listed then some r.req else none
  | none => none

/-- What an empty mirror takes goes out in one READ (`nfs_generic_pg_pgios`), of `rsize` bytes at most (`pg_test`). -/
def send (adds : List (AddEnv × Nat)) (tkOps : Bool) : Option (ReadSystem shift n) := do
  let ids := adds.map (·.2)
  let reqs ← adds.mapM fun (env, id) => (s.listed? id).map (env, ·)
  let desc ← Machine.exec addStep (⟨{ pgBsize := c.rsize }, 0, 0⟩ : PgioDescriptor shift) reqs
  match desc.mirror.pgList with
  | [] => none
  | first :: _ =>
    if ids.Nodup ∧ desc.mirror.pgCount ≤ c.rsize.toNat then
      match mynfsGenericPgio (fun _ => true) desc.mirror first with
      | .ok args =>
        let hdr := { ioStart := first.reqOffset, goodBytes := desc.mirror.pgCount, pages := ids, args, tkOps }
        some { s.setPlace ids (.header s.headers.length) with headers := s.headers ++ [hdr] }
      | .error _ => none
    else none

def reply (h : Nat) (rep : ReadReply) : Option (ReadSystem shift n) :=
  match s.headers[h]? with
  | some hdr =>
    if hdr.phase = .running then
      let addr := fun i => vecByte shift hdr.args.pages (hdr.args.pgbase + i)
      some { s.updateHeader h (hdr.nfsPgioResult rep) with mem := scatter addr rep.bytes s.mem hdr.args.count.toNat }
    else none
  | none => none

/-- The part of a request that `nfs_read_completion` fills with zeros, after requests with `bytes` bytes. -/
def zeroBadBytes (hdr : ReadHeader) (bytes : Nat) (r : ReadReq shift n) : ReadSystem shift n :=
  let start := r.req.wbPgbase
  let stop := r.req.wbPgbase + r.req.wbBytes
  if hdr.iohdrEof then
    if bytes > hdr.goodBytes then { s with mem := c.folioZeroSegment r.folio start stop s.mem }
    else if hdr.goodBytes - bytes < r.req.wbBytes then
      { s with mem := c.folioZeroSegment r.folio (start + (hdr.goodBytes - bytes)) stop s.mem }
    else s
  else s

def completeRequest (h : Nat) (hdr : ReadHeader) (bytes id : Nat) (r : ReadReq shift n) (rest : List Nat) :
    ReadSystem shift n :=
  let s := s.zeroBadBytes c hdr bytes r
  let bytes := bytes + r.req.wbBytes
  let (s, error) :=
    if hdr.iohdrError then
      if bytes ≤ hdr.goodBytes then (s.nfsPageGroupSetUptodate id r.folio, 0)
      else ({ s with openctxErrors := (r.req.openctx, hdr.error) :: s.openctxErrors }, hdr.error)
    else (s.nfsPageGroupSetUptodate id r.folio, 0)
  let s := s.updateHeader h { hdr with pages := rest, phase := .completing bytes }
  (s.setPlace [id] (.completed h error)).nfsReadpageRelease id r.folio error

/-- One request at a time of a header that is not to be sent again, and the release of the header. -/
def nfsReadCompletion (h : Nat) : Option (ReadSystem shift n) :=
  match s.headers[h]? with
  | some hdr =>
    match hdr.phase with
    | .completing bytes =>
      if hdr.pnfsError ≠ 0 then none
      else
        match hdr.pages with
        | [] => some (s.updateHeader h { hdr with phase := .released })
        | id :: rest => s.reqs[id]?.map fun r => s.completeRequest c h hdr bytes id r rest
    | _ => none
  | none => none

def nfsAsyncReadError (id : Nat) (error : Err) : Option (ReadSystem shift n) :=
  match s.reqs[id]? with
  | some r =>
    if r.place = .listed then some ((s.setPlace [id] (.cleaned error)).nfsReadpageRelease id r.folio error) else none
  | none => none

/-- `NFS_IOHDR_REDO`: a layout driver gives up on a header. The requests go back, and `nfs_read_completion` only
    releases it. -/
def resend (h : Nat) : Option (ReadSystem shift n) :=
  match s.headers[h]? with
  | some hdr =>
    match hdr.phase with
    | .running | .completing 0 =>
      some ((s.setPlace hdr.pages .listed).updateHeader h { hdr with iohdrRedo := true, pages := [], phase := .released })
    | _ => none
  | none => none

end ReadSystem

/-- Steps of callers, RPCs and layout drivers. -/
inductive ReadEvent (n : Nat)
  | addFolio (a : ReadSystem.AddFolio n)
  | createSubreq (id size : Nat)
  | send (adds : List (AddEnv × Nat)) (tkOps : Bool)
  | reply (h : Nat) (rep : ReadReply)
  | complete (h : Nat)
  | error (id : Nat) (error : Err)
  | resend (h : Nat)

namespace ReadSystem
variable {shift n : Nat}

def step (c : PageCache shift n) (s : ReadSystem shift n) : ReadEvent n → Option (ReadSystem shift n)
  | .addFolio a => s.nfsReadAddFolio c a
  | .createSubreq id size => s.nfsCreateSubreq id size
  | .send adds tkOps => s.send c adds tkOps
  | .reply h rep => s.reply h rep
  | .complete h => s.nfsReadCompletion c h
  | .error id error => s.nfsAsyncReadError id error
  | .resend h => s.resend h

end ReadSystem

end Mynfs
