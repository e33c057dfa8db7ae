import Mynfs.Pageio.Request

/-! Coalescing of requests into one RPC (pagelist.c, `nfs_pageio_do_add_request` and `mynfs_generic_pgio`). -/

namespace Mynfs

section
variable {shift : Nat}

/-- `struct nfs_pgio_mirror`. -/
structure PgioMirror (shift : Nat) where
  pgList : List (NfsPage shift) := []
  pgBase : Nat := 0
  pgCount : Nat := 0
  pgBsize : U32
  pgRecoalesce : Bool := false

/-- `struct nfs_pageio_descriptor`. -/
structure PgioDescriptor (shift : Nat) where
  mirror : PgioMirror shift
  pgError : Int := 0
  pgMaxretrans : Nat := 0

/-- The error that `pg_init` leaves, file locks on the inode, `NFS_MOUNT_SOFTERR`, and the size that `pg_test` answers. -/
structure AddEnv where
  initError : Int := 0
  hasLocks : Bool := false
  softerr : Bool := false
  pgTest : Nat

def nfsPageIsContiguous (prev req : NfsPage shift) : Bool :=
  let prevEnd := prev.wbPgbase + prev.wbBytes
  if req.reqOffset ≠ prev.reqOffset + prev.wbBytes then false
  else if req.wbPgbase = 0 then decide (prevEnd = prev.wbMem.maxLength shift)
  else if req.wbPgbase = prevEnd then
    match req.toFolio with
    | some folio => decide (some folio.head = prev.toFolio.map (·.head))
    | none => decide (req.wbMem.wbPage = prev.wbMem.wbPage)
  else false

def nfsCoalesceSize (env : AddEnv) (prev : Option (NfsPage shift)) (req : NfsPage shift) : Nat :=
  match prev with
  | some prev =>
    if req.openctx ≠ prev.openctx then 0
    else if env.hasLocks && decide (req.lockowner ≠ prev.lockowner) then 0
    else if !nfsPageIsContiguous prev req then 0
    else env.pgTest
  | none => env.pgTest

def doAddRequestTo (env : AddEnv) (desc : PgioDescriptor shift) (prev : Option (NfsPage shift))
    (req : NfsPage shift) : Nat × PgioDescriptor shift :=
  if desc.pgMaxretrans ≠ 0 ∧ desc.pgMaxretrans < req.wbNio then
    (0, { desc with pgError := if env.softerr then negErrno .etimedout else negErrno .eio })
  else
    let size := nfsCoalesceSize env prev req
    if size < req.wbBytes then (size, desc)
    else
      (req.wbBytes, { desc with mirror := { desc.mirror with
        pgList := desc.mirror.pgList ++ [req], pgCount := desc.mirror.pgCount + req.wbBytes } })

/-- The size accepted, which is that of the request if it was added. -/
def nfsPageioDoAddRequest (env : AddEnv) (desc : PgioDescriptor shift) (req : NfsPage shift) :
    Nat × PgioDescriptor shift :=
  match desc.mirror.pgList.getLast? with
  | some prev => doAddRequestTo env desc (some prev) req
  | none =>
    let desc := if env.initError < 0 then { desc with pgError := env.initError } else desc
    if desc.pgError < 0 then (0, desc)
    else
      let mirror := { desc.mirror with pgBase := req.wbPgbase, pgCount := 0, pgRecoalesce := false }
      doAddRequestTo env { desc with mirror := mirror } none req

def addStep (desc : PgioDescriptor shift) (add : AddEnv × NfsPage shift) : Option (PgioDescriptor shift) :=
  let (size, desc) := nfsPageioDoAddRequest add.1 desc add.2
  if size = add.2.wbBytes then some desc else none

def nfsPageArrayLen (shift base len : Nat) : Nat := ((len + base + 2 ^ shift - 1) / 2 ^ shift) % 2 ^ 32

/-- The page vector as it is filled. -/
structure PageVec where
  pages : List Page := []
  lastPage : Option Page := none
  pageused : Nat := 0

section
variable (pagecount : Nat) (v : PageVec)

/-- Store a page unless it is the last one stored; fails (`goto full`) if there is no room. -/
def storePage (page : Page) : Except PageVec PageVec :=
  if v.lastPage ≠ some page then
    if pagecount < v.pageused + 1 then .error { v with pageused := v.pageused + 1 }
    else .ok ⟨v.pages ++ [page], some page, v.pageused + 1⟩
  else .ok v

def storeRequest (req : NfsPage shift) : Except PageVec PageVec :=
  let v := if req.wbPgbase = 0 then { v with lastPage := none } else v
  (PageIter.init : PageIter req).pages.foldlM (storePage pagecount) v

def storeRequests (reqs : List (NfsPage shift)) : Except PageVec PageVec :=
  reqs.foldlM (storeRequest pagecount) v

end

/-- The memory byte at a position of a page vector. -/
def vecByte (shift : Nat) (pages : List Page) (pos : Nat) : Option (Page × Nat) :=
  (pages[pos / 2 ^ shift]?).map (·, pos % 2 ^ shift)

/-- `struct nfs_pgio_args`. -/
structure PgioArgs where
  offset : Nat
  pgbase : Nat
  count : U32
  pages : List Page

/-- For the header of the first request; `canAlloc` tells whether a page array of the given length can be had. -/
def mynfsGenericPgio (canAlloc : Nat → Bool) (mirror : PgioMirror shift) (first : NfsPage shift) :
    Except Errno PgioArgs :=
  let pgBase := mirror.pgBase % 2 ^ shift
  let pagecount := nfsPageArrayLen shift pgBase mirror.pgCount
  if canAlloc pagecount then
    let v :=
      match storeRequests pagecount {} mirror.pgList with
      | .ok v => v
      | .error v => v
    if v.pageused ≠ pagecount then .error .einval
    else .ok ⟨first.reqOffset, pgBase, BitVec.ofNat 32 mirror.pgCount, v.pages⟩
  else .error .enomem

end

end Mynfs
