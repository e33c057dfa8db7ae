import Mynfs.Layout.Return

/-! LAYOUTCOMMIT (pnfs.c, nfs4proc.c): written segments are flagged until one takes them over, which runs alone here. -/

namespace Mynfs

namespace LayoutHdr
variable (lo : LayoutHdr)

def writesBack (lseg : Lseg) : Bool := decide (lseg.range.iomode = Iomode.rw) && lseg.layoutcommit

/-- The list of the LAYOUTCOMMIT, which gets the references that belonged to the flags. -/
def pnfsListWriteLseg : List Nat × LayoutHdr :=
  (((lo.segs.filter writesBack).map (·.id)).reverse,
    { lo with segs := lo.segs.map fun lseg =>
        { lseg with layoutcommit := lseg.layoutcommit && decide (lseg.range.iomode ≠ Iomode.rw) } })

def mypnfsPutLseg (id : Nat) : LayoutHdr :=
  match lo.segs.findIdx? fun lseg => lseg.id = id with
  | some i =>
    match lo.segs[i]? with
    | some lseg => lo.putLseg (lo.segs.take i) lseg (lo.segs.drop (i + 1))
    | none => lo
  | none => lo

end LayoutHdr

/-- The layout of an inode with `plh_lwb`, the end of what was written, and `NFS_INO_LAYOUTCOMMITTING`. -/
structure CommitInode where
  lo : LayoutHdr
  lwb : Int := 0
  committing : Bool := false

/-- The answers that a LAYOUTCOMMIT gets. -/
structure LayoutcommitEnv where
  sync : Bool := true
  wait : Int := 0
  canAlloc : Bool := true
  /-- The status of the driver's `prepare_layoutcommit`, if there is one. -/
  prepareLayoutcommit : Option Int := none
  igrab : Bool := true
  runTask : Int := 0

/-- `struct nfs4_layoutcommit_data`. -/
structure LayoutcommitData where
  stateid : Stateid
  lastbytewritten : U64
  lsegs : List Nat
deriving DecidableEq

/-- The status, and what was sent. -/
structure LayoutcommitResult where
  status : Int
  sent : Option LayoutcommitData := none
deriving DecidableEq

namespace CommitInode
variable (st : CommitInode)

def mypnfsSetLayoutcommit (i : Nat) (endPos : Int) : CommitInode :=
  let lwb := if !st.lo.inoLayoutcommit then endPos else max endPos st.lwb
  let segs := st.lo.segs.modify i fun lseg =>
    if lseg.layoutcommit then lseg else { lseg with layoutcommit := true, refcount := lseg.refcount + 1 }
  { st with lwb, lo := { st.lo with inoLayoutcommit := true, segs } }

def pnfsClearLayoutcommitting : CommitInode := { st with committing := false }

def nfs4LayoutcommitRelease (data : LayoutcommitData) : CommitInode :=
  { st with lo := data.lsegs.foldl (fun lo id => lo.mypnfsPutLseg id) st.lo }.pnfsClearLayoutcommitting

section
variable (env : LayoutcommitEnv)

def nfs4ProcLayoutcommit (data : LayoutcommitData) : CommitInode × LayoutcommitResult :=
  if !env.sync && !env.igrab then (st.nfs4LayoutcommitRelease data, ⟨negErrno .eagain, none⟩)
  -- a task that cannot be started is released
  else if env.runTask ≠ 0 then (st.nfs4LayoutcommitRelease data, ⟨env.runTask, none⟩)
  else (st, ⟨0, some data⟩)

def layoutcommitTaken (lsegs : List Nat) : CommitInode × LayoutcommitResult :=
  let endPos := st.lwb
  let lastbytewritten : U64 := if endPos ≠ 0 then BitVec.ofInt 64 (endPos - 1) else nfs4MaxUint64
  let status := env.prepareLayoutcommit.getD 0
  if status ≠ 0 then
    let lwb := if st.lwb < endPos then endPos else st.lwb
    ({ st with lo := { st.lo with inoLayoutcommit := true }, lwb }.pnfsClearLayoutcommitting, ⟨status, none⟩)
  else st.nfs4ProcLayoutcommit env ⟨st.lo.stateid, lastbytewritten, lsegs⟩

def layoutcommitLocked : CommitInode × LayoutcommitResult :=
  if !env.canAlloc then (st.pnfsClearLayoutcommitting, ⟨negErrno .enomem, none⟩)
  else if !st.lo.inoLayoutcommit then (st.pnfsClearLayoutcommitting, ⟨0, none⟩)
  else
    let (lsegs, lo) := { st.lo with inoLayoutcommit := false }.pnfsListWriteLseg
    { st with lo }.layoutcommitTaken env lsegs

def mypnfsLayoutcommitInode : CommitInode × LayoutcommitResult :=
  -- `pnfs_layoutcommit_outstanding`
  if !st.lo.inoLayoutcommit && !st.committing then (st, ⟨0, none⟩)
  else if st.committing && !env.sync then (st, ⟨negErrno .eagain, none⟩)
  else if st.committing && decide (env.wait ≠ 0) then (st, ⟨env.wait, none⟩)
  else { st with committing := true }.layoutcommitLocked env

end

end CommitInode

end Mynfs
