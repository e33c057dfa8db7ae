import Mynfs.Layout.Commit
import Mynfs.Layout.Lookup

/-! A layout header with all that refers to it (pnfs.c). An event is a critical section or the start of a LAYOUTCOMMIT. -/

namespace Mynfs

/-- Merging leaves alone which segment the new one is, its references, and the flags that stand for references. -/
structure RefDriver extends LayoutDriver where
  merge_refs : ∀ lseg old merged, doMerge lseg old = some merged → merged.id = lseg.id ∧
    merged.refcount = lseg.refcount ∧ merged.valid = lseg.valid ∧ merged.layoutcommit = lseg.layoutcommit := by simp

/-- A header with its inode, and the references of callers. -/
structure LayoutRefs where
  inode : CommitInode := { lo := {} }
  roFailed : Bool := false
  rwFailed : Bool := false
  /-- A segment occurs here once for each reference that a caller holds on it. -/
  held : List Nat := []
  /-- The LAYOUTCOMMITs under way, with the references that they hold. -/
  commits : List LayoutcommitData := []
  /-- The references to the header that callers hold. -/
  hdrHeld : Nat := 1
  next : Nat := 0

/-- Steps that take or put references. -/
inductive RefEvent
  /-- A LAYOUTGET reply; the caller gets a reference to the segment that is inserted. -/
  | layoutProcess (res : LayoutgetRes)
  | findLseg (range : LayoutRange) (strictIomode : Bool)
  | getLseg (i : Nat)
  | putLseg (id : Nat)
  | setLayoutcommit (i : Nat) (endPos : Int)
  | clearLayoutcommit
  | layoutcommit (env : LayoutcommitEnv)
  | layoutcommitRelease (k : Nat)
  | markMatchingLsegsInvalid (range : Option LayoutRange) (seq : U32)
  | markMatchingLsegsReturn (toReturn : Bool) (range : LayoutRange) (seq : U32)
  | markLayoutStateidInvalid
  | layoutrecall (args : CbLayoutrecallargs)
  | layoutreturnFreeLsegs (args : LayoutreturnArgs) (stateid : Option Stateid)
  | roc (skipRead : Bool)
  | getLayoutHdr
  | putLayoutHdr
  | layoutSetFailBit (iomode : U32)
  | layoutClearFailBit (iomode : U32)
  | layoutIoSetFailed (iomode : U32)

namespace LayoutRefs
variable (s : LayoutRefs)

def lo : LayoutHdr := s.inode.lo

def withLo (lo : LayoutHdr) : LayoutRefs := { s with inode := { s.inode with lo } }

/-- The references of the callers and of the LAYOUTCOMMITs under way. -/
def callers : List Nat := s.held ++ s.commits.flatMap (·.lsegs)

def pnfsLayoutSetFailBit (iomode : U32) : LayoutRefs :=
  if iomode = Iomode.rw then
    if s.rwFailed then s else { s.withLo { s.lo with refcount := s.lo.refcount + 1 } with rwFailed := true }
  else if s.roFailed then s
  else { s.withLo { s.lo with refcount := s.lo.refcount + 1 } with roFailed := true }

def pnfsLayoutClearFailBit (iomode : U32) : LayoutRefs :=
  if iomode = Iomode.rw then
    if s.rwFailed then { s.withLo { s.lo with refcount := s.lo.refcount - 1 } with rwFailed := false } else s
  else if s.roFailed then { s.withLo { s.lo with refcount := s.lo.refcount - 1 } with roFailed := false }
  else s

def pnfsLayoutIoSetFailed (iomode : U32) : LayoutRefs :=
  let s := s.pnfsLayoutSetFailBit iomode
  s.withLo (s.lo.pnfsMarkMatchingLsegsReturn false { iomode } 0).2

def apply (ld : RefDriver) : RefEvent → Option LayoutRefs
  | .layoutProcess res =>
    let (status, lo) := s.lo.pnfsLayoutProcess ld.toLayoutDriver res s.next
    some (if status = 0 then { s.withLo lo with held := s.next :: s.held, next := s.next + 1 } else s.withLo lo)
  | .findLseg range strictIomode =>
    match s.lo.pnfsFindLseg range strictIomode with
    | (some i, lo) => (s.lo.segs[i]?).map fun lseg => { s.withLo lo with held := lseg.id :: s.held }
    | (none, _) => some s
  | .getLseg i =>
    (s.lo.segs[i]?).map fun lseg =>
      { s.withLo (s.lo.pnfsGetLseg (s.lo.segs.take i) lseg (s.lo.segs.drop (i + 1))) with held := lseg.id :: s.held }
  | .putLseg id =>
    if id ∈ s.held then some { s.withLo (s.lo.mypnfsPutLseg id) with held := s.held.erase id } else none
  | .setLayoutcommit i endPos => some { s with inode := s.inode.mypnfsSetLayoutcommit i endPos }
  | .clearLayoutcommit => some (s.withLo s.lo.pnfsClearLayoutcommit)
  | .layoutcommit env =>
    -- who waits for another LAYOUTCOMMIT starts after it
    if s.inode.committing then none
    else
      let (inode, r) := s.inode.mypnfsLayoutcommitInode env
      some { s with inode, commits := s.commits ++ r.sent.toList }
  | .layoutcommitRelease k =>
    (s.commits[k]?).map fun data =>
      { s with inode := s.inode.nfs4LayoutcommitRelease data, commits := s.commits.eraseIdx k }
  | .markMatchingLsegsInvalid range seq => some (s.withLo (s.lo.pnfsMarkMatchingLsegsInvalid range seq).2)
  | .markMatchingLsegsReturn toReturn range seq =>
    some (s.withLo (s.lo.pnfsMarkMatchingLsegsReturn toReturn range seq).2)
  | .markLayoutStateidInvalid => some (s.withLo s.lo.pnfsMarkLayoutStateidInvalid.2)
  | .layoutrecall args => some (s.withLo (s.lo.initiateFileDraining args).2)
  | .layoutreturnFreeLsegs args stateid => some (s.withLo (s.lo.pnfsLayoutreturnFreeLsegs args stateid))
  | .roc skipRead => some (s.withLo (s.lo.pnfsRoc skipRead))
  | .getLayoutHdr =>
    some { s.withLo { s.lo with refcount := s.lo.refcount + 1 } with hdrHeld := s.hdrHeld + 1 }
  | .putLayoutHdr =>
    if s.hdrHeld = 0 then none
    else some { s.withLo { s.lo with refcount := s.lo.refcount - 1 } with hdrHeld := s.hdrHeld - 1 }
  | .layoutSetFailBit iomode => some (s.pnfsLayoutSetFailBit iomode)
  | .layoutClearFailBit iomode => some (s.pnfsLayoutClearFailBit iomode)
  | .layoutIoSetFailed iomode => some (s.pnfsLayoutIoSetFailed iomode)

def step (ld : RefDriver) (s : LayoutRefs) (e : RefEvent) : Option LayoutRefs :=
  if s.lo.refcount = 0 then none else s.apply ld e

end LayoutRefs

end Mynfs
