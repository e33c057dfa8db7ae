import Mynfs.Layout.Segment

/-! The layout header of a file (pnfs.c), and what invalidates its segments or marks them. It is all under `i_lock`. -/

namespace Mynfs

/-- `struct pnfs_layout_hdr`. -/
structure LayoutHdr where
  /-- `plh_refcount`, which starts with the reference of who allocates the header. -/
  refcount : Nat := 1
  bulkRecall : Bool := false
  layoutReturn : Bool := false
  returnLock : Bool := false
  returnRequested : Bool := false
  invalidStid : Bool := true
  firstLayoutget : Bool := false
  drain : Bool := false
  stateid : Stateid := {}
  barrier : U32 := 0
  returnSeq : U32 := 0
  returnIomode : U32 := Iomode.unset
  outstanding : Nat := 0
  blockLgets : Nat := 0
  segs : List Lseg := []
  returnSegs : List Lseg := []
  inoLayoutcommit : Bool := false
  /-- How often a stateid was set while there was no valid one. Not in the source. -/
  fresh : Nat := 0
  /-- The segments that were unlinked so far. Not in the source. -/
  unlinked : List Nat := []
deriving DecidableEq

namespace LayoutHdr
variable (lo : LayoutHdr)

def pnfsLayoutIsValid : Bool := !lo.invalidStid

def pnfsBarrierUpdate (newseq : U32) : LayoutHdr :=
  if pnfsSeqidIsNewer newseq lo.barrier || decide (lo.barrier = 0) then { lo with barrier := newseq } else lo

def pnfsSetPlhReturnInfo (iomode : U32) (seq : U32) : LayoutHdr :=
  let iomode := if lo.returnIomode ≠ Iomode.unset ∧ lo.returnIomode ≠ iomode then Iomode.any else iomode
  let seq := if seq = 0 then lo.stateid.seqid else seq
  let returnSeq := if lo.returnSeq = 0 ∨ pnfsSeqidIsNewer seq lo.returnSeq then seq else lo.returnSeq
  { lo with returnIomode := iomode, returnRequested := true, returnSeq := returnSeq }.pnfsBarrierUpdate seq

def pnfsClearLayoutreturnInfo : LayoutHdr :=
  (lo.segs.filter (·.layoutreturn)).foldl (fun lo lseg => lo.pnfsSetPlhReturnInfo lseg.range.iomode 0)
    { lo with returnIomode := Iomode.unset, returnSeq := 0, returnRequested := false }

def pnfsClearLayoutreturnWaitbit : LayoutHdr := { lo with layoutReturn := false, returnLock := false }

def pnfsLayoutRemoveLseg (lseg : Lseg) (segs : List Lseg) : LayoutHdr :=
  let lo := { lo with segs := segs, unlinked := lseg.id :: lo.unlinked, refcount := lo.refcount - 1 }
  if lseg.layoutreturn then lo
  else if lo.segs.isEmpty && !lo.returnRequested && !lo.layoutReturn then
    { lo with invalidStid := lo.invalidStid || decide (lo.outstanding = 0), bulkRecall := false }
  else lo

/-- A segment after a function worked on it: in its place, or removed from the list. -/
inductive Place
  | kept (lseg : Lseg)
  | removed (lseg : Lseg)

def Place.toList : Place → List Lseg
  | .kept lseg => [lseg]
  | .removed _ => []

section
variable (before : List Lseg) (lseg : Lseg) (after : List Lseg)

def pnfsLsegDecAndRemoveZero : Place × LayoutHdr :=
  let lseg := { lseg with refcount := lseg.refcount - 1 }
  if lseg.refcount = 0 then (.removed lseg, lo.pnfsLayoutRemoveLseg lseg (before ++ after))
  else (.kept lseg, { lo with segs := before ++ lseg :: after })

def markLsegInvalid : Place × LayoutHdr :=
  if lseg.valid then lo.pnfsLsegDecAndRemoveZero before { lseg with valid := false } after
  else (.kept lseg, { lo with segs := before ++ lseg :: after })

def pnfsClearLsegState : Place × LayoutHdr :=
  match lo.markLsegInvalid before { lseg with roc := false, layoutreturn := false } after with
  | (.kept lseg, lo) =>
    if lseg.layoutcommit then lo.pnfsLsegDecAndRemoveZero before { lseg with layoutcommit := false } after
    else (.kept lseg, lo)
  | (.removed lseg, lo) => (.removed lseg, lo)

end

/-- `list_for_each_entry_safe` over `plh_segs`: `todo` is left of the list, `before` stayed in it so far. -/
def forEachLseg {α : Type} (body : α → LayoutHdr → List Lseg → Lseg → List Lseg → α × Place × LayoutHdr) :
    α → LayoutHdr → List Lseg → List Lseg → α × LayoutHdr
  | a, lo, _, [] => (a, lo)
  | a, lo, before, lseg :: after =>
    let (a, place, lo) := body a lo before lseg after
    forEachLseg body a lo (before ++ place.toList) after

/-- Where invalidated segments go: `free_me` (or `plh_return_segs`, once `toReturn`), and how many stay behind. -/
structure Marked where
  toReturn : Bool := false
  free : List Lseg := []
  remaining : Nat := 0

def markReturnBody (returnRange : LayoutRange) (seq : U32) (a : Marked) (lo : LayoutHdr) (before : List Lseg)
    (lseg : Lseg) (after : List Lseg) : Marked × Place × LayoutHdr :=
  if lseg.pnfsMatchLsegRecall (some returnRange) seq then
    let a := { a with toReturn := a.toReturn || lseg.layoutreturn }
    match lo.markLsegInvalid before lseg after with
    | (.removed lseg, lo) =>
      if a.toReturn then (a, .removed lseg, { lo with returnSegs := lseg :: lo.returnSegs })
      else ({ a with free := lseg :: a.free }, .removed lseg, lo)
    | (.kept lseg, lo) =>
      let lseg := { lseg with layoutreturn := true }
      ({ a with remaining := a.remaining + 1 }, .kept lseg, { lo with segs := before ++ lseg :: after })
  else (a, .kept lseg, lo)

/-- `toReturn` tells that the caller gives `plh_return_segs` for `tmp_list`. -/
def pnfsMarkMatchingLsegsReturn (toReturn : Bool) (returnRange : LayoutRange) (seq : U32) : Int × LayoutHdr :=
  let (a, lo) := forEachLseg (markReturnBody returnRange seq) { toReturn := toReturn || lo.returnRequested } lo [] lo.segs
  if a.remaining ≠ 0 then (negErrno .ebusy, lo.pnfsSetPlhReturnInfo returnRange.iomode seq)
  else if !lo.returnSegs.isEmpty then (0, lo.pnfsSetPlhReturnInfo returnRange.iomode seq)
  else (negErrno .enoent, lo)

section
variable (recallRange : Option LayoutRange) (seq : U32)

def markInvalidBody (remaining : Nat) (lo : LayoutHdr)
    (before : List Lseg) (lseg : Lseg) (after : List Lseg) : Nat × Place × LayoutHdr :=
  if lseg.pnfsMatchLsegRecall recallRange seq then
    match lo.markLsegInvalid before lseg after with
    | (.removed lseg, lo) => (remaining, .removed lseg, lo)
    | (.kept lseg, lo) => (remaining + 1, .kept lseg, lo)
  else (remaining, .kept lseg, lo)

def pnfsMarkMatchingLsegsInvalid : Nat × LayoutHdr :=
  forEachLseg (markInvalidBody recallRange seq) 0 lo [] lo.segs

end

def pnfsFreeReturnedLsegs (range : LayoutRange) (seq : U32) : LayoutHdr :=
  { lo with returnSegs := lo.returnSegs.filter fun lseg => !lseg.pnfsMatchLsegRecall (some range) seq }

def pnfsResetReturnInfo : LayoutHdr :=
  lo.returnSegs.foldl (fun lo lseg => lo.pnfsSetPlhReturnInfo lseg.range.iomode 0) lo

/-- The result tells whether segments are left. -/
def pnfsMarkLayoutStateidInvalid : Bool × LayoutHdr :=
  if lo.invalidStid then (!lo.segs.isEmpty, lo)
  else
    let lo := { lo with invalidStid := true, inoLayoutcommit := false }
    let (_, lo) := forEachLseg (fun a lo before lseg after => (a, lo.pnfsClearLsegState before lseg after)) () lo [] lo.segs
    let lo := lo.pnfsClearLayoutreturnInfo.pnfsFreeReturnedLsegs { iomode := Iomode.any } 0
    let lo := { lo with drain := true }
    let lo := if lo.layoutReturn && !lo.returnLock then lo.pnfsClearLayoutreturnWaitbit else lo
    (!lo.segs.isEmpty, lo)

def pnfsSetLayoutStateid (new : Stateid) (updateBarrier : Bool) : LayoutHdr :=
  if !lo.pnfsLayoutIsValid then
    { { lo with stateid := new, barrier := new.seqid }.pnfsClearLayoutreturnInfo with
      invalidStid := false, fresh := lo.fresh + 1 }
  else
    let lo := if pnfsSeqidIsNewer new.seqid lo.stateid.seqid then { lo with stateid := new } else lo
    if updateBarrier then lo.pnfsBarrierUpdate new.seqid
    else if lo.outstanding = 1 then lo.pnfsBarrierUpdate lo.stateid.seqid
    else lo

def pnfsLayoutStateidBlocked (stateid : Stateid) : Bool :=
  decide (lo.barrier ≠ 0) && pnfsSeqidIsNewer lo.barrier stateid.seqid

def pnfsLayoutgetsBlocked : Bool := decide (lo.blockLgets ≠ 0) || lo.bulkRecall

end LayoutHdr

end Mynfs
