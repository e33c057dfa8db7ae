import Mynfs.Stateid

/-! Layout segments and their ranges (pnfs.c, pnfs.h). -/

namespace Mynfs

def pnfsEndOffset (start len : U64) : U64 :=
  if nfs4MaxUint64 - start ≤ len then nfs4MaxUint64 else start + len

def pnfsIsRangeIntersecting (start1 end1 start2 end2 : U64) : Bool :=
  decide (end1 = nfs4MaxUint64 ∨ start2 < end1) && decide (end2 = nfs4MaxUint64 ∨ start1 < end2)

namespace LayoutRange

section
variable (l1 l2 : LayoutRange)

def pnfsLsegRangeIntersecting : Bool :=
  pnfsIsRangeIntersecting l1.offset (pnfsEndOffset l1.offset l1.length) l2.offset (pnfsEndOffset l2.offset l2.length)

def pnfsShouldFreeRange (lsegRange recallRange : LayoutRange) : Bool :=
  decide (recallRange.iomode = Iomode.any ∨ lsegRange.iomode = recallRange.iomode) &&
    lsegRange.pnfsLsegRangeIntersecting recallRange

def pnfsSanityCheckLayoutRange (range : LayoutRange) : Bool :=
  decide (range.iomode = Iomode.read ∨ range.iomode = Iomode.rw) && decide (range.offset ≠ nfs4MaxUint64) &&
    decide (range.length ≠ 0) &&
    !decide (range.length ≠ nfs4MaxUint64 ∧ nfs4MaxUint64 - range.offset < range.length)

/-- The differences are taken as signed numbers. -/
def pnfsLsegRangeCmp : Int :=
  if (l1.offset - l2.offset).toInt ≠ 0 then (l1.offset - l2.offset).toInt
  else if (l2.length - l1.length).toInt ≠ 0 then (l2.length - l1.length).toInt
  else (if l1.iomode = Iomode.read then 1 else 0) - (if l2.iomode = Iomode.read then 1 else 0)

def pnfsLsegRangeIsAfter : Bool := decide (0 < l1.pnfsLsegRangeCmp l2)

end

end LayoutRange

def pnfsSeqidIsNewer (s1 s2 : U32) : Bool := Serial.newer s1 s2

/-- `struct pnfs_layout_segment`, with its flags `NFS_LSEG_...`. The `id` stands for its address. -/
structure Lseg where
  id : Nat := 0
  range : LayoutRange
  seq : U32
  refcount : Nat := 1
  valid : Bool := true
  roc : Bool := false
  layoutcommit : Bool := false
  layoutreturn : Bool := false
deriving DecidableEq

def pnfsInitLseg (range : LayoutRange) (stateid : Stateid) (id : Nat := 0) : Lseg := { id, range, seq := stateid.seqid }

def Lseg.pnfsMatchLsegRecall (lseg : Lseg) (recallRange : Option LayoutRange) (seq : U32) : Bool :=
  if seq ≠ 0 ∧ pnfsSeqidIsNewer lseg.seq seq then false
  else
    match recallRange with
    | none => true
    | some range => lseg.range.pnfsShouldFreeRange range

/-- An order of the list, and a way to merge an old segment into the new one, which keeps its sequence id. -/
structure LayoutDriver where
  isAfter : LayoutRange → LayoutRange → Bool := LayoutRange.pnfsLsegRangeIsAfter
  /-- `do_merge`, with the new segment as it is left. -/
  doMerge : Lseg → Lseg → Option Lseg := fun _ _ => none
  merge_seq : ∀ lseg old merged, doMerge lseg old = some merged → merged.seq = lseg.seq := by simp

end Mynfs
