import Mynfs.Lib.Run
import Mynfs.Layout.Return

/-! Looking up a layout segment, and the list of segments as it is filled and emptied (pnfs.c). -/

namespace Mynfs

namespace LayoutRange

def pnfsLsegRangeContained (l1 l2 : LayoutRange) : Bool :=
  decide (l1.offset ≤ l2.offset) && decide (pnfsEndOffset l2.offset l2.length ≤ pnfsEndOffset l1.offset l1.length)

def pnfsLsegRangeMatch (lsRange range : LayoutRange) (strictIomode : Bool) : Bool :=
  if (range.iomode = Iomode.rw ∧ lsRange.iomode ≠ Iomode.rw) ∨ (range.iomode ≠ lsRange.iomode ∧ strictIomode) ∨
      !lsRange.pnfsLsegRangeIntersecting range then
    false
  else
    -- covers only the first byte of the range
    lsRange.pnfsLsegRangeContained { range with length := 1 }

end LayoutRange

/-- Changes of the list of segments. -/
inductive LsegEvent
  | insertLseg (range : LayoutRange) (stateid : Stateid)
  | getLseg (i : Nat)
  | putLseg (i : Nat)
  | markLsegInvalid (i : Nat)

namespace LayoutHdr
variable (lo : LayoutHdr)

def onLseg (i : Nat) (f : List Lseg → Lseg → List Lseg → LayoutHdr) : Option LayoutHdr :=
  (lo.segs[i]?).map fun lseg => f (lo.segs.take i) lseg (lo.segs.drop (i + 1))

def pnfsGetLseg (before : List Lseg) (lseg : Lseg) (after : List Lseg) : LayoutHdr :=
  { lo with segs := before ++ { lseg with refcount := lseg.refcount + 1 } :: after }

/-- The place of the segment, which gets one more reference. -/
def pnfsFindLseg (range : LayoutRange) (strictIomode : Bool) : Option Nat × LayoutHdr :=
  match lo.segs.findIdx? fun lseg => lseg.valid && lseg.range.pnfsLsegRangeMatch range strictIomode with
  | some i => (some i, (lo.onLseg i lo.pnfsGetLseg).getD lo)
  | none => (none, lo)

/-- The list with the comparison of `pnfs_layout_insert_lseg` for drivers that bring no `add_lseg`. -/
def lsegStep : LsegEvent → Option LayoutHdr
  | .insertLseg range stateid => some (lo.genericLayoutInsertLseg {} (pnfsInitLseg range stateid) [] lo.segs)
  | .getLseg i => lo.onLseg i lo.pnfsGetLseg
  | .putLseg i => lo.onLseg i lo.putLseg
  | .markLsegInvalid i => lo.onLseg i fun before lseg after => (lo.markLsegInvalid before lseg after).2

end LayoutHdr

end Mynfs
