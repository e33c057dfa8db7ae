import Mynfs.Layout.Header

/-! LAYOUTGET replies, LAYOUTRETURN and CB_LAYOUTRECALL on one layout header (pnfs.c, callback_proc.c). -/

namespace Mynfs

/-- `struct nfs4_layoutreturn_args`. -/
structure LayoutreturnArgs where
  stateid : Stateid
  range : LayoutRange
deriving DecidableEq

/-- `struct nfs4_layoutget_res`. -/
structure LayoutgetRes where
  range : LayoutRange
  stateid : Stateid
  returnOnClose : Bool := false
deriving DecidableEq

/-- A recall for one file, with the `referring_calls` of the compound's state. -/
structure CbLayoutrecallargs where
  stateid : Stateid
  range : LayoutRange
  referringCalls : Bool := false
deriving DecidableEq

namespace LayoutHdr
variable (lo : LayoutHdr)

/-- `before` is the part of the list that was passed. A segment in the list holds a reference to the header. -/
def genericLayoutInsertLseg (ld : LayoutDriver) (lseg : Lseg) (lo : LayoutHdr) (before : List Lseg) : List Lseg → LayoutHdr
  | [] => { lo with segs := before ++ [lseg], refcount := lo.refcount + 1 }
  | lp :: after =>
    if !lp.valid then lo.genericLayoutInsertLseg ld lseg (before ++ [lp]) after
    else
      match ld.doMerge lseg lp with
      | some merged =>
        let (place, lo) := lo.markLsegInvalid before lp after
        lo.genericLayoutInsertLseg ld merged (before ++ place.toList) after
      | none =>
        if ld.isAfter lseg.range lp.range then lo.genericLayoutInsertLseg ld lseg (before ++ [lp]) after
        else { lo with segs := before ++ lseg :: lp :: after, refcount := lo.refcount + 1 }

/-- The end of `pnfs_layout_process`: the new segment has one more reference, which the caller gets. -/
def installLseg (ld : LayoutDriver) (res : LayoutgetRes) (updateBarrier : Bool) (id : Nat := 0) : LayoutHdr :=
  let lo := lo.pnfsSetLayoutStateid res.stateid updateBarrier
  let lseg := pnfsInitLseg res.range res.stateid id
  lo.genericLayoutInsertLseg ld { lseg with refcount := lseg.refcount + 1, roc := res.returnOnClose } [] lo.segs

/-- `pnfs_layout_process` after the driver made a segment of the reply, at the address `id`. -/
def pnfsLayoutProcess (ld : LayoutDriver) (res : LayoutgetRes) (id : Nat := 0) : Int × LayoutHdr :=
  if !res.range.pnfsSanityCheckLayoutRange then (negErrno .einval, lo)
  else if lo.pnfsLayoutgetsBlocked then (negErrno .eagain, lo)
  else if lo.drain && !lo.firstLayoutget then (negErrno .eagain, lo)
  else if lo.stateid.nfs4StateidMatchOther res.stateid then
    if lo.pnfsLayoutStateidBlocked res.stateid then
      (negErrno .eagain, if !lo.pnfsLayoutIsValid then { lo with barrier := 0 } else lo)
    else (0, lo.installLseg ld res false id)
  else if lo.pnfsLayoutIsValid then
    (negErrno .eagain, (lo.pnfsMarkMatchingLsegsReturn false { iomode := Iomode.any } 0).2)
  else (0, lo.installLseg ld res true id)

/-- The stateid and iomode of the call, if one can be made now. -/
def pnfsPrepareLayoutreturn : Option (Stateid × U32 × LayoutHdr) :=
  if lo.outstanding ≠ 0 ∧ lo.returnSeq = 0 then none
  else if lo.returnLock then none
  else
    let lo := { lo with returnLock := true, layoutReturn := true }
    if lo.returnRequested then
      let stateid := if lo.returnSeq ≠ 0 then { lo.stateid with seqid := lo.returnSeq } else lo.stateid
      some (stateid, lo.returnIomode, lo.pnfsClearLayoutreturnInfo.pnfsBarrierUpdate stateid.seqid)
    else some (lo.stateid, Iomode.any, lo.pnfsBarrierUpdate lo.stateid.seqid)

/-- `pnfs_layout_need_return`, which compares with the positive error number. -/
def pnfsLayoutNeedReturn : Bool × LayoutHdr :=
  if !lo.returnRequested then (false, lo)
  else
    let (status, lo) := lo.pnfsMarkMatchingLsegsReturn true { iomode := lo.returnIomode } lo.returnSeq
    (decide (status ≠ (Errno.ebusy.code : Int)), lo)

section
variable (args : LayoutreturnArgs)

def pnfsLayoutreturnRetryLater : LayoutHdr :=
  let lo :=
    if lo.pnfsLayoutIsValid && lo.stateid.nfs4StateidMatchOther args.stateid &&
        lo.returnSegs.any (fun lseg =>
          !pnfsSeqidIsNewer lseg.seq args.stateid.seqid && lseg.range.pnfsShouldFreeRange args.range) then
      lo.pnfsSetPlhReturnInfo args.range.iomode args.stateid.seqid
    else lo
  lo.pnfsClearLayoutreturnWaitbit

def pnfsLayoutreturnFreeLsegs (stateid : Option Stateid) : LayoutHdr :=
  let lo :=
    if !lo.stateid.nfs4StateidMatchOther args.stateid then lo
    else
      match stateid with
      | some stateid =>
        if lo.pnfsLayoutIsValid then
          let (_, lo) := lo.pnfsMarkMatchingLsegsInvalid (some args.range) args.stateid.seqid
          let lo := lo.pnfsFreeReturnedLsegs args.range args.stateid.seqid
          (lo.pnfsSetLayoutStateid stateid true).pnfsResetReturnInfo
        else lo.pnfsMarkLayoutStateidInvalid.2
      | none => lo.pnfsMarkLayoutStateidInvalid.2
  lo.pnfsClearLayoutreturnWaitbit

/-- The arguments to try again with. -/
def nfs4LayoutRefreshOldStateid : Option LayoutreturnArgs × LayoutHdr :=
  if lo.pnfsLayoutIsValid && args.stateid.nfs4StateidMatchOther lo.stateid then
    if !lo.stateid.nfs4StateidIsNewer args.stateid then
      (some { args with stateid := args.stateid.nfs4StateidSeqidInc }, lo)
    else
      let (err, lo) := lo.pnfsMarkMatchingLsegsReturn false { iomode := Iomode.any } 0
      if err ≠ negErrno .ebusy then
        (some { stateid := { args.stateid with seqid := lo.stateid.seqid }, range := { iomode := Iomode.any } }, lo)
      else (none, lo)
  else (none, lo)

end

def rocBody (skipRead : Bool) (_ : Unit) (lo : LayoutHdr) (before : List Lseg) (lseg : Lseg) (after : List Lseg) :
    Unit × Place × LayoutHdr :=
  if (skipRead && decide (lseg.range.iomode = Iomode.read)) || !lseg.roc then ((), .kept lseg, lo)
  else
    match lo.markLsegInvalid before { lseg with roc := false, layoutreturn := true } after with
    | (.kept lseg, lo) => ((), .kept lseg, lo)
    | (.removed lseg, lo) =>
      ((), .removed lseg, { lo with returnSegs := lseg :: lo.returnSegs }.pnfsSetPlhReturnInfo lseg.range.iomode 0)

def pnfsRoc (skipRead : Bool) : LayoutHdr := (forEachLseg (rocBody skipRead) () lo [] lo.segs).2

def pnfsClearLayoutcommit : LayoutHdr :=
  if lo.inoLayoutcommit then
    (forEachLseg
      (fun a lo before lseg after =>
        if lseg.layoutcommit then (a, lo.pnfsLsegDecAndRemoveZero before { lseg with layoutcommit := false } after)
        else (a, .kept lseg, lo))
      () { lo with inoLayoutcommit := false } [] lo.segs).2
  else lo

def putLseg (before : List Lseg) (lseg : Lseg) (after : List Lseg) : LayoutHdr :=
  match lo.pnfsLsegDecAndRemoveZero before lseg after with
  | (.kept _, lo) => lo
  | (.removed lseg, lo) =>
    -- `pnfs_cache_lseg_for_layoutreturn`
    if lseg.layoutreturn && lo.pnfsLayoutIsValid then
      let lo := lo.pnfsSetPlhReturnInfo lseg.range.iomode 0
      { lo with returnSegs := lo.returnSegs ++ [{ lseg with layoutreturn := false }] }
    else lo

def pnfsCheckCallbackStateid (new : Stateid) (referringCalls : Bool) : Nat :=
  if !lo.pnfsLayoutIsValid then Nfs4err.nomatchingLayout
  else if !lo.stateid.nfs4StateidMatchOther new then Nfs4err.badStateid
  else if lo.layoutReturn then Nfs4err.delay
  else if lo.stateid.seqid + 1 < new.seqid ∧ referringCalls = false then Nfs4err.delay
  else if new.seqid ≤ lo.stateid.seqid then Nfs4err.oldStateid
  else Nfs4err.ok

def initiateFileDraining (args : CbLayoutrecallargs) : Nat × LayoutHdr :=
  let rv := lo.pnfsCheckCallbackStateid args.stateid args.referringCalls
  if rv ≠ Nfs4err.ok then (rv, lo)
  else if lo.bulkRecall then (Nfs4err.delay, lo)
  else
    let lo := lo.pnfsSetLayoutStateid args.stateid true
    let (status, lo) := lo.pnfsMarkMatchingLsegsReturn false args.range args.stateid.seqid
    if status = 0 ∨ status = negErrno .ebusy then (Nfs4err.ok, lo)
    else (Nfs4err.nomatchingLayout, { lo with drain := true })

/-- The recall is accepted: it gets to `pnfs_mark_matching_lsegs_return`. -/
def accepts (args : CbLayoutrecallargs) : Bool :=
  decide (lo.pnfsCheckCallbackStateid args.stateid args.referringCalls = Nfs4err.ok) && !lo.bulkRecall

end LayoutHdr

end Mynfs
