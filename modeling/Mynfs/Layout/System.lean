import Mynfs.Lib.Run
import Mynfs.Layout.Return

/-! One layout header with its LAYOUTGETs and LAYOUTRETURNs. An event is a critical section under `i_lock`. The
    LAYOUTRETURN after a reboot and the end of the header are left out. -/

namespace Mynfs

/-- A LAYOUTGET, as long as it counts in `plh_outstanding` or holds `NFS_LAYOUT_FIRST_LAYOUTGET`. -/
structure LayoutgetCall where
  first : Bool
  begun : Bool := true
  replied : Bool := false
deriving DecidableEq

/-- A header with the calls under way. -/
structure LayoutSys where
  lo : LayoutHdr := {}
  gets : List LayoutgetCall := []
  returns : List LayoutreturnArgs := []
deriving DecidableEq

/-- Critical sections on the header. -/
inductive LayoutEvent
  /-- The first LAYOUTGET has to select a stateid before it begins. -/
  | updateLayout
  | beginFirst (i : Nat)
  | grabEmptyLayout
  | layoutgetReply (i : Nat) (res : LayoutgetRes)
  | layoutgetEnd (i : Nat)
  | clearFirstLayoutget (i : Nat)
  /-- The server calls the stateid of a LAYOUTGET bad, or the layout is destroyed. -/
  | markLayoutStateidInvalid
  | getLseg (i : Nat)
  | putLseg (i : Nat)
  | setLayoutcommit (i : Nat)
  | listWriteLseg
  | blockLgets
  | unblockLgets
  | bulkRecall
  | layoutrecall (args : CbLayoutrecallargs)
  | beforePutLayoutHdr
  /-- After a wait for a LAYOUTRETURN; its callers may ask for the return with `NFS_LAYOUT_RETURN_REQUESTED`. -/
  | returnLayout (requested : Bool)
  | markLayoutForReturn (range : LayoutRange)
  | ioSetFailed (iomode : U32)
  | returnUnused (range : LayoutRange)
  | roc (skipRead : Bool)
  | layoutreturnOldStateid (i : Nat)
  | layoutreturnDone (i : Nat) (stateid : Option Stateid)
  | layoutreturnRetryLater (i : Nat)
  | layoutreturnUnsent (i : Nat)
deriving DecidableEq

namespace LayoutSys
variable (s : LayoutSys)

/-- `pnfs_prepare_layoutreturn` and `pnfs_send_layoutreturn`, which returns the whole file. -/
def sendLayoutreturn (lo : LayoutHdr) (iomode : Option U32) : LayoutSys :=
  match lo.pnfsPrepareLayoutreturn with
  | some (stateid, plhIomode, lo) =>
    { s with lo := lo, returns := s.returns ++ [⟨stateid, { iomode := iomode.getD plhIomode }⟩] }
  | none => { s with lo := lo }

def putGet (i : Nat) (call : LayoutgetCall) : List LayoutgetCall :=
  if call.first || call.begun then s.gets.set i call else s.gets.eraseIdx i

def updateLayout : Option LayoutSys :=
  let lo := s.lo
  if lo.bulkRecall || (lo.drain && decide (lo.outstanding ≠ 0)) || lo.layoutReturn then none
  else if lo.invalidStid then
    if lo.firstLayoutget then none
    else some { s with lo := { lo with firstLayoutget := true }, gets := s.gets ++ [⟨true, false, false⟩] }
  else if lo.pnfsLayoutgetsBlocked then none
  else some { s with lo := { lo with outstanding := lo.outstanding + 1 }, gets := s.gets ++ [⟨false, true, false⟩] }

def grabEmptyLayout : Option LayoutSys :=
  let lo := s.lo
  if !lo.invalidStid || lo.layoutReturn || lo.pnfsLayoutgetsBlocked || lo.firstLayoutget then none
  else some
    { s with
      lo := { lo with firstLayoutget := true, outstanding := lo.outstanding + 1 }
      gets := s.gets ++ [⟨true, true, false⟩] }

def withLseg (i : Nat) (f : List Lseg → Lseg → List Lseg → LayoutHdr) : Option LayoutSys :=
  (s.lo.segs[i]?).map fun lseg => { s with lo := f (s.lo.segs.take i) lseg (s.lo.segs.drop (i + 1)) }

def step (ld : LayoutDriver) (s : LayoutSys) : LayoutEvent → Option LayoutSys
  | .updateLayout => s.updateLayout
  | .beginFirst i =>
    (s.gets[i]?).bind fun call =>
      if !call.first || call.begun || call.replied || s.lo.pnfsLayoutgetsBlocked then none
      else some
        { s with lo := { s.lo with outstanding := s.lo.outstanding + 1 }, gets := s.putGet i { call with begun := true } }
  | .grabEmptyLayout => s.grabEmptyLayout
  | .layoutgetReply i res =>
    (s.gets[i]?).bind fun call =>
      if call.begun && !call.replied then
        some { s with lo := (s.lo.pnfsLayoutProcess ld res).2, gets := s.putGet i { call with replied := true } }
      else none
  | .layoutgetEnd i =>
    (s.gets[i]?).bind fun call =>
      if call.begun then
        let outstanding := s.lo.outstanding - 1
        some
          { s with
            lo := { s.lo with outstanding := outstanding, drain := s.lo.drain && decide (outstanding ≠ 0) }
            gets := s.putGet i { call with begun := false, replied := true } }
      else none
  | .clearFirstLayoutget i =>
    (s.gets[i]?).bind fun call =>
      if call.first then
        some { s with lo := { s.lo with firstLayoutget := false }, gets := s.putGet i { call with first := false } }
      else none
  | .markLayoutStateidInvalid => some { s with lo := s.lo.pnfsMarkLayoutStateidInvalid.2 }
  | .getLseg i => s.withLseg i fun before lseg after =>
    { s.lo with segs := before ++ { lseg with refcount := lseg.refcount + 1 } :: after }
  | .putLseg i => s.withLseg i s.lo.putLseg
  | .setLayoutcommit i => s.withLseg i fun before lseg after =>
    if lseg.layoutcommit then { s.lo with inoLayoutcommit := true }
    else
      { s.lo with
        inoLayoutcommit := true
        segs := before ++ { lseg with layoutcommit := true, refcount := lseg.refcount + 1 } :: after }
  | .listWriteLseg =>
    if s.lo.inoLayoutcommit then
      some
        { s with
          lo :=
            { s.lo with
              inoLayoutcommit := false
              segs := s.lo.segs.map fun lseg =>
                { lseg with layoutcommit := lseg.layoutcommit && decide (lseg.range.iomode ≠ Iomode.rw) } } }
    else none
  | .blockLgets => some { s with lo := { s.lo with blockLgets := s.lo.blockLgets + 1 } }
  | .unblockLgets => some { s with lo := { s.lo with blockLgets := s.lo.blockLgets - 1 } }
  | .bulkRecall =>
    let (left, lo) := s.lo.pnfsMarkLayoutStateidInvalid
    some { s with lo := { lo with bulkRecall := lo.bulkRecall || left } }
  | .layoutrecall args => some { s with lo := (s.lo.initiateFileDraining args).2 }
  | .beforePutLayoutHdr =>
    let (needed, lo) := s.lo.pnfsLayoutNeedReturn
    some (if needed then s.sendLayoutreturn lo none else { s with lo := lo })
  | .returnLayout requested =>
    let lo := { s.lo with returnRequested := s.lo.returnRequested || requested }
    let valid := lo.pnfsLayoutIsValid
    let lo := (lo.pnfsClearLayoutcommit.pnfsMarkMatchingLsegsReturn false { iomode := Iomode.any } 0).2
    some (if lo.returnRequested && valid then s.sendLayoutreturn lo (some Iomode.any) else { s with lo := lo })
  | .markLayoutForReturn range =>
    if !s.lo.pnfsLayoutIsValid then none
    else
      let (status, lo) := (s.lo.pnfsSetPlhReturnInfo range.iomode 0).pnfsMarkMatchingLsegsReturn true range 0
      some (if status ≠ negErrno .ebusy then s.sendLayoutreturn lo none else { s with lo := lo })
  | .ioSetFailed iomode => some { s with lo := (s.lo.pnfsMarkMatchingLsegsReturn false { iomode } 0).2 }
  | .returnUnused range =>
    if !s.lo.pnfsLayoutIsValid || s.lo.layoutReturn || s.lo.returnRequested then none
    else
      let (status, lo) := (s.lo.pnfsSetPlhReturnInfo range.iomode 0).pnfsMarkMatchingLsegsReturn true range 0
      some (if status = 0 then s.sendLayoutreturn lo none else { s with lo := lo })
  | .roc skipRead =>
    if !s.lo.pnfsLayoutIsValid || s.lo.bulkRecall || s.lo.returnLock then none
    else
      let lo := s.lo.pnfsRoc skipRead
      some (if lo.returnRequested then s.sendLayoutreturn lo none else { s with lo := lo })
  | .layoutreturnOldStateid i =>
    (s.returns[i]?).bind fun args =>
      match s.lo.nfs4LayoutRefreshOldStateid args with
      | (some args, lo) => some { s with lo := lo, returns := s.returns.set i args }
      | (none, lo) => some { s with lo := lo }
  | .layoutreturnDone i stateid =>
    (s.returns[i]?).map fun args =>
      { s with lo := s.lo.pnfsLayoutreturnFreeLsegs args stateid, returns := s.returns.eraseIdx i }
  | .layoutreturnRetryLater i =>
    (s.returns[i]?).map fun args =>
      { s with lo := s.lo.pnfsLayoutreturnRetryLater args, returns := s.returns.eraseIdx i }
  | .layoutreturnUnsent i =>
    (s.returns[i]?).map fun _ => { s with lo := s.lo.pnfsClearLayoutreturnWaitbit, returns := s.returns.eraseIdx i }

end LayoutSys

end Mynfs
