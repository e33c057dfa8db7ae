import Mynfs.Layout.System

/-! What was sent before `NFS_LAYOUT_DRAIN` or `NFS_LAYOUT_INVALID_STID` is set is stale from then on. A LAYOUTGET of an
    OPEN floats (`_lgopen_prepare_floating`) until its reply is there (`pnfs_parse_lgopen`). -/

namespace Mynfs

namespace LayoutSys
variable (s : LayoutSys)

/-- The event sets `NFS_LAYOUT_DRAIN`. -/
def drains : LayoutEvent → Bool
  | .markLayoutStateidInvalid => !s.lo.invalidStid
  | .bulkRecall => !s.lo.invalidStid
  | .layoutrecall args =>
    s.lo.accepts args && decide ((s.lo.initiateFileDraining args).1 = Nfs4err.nomatchingLayout)
  | .layoutreturnDone i stateid =>
    match s.returns[i]? with
    | some args => s.lo.stateid.nfs4StateidMatchOther args.stateid && stateid.isNone && !s.lo.invalidStid
    | none => false
  | _ => false

/-- The event sets `NFS_LAYOUT_DRAIN`, or `NFS_LAYOUT_INVALID_STID` alone as `pnfs_layout_remove_lseg` does. -/
def outdates (ld : LayoutDriver) (e : LayoutEvent) : Bool :=
  s.drains e || (!s.lo.invalidStid && (s.step ld e).any (·.lo.invalidStid))

end LayoutSys

/-- A header with its calls, and marks (not in the source) for stale LAYOUTGETs, in the order of `gets`, and floating
    ones. -/
structure LayoutDrain where
  sys : LayoutSys := {}
  stale : List Bool := []
  floating : List Bool := []
  /-- The segment of a stale LAYOUTGET was inserted. -/
  installed : Bool := false

/-- Events of the header, and floating LAYOUTGETs. -/
inductive LayoutDrainEvent
  | layout (e : LayoutEvent)
  | sendFloating
  /-- From `_pnfs_grab_empty_layout` on, a floating LAYOUTGET is one of the others. -/
  | floatingGrab (k : Nat)
  | floatingFails (k : Nat)

namespace LayoutDrain
variable (s : LayoutDrain)

/-- The marks of the LAYOUTGETs that were there before the event. -/
def outdated (ld : LayoutDriver) (e : LayoutEvent) : List Bool :=
  if s.sys.outdates ld e then List.zipWith (fun b call => b || call.begun) s.stale s.sys.gets else s.stale

/-- The marks after an event that leads to `t`. -/
def marks (ld : LayoutDriver) (t : LayoutSys) (e : LayoutEvent) : List Bool :=
  match e with
  | .updateLayout | .grabEmptyLayout => s.outdated ld e ++ [false]
  | .layoutgetReply i _ | .layoutgetEnd i | .clearFirstLayoutget i =>
    if t.gets.length < s.sys.gets.length then (s.outdated ld e).eraseIdx i else s.outdated ld e
  | _ => s.outdated ld e

/-- The event inserts the segment of a stale LAYOUTGET. -/
def installs (ld : LayoutDriver) : LayoutEvent → Bool
  | .layoutgetReply i res => s.stale.getD i false && decide ((s.sys.lo.pnfsLayoutProcess ld res).1 = 0)
  | _ => false

def step (ld : LayoutDriver) (s : LayoutDrain) : LayoutDrainEvent → Option LayoutDrain
  | .layout e =>
    (s.sys.step ld e).map fun t =>
      { sys := t
        stale := s.marks ld t e
        floating := if s.sys.outdates ld e then s.floating.map fun _ => true else s.floating
        installed := s.installed || s.installs ld e }
  | .sendFloating => some { s with floating := s.floating ++ [false] }
  | .floatingGrab k =>
    (s.floating[k]?).map fun b =>
      match s.sys.grabEmptyLayout with
      | some t => { s with sys := t, stale := s.stale ++ [b], floating := s.floating.eraseIdx k }
      | none => { s with floating := s.floating.eraseIdx k }
  | .floatingFails k => (s.floating[k]?).map fun _ => { s with floating := s.floating.eraseIdx k }

end LayoutDrain

end Mynfs
