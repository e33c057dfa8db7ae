import Mynfs.Layout.Segment
import Mynfs.Lib.Run
import Mynfs.Pageio.Coalesce

/-! Page I/O under a layout segment (pnfs.c), whose end limits what joins a list. Events have the segments looked up. -/

namespace Mynfs

section
variable {shift : Nat}

def NfsPage.reqStart (req : NfsPage shift) : U64 := BitVec.ofNat 64 req.reqOffset

def Lseg.pnfsLsegRequestIntersecting (lseg : Lseg) (req : NfsPage shift) : Bool :=
  let segLast := pnfsEndOffset lseg.range.offset lseg.range.length
  let reqLast := req.reqStart + BitVec.ofNat 64 req.wbBytes
  pnfsIsRangeIntersecting lseg.range.offset segLast req.reqStart reqLast

/-- The segment that stays attached. -/
def mypnfsGenericPgCheckLayout (lseg : Option Lseg) (req : NfsPage shift) : Option Lseg :=
  match lseg with
  | some lseg => if lseg.valid && lseg.pnfsLsegRequestIntersecting req then some lseg else none
  | none => none

def nfsGenericPgTest (mirror : PgioMirror shift) (req : NfsPage shift) : Nat :=
  if mirror.pgBsize.toNat < mirror.pgCount then 0
  else if 2 ^ shift < (mirror.pgCount + req.wbBytes) / 2 ^ shift * 8 then 0
  else min (mirror.pgBsize.toNat - mirror.pgCount) req.wbBytes

def mypnfsGenericPgTest (mirror : PgioMirror shift) (lseg : Option Lseg) (req : NfsPage shift) : Nat :=
  let size := nfsGenericPgTest mirror req
  if size = 0 then 0
  else
    match lseg with
    | some lseg =>
      let segEnd := pnfsEndOffset lseg.range.offset lseg.range.length
      -- start of request is past the last byte of this segment
      if segEnd ≤ req.reqStart then 0
      else
        let segLeft := segEnd - req.reqStart
        if segLeft.toNat < size then segLeft.toNat % 2 ^ 32 else size
    | none => size

/-- A descriptor with the operations of a layout driver, or with those for the MDS once it was reset. -/
structure PnfsDescriptor (shift : Nat) where
  desc : PgioDescriptor shift
  pgLseg : Option Lseg := none
  mds : Bool := false
  /-- The requests that were sent under a segment, with its range. -/
  sent : List (LayoutRange × List (NfsPage shift)) := []

/-- What adding a request takes from elsewhere, with the answer of `mypnfs_update_layout`. -/
structure PnfsAddEnv where
  layout : Except Err (Option Lseg) := .ok none
  hasLocks : Bool := false
  softerr : Bool := false

/-- Calls on the descriptor. -/
inductive PnfsEvent (shift : Nat)
  | addRequest (env : PnfsAddEnv) (req : NfsPage shift)
  | doio
  /-- The list is spliced off, to add its requests again (`nfs_do_recoalesce`). -/
  | recoalesce
  /-- `pnfs_write_through_mds`: the same, with the operations for the MDS. -/
  | throughMds
  | invalidate
  | cleanup

namespace PnfsDescriptor
variable (s : PnfsDescriptor shift)

section
variable (env : PnfsAddEnv) (req : NfsPage shift)

/-- `mypnfs_generic_pg_init_read` and `..._write`: the descriptor and the error that is left in it. -/
def pgInit : PnfsDescriptor shift × Int :=
  if s.mds then (s, 0)
  else
    match mypnfsGenericPgCheckLayout s.pgLseg req with
    | some lseg => ({ s with pgLseg := some lseg }, 0)
    | none =>
      match env.layout with
      | .error e => ({ s with pgLseg := none }, e)
      | .ok (some lseg) => ({ s with pgLseg := some lseg }, 0)
      | .ok none => ({ s with pgLseg := none, mds := true }, 0)

def doAddRequest : PnfsDescriptor shift :=
  let first := s.desc.mirror.pgList.isEmpty
  let (s, initError) := if first then s.pgInit env req else (s, 0)
  let mirror := if first then { s.desc.mirror with pgCount := 0 } else s.desc.mirror
  let addEnv : AddEnv :=
    { initError, hasLocks := env.hasLocks, softerr := env.softerr, pgTest := mypnfsGenericPgTest mirror s.pgLseg req }
  { s with desc := (nfsPageioDoAddRequest addEnv s.desc req).2 }

end

def takeList : PnfsDescriptor shift := { s with desc := { s.desc with mirror := { s.desc.mirror with pgList := [] } } }

def step : PnfsEvent shift → Option (PnfsDescriptor shift)
  | .addRequest env req => some (s.doAddRequest env req)
  | .doio => some { s.takeList with sent := s.sent ++ s.pgLseg.toList.map fun lseg => (lseg.range, s.desc.mirror.pgList) }
  | .recoalesce => some s.takeList
  | .throughMds => some { s.takeList with pgLseg := none, mds := true }
  | .invalidate => some { s with pgLseg := s.pgLseg.map fun lseg => { lseg with valid := false } }
  | .cleanup => if s.desc.mirror.pgList = [] then some { s with pgLseg := none } else none

end PnfsDescriptor

/-- The byte at an offset belongs to the range; a length of `NFS4_MAX_UINT64` has no end. -/
def LayoutRange.Covers (range : LayoutRange) (offset : U64) : Prop :=
  range.offset ≤ offset ∧ (range.length = nfs4MaxUint64 ∨ offset.toNat < range.offset.toNat + range.length.toNat)

instance (range : LayoutRange) (offset : U64) : Decidable (range.Covers offset) := inferInstanceAs (Decidable (_ ∧ _))

end

end Mynfs
