import Mynfs.Lib.Serial
import Mynfs.Nfs4

/-! Stateids (nfs4_fs.h): a sequence id orders those that share the rest, `other`. -/

namespace Mynfs

/-- The types of stateids. -/
inductive StateidType
  | invalid
  | special
  | open_
  | lock
  | delegation
  | layout
  | pnfsDs
  | revoked
  | freed
deriving DecidableEq

/-- `nfs4_stateid`. -/
structure Stateid where
  type : StateidType := .invalid
  seqid : U32 := 0
  other : BitVec 96 := 0
deriving DecidableEq

namespace Stateid

def nfs4StateidMatch (dst src : Stateid) : Bool :=
  if dst.type ≠ src.type then false else decide (dst.seqid = src.seqid ∧ dst.other = src.other)

def nfs4StateidMatchOther (dst src : Stateid) : Bool := decide (dst.other = src.other)

def nfs4StateidIsNewer (s1 s2 : Stateid) : Bool := Serial.newer s1.seqid s2.seqid

/-- `s2` is the successor of `s1`, where 1 comes after the last sequence id. -/
def nfs4StateidIsNext (s1 s2 : Stateid) : Bool :=
  decide (s2.seqid = s1.seqid + 1 ∨ (s2.seqid = 1 ∧ s1.seqid = -1))

def nfs4StateidSeqidInc (s1 : Stateid) : Stateid :=
  { s1 with seqid := if s1.seqid = -1 then 1 else s1.seqid + 1 }

end Stateid

end Mynfs
