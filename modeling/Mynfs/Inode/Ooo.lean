import Mynfs.Nfs4

/-! Out-of-order change attributes (inode.c): a jump and late replies are gaps, and gaps that meet are joined. -/

namespace Mynfs

/-- An entry of `nfsi->ooo->gap[]`. -/
abbrev Gap := U64 × U64

/-- The table is the first `cnt` entries of the array. -/
structure OooInode where
  ooo : Option (List Gap)
  dataInvalDefer : Bool

/-- The change attributes in `struct nfs_fattr`. -/
structure OooFattr where
  changeAttr : U64
  preChangeAttr : U64
  /-- `NFS_ATTR_FATTR_CHANGE` and `NFS_ATTR_FATTR_PRECHANGE` are set in `valid`. -/
  validChange : Bool
  validPrechange : Bool

/-- One scan of the table: the first entry that the range meets, with the joined range. -/
def findJoin (start end_ : U64) : List Gap → Nat → Option (Nat × U64 × U64)
  | [], _ => none
  | gap :: gaps, i =>
    if end_ = gap.1 then some (i, start, gap.2)
    else if start = gap.2 then some (i, gap.1, end_)
    else findJoin start end_ gaps (i + 1)

def swapRemove (gaps : List Gap) (i : Nat) : List Gap :=
  match gaps.getLast? with
  | some last => (gaps.set i last).dropLast
  | none => []

/-- Starts over after every join, which removes an entry: the number of entries bounds the number of rounds. -/
def mergeLoop : Nat → List Gap → U64 → U64 → List Gap × U64 × U64
  | 0, gaps, start, end_ => (gaps, start, end_)
  | rounds + 1, gaps, start, end_ =>
    match findJoin start end_ gaps 0 with
    | none => (gaps, start, end_)
    | some (i, start, end_) => mergeLoop rounds (swapRemove gaps i) start end_

def oooTable (canAlloc : Bool) (nfsi : OooInode) : Option (List Gap) :=
  match nfsi.ooo with
  | some gaps => some gaps
  | none => if canAlloc then some [] else none

section
variable (size : Nat) (canAlloc : Bool) (nfsi : OooInode)

/-- An array of `size` gaps; `canAlloc` tells whether an allocation succeeds. -/
def nfsOooMerge (start end_ : U64) : OooInode :=
  if nfsi.dataInvalDefer then nfsi
  else
    match oooTable canAlloc nfsi with
    | none => { nfsi with dataInvalDefer := true }
    | some gaps =>
      let (gaps, start, end_) := mergeLoop gaps.length gaps start end_
      if start ≠ end_ then
        if size ≤ gaps.length then ⟨none, true⟩
        else { nfsi with ooo := some (gaps ++ [(start, end_)]) }
      else { nfsi with ooo := some gaps }

def nfsOooRecord (fattr : OooFattr) : OooInode :=
  if fattr.validChange && fattr.validPrechange then
    nfsOooMerge size canAlloc nfsi fattr.changeAttr fattr.preChangeAttr
  else nfsi

end

end Mynfs
