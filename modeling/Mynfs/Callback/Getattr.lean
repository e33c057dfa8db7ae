import Mynfs.Callback.Xdr

/-! CB_GETATTR (callback_proc.c): attributes that the holder of a write delegation knows better than the server. -/

namespace Mynfs
open Xdr

abbrev fattr4Word0Change : U32 := 1 <<< 3
abbrev fattr4Word0Size : U32 := 1 <<< 4
abbrev fattr4Word1TimeAccess : U32 := 1 <<< 15
abbrev fattr4Word1TimeMetadata : U32 := 1 <<< 20
abbrev fattr4Word1TimeModify : U32 := 1 <<< 21
abbrev fattr4Word2TimeDelegAccess : U32 := 1 <<< 20
abbrev fattr4Word2TimeDelegModify : U32 := 1 <<< 21

/-- The delegation of the inode, as far as CB_GETATTR looks at it. -/
structure GetattrDelegation where
  fmodeWrite : Bool
  changeAttr : U64

/-- What CB_GETATTR reads of an inode. -/
structure GetattrInode where
  delegation : Option GetattrDelegation
  iSize : U64
  iAtime : Timespec
  iCtime : Timespec
  iMtime : Timespec
  writebacks : Bool

/-- `clp` is set if `cps->clp` is, and `inode` is what `nfs_delegation_find_inode` returns. -/
def nfs4CallbackGetattr (clp : Bool) (inode : Except Errno GetattrInode) (bitmap : Bitmap) (res : CbGetattrRes) : CbGetattrRes :=
  if !clp then { res with status := Nfs4err.opNotInSession }
  else
    let res := { res with bitmap := {}, status := Nfs4err.badhandle }
    match inode with
    | .error errno => if errno = .eagain then { res with status := Nfs4err.delay } else res
    | .ok inode =>
      match inode.delegation with
      | none => res
      | some delegation =>
        if !delegation.fmodeWrite then res
        else
          { status := 0
            size := inode.iSize
            changeAttr := if inode.writebacks then delegation.changeAttr + 1 else delegation.changeAttr
            atime := inode.iAtime
            ctime := inode.iCtime
            mtime := inode.iMtime
            bitmap :=
              { word0 := (fattr4Word0Change ||| fattr4Word0Size) &&& bitmap.word0
                word1 := (fattr4Word1TimeAccess ||| fattr4Word1TimeMetadata ||| fattr4Word1TimeModify) &&& bitmap.word1
                word2 := (fattr4Word2TimeDelegAccess ||| fattr4Word2TimeDelegModify) &&& bitmap.word2 } }

end Mynfs
