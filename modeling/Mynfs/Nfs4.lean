import Mathlib.Data.BitVec

/-! Words, error codes and stateids of NFSv4. The client's statuses are error codes negated. -/

namespace Mynfs

abbrev U32 := BitVec 32
abbrev U64 := BitVec 64

def minU32 (x y : U32) : U32 := if x < y then x else y

namespace Nfs4err

abbrev ok : Nat := 0
abbrev inval : Nat := 22
abbrev badhandle : Nat := 10001
abbrev notsupp : Nat := 10004
abbrev serverfault : Nat := 10006
abbrev delay : Nat := 10008
abbrev resource : Nat := 10018
abbrev minorVersMismatch : Nat := 10021
abbrev oldStateid : Nat := 10024
abbrev badStateid : Nat := 10025
abbrev badxdr : Nat := 10036
abbrev opIllegal : Nat := 10044
abbrev badsession : Nat := 10052
abbrev badslot : Nat := 10053
abbrev connNotBoundToSession : Nat := 10055
abbrev nomatchingLayout : Nat := 10060
abbrev seqMisordered : Nat := 10063
abbrev sequencePos : Nat := 10064
abbrev repTooBigToCache : Nat := 10067
abbrev retryUncachedRep : Nat := 10068
abbrev opNotInSession : Nat := 10071
abbrev seqFalseRetry : Nat := 10076
abbrev badHighSlot : Nat := 10077
abbrev deadsession : Nat := 10078
abbrev partnerNoAuth : Nat := 10089

end Nfs4err

namespace Iomode

/-- Not a value of `enum pnfs_iomode`, but what `plh_return_iomode` starts with. -/
abbrev unset : U32 := 0
abbrev read : U32 := 1
abbrev rw : U32 := 2
abbrev any : U32 := 3

end Iomode

/-- `NFS4_MAX_UINT64`, which as a length means up to the end of the file. -/
def nfs4MaxUint64 : U64 := BitVec.allOnes 64

/-- `struct pnfs_layout_range`. -/
structure LayoutRange where
  iomode : U32
  offset : U64 := 0
  length : U64 := nfs4MaxUint64
deriving DecidableEq

/-- `NFS_UNSTABLE` of `enum nfs3_stable_how`; the greater levels `NFS_DATA_SYNC` and `NFS_FILE_SYNC` are stable. -/
abbrev nfsUnstable : U32 := 0

def nfsDataSync : U32 := 1

def nfsFileSync : U32 := 2

/-- `struct nfs_writeverf`. -/
structure WriteVerf where
  verifier : U64 := 0
  committed : U32 := 0
deriving DecidableEq

/-- `-NFS4ERR_...` -/
abbrev negErr (code : Nat) : Int := -(code : Int)

/-- Error numbers of the kernel. -/
inductive Errno
  | enoent
  | eintr
  | enomem
  | eacces
  | e2big
  | efbig
  | enospc
  | erofs
  | epipe
  | estale
  | edquot
  | ebusy
  | echild
  | eagain
  | etimedout
  | eremoteio
  | enokey
  | eio
  | einval
  | erange
  | erestartsys
deriving DecidableEq

def Errno.code : Errno → Nat
  | enoent => 2
  | eintr => 4
  | eio => 5
  | e2big => 7
  | echild => 10
  | eagain => 11
  | enomem => 12
  | eacces => 13
  | ebusy => 16
  | einval => 22
  | efbig => 27
  | enospc => 28
  | erofs => 30
  | epipe => 32
  | erange => 34
  | etimedout => 110
  | estale => 116
  | eremoteio => 121
  | edquot => 122
  | enokey => 126
  | erestartsys => 512

/-- `-E...` -/
abbrev negErrno (e : Errno) : Int := -(e.code : Int)

/-- A negative error as `ERR_PTR` encodes it. -/
abbrev Err := { e : Int // e < 0 }

end Mynfs
