import Mynfs.Nfs4xdr

/-! Byte ranges of locks on the wire (nfs4xdr.c): LOCK, LOCKT, LOCKU, and the lock that a denied call reports. -/

namespace Mynfs
open Xdr

/-- `fl_type`. -/
inductive FlType
  | rdlck
  | wrlck
deriving DecidableEq

/-- `struct file_lock`. A `loff_t` is a word that is read as a signed number. -/
structure RangeLock where
  flStart : U64
  flEnd : U64
  flType : FlType := .wrlck
  flPid : U32 := 0

/-- `OFFSET_MAX` -/
def offsetMax : U64 := 0x7fffffffffffffff

namespace RangeLock
variable (fl : RangeLock)

def nfs4LockType (block : Bool) : U32 :=
  if fl.flType = .rdlck then if block then 3 else 1
  else if block then 4 else 2

def nfs4LockLength : U64 :=
  if fl.flEnd = offsetMax then BitVec.allOnes 64 else fl.flEnd - fl.flStart + 1

end RangeLock

/-- `struct nfs_lowner`. -/
structure Lowner where
  clientid : U64
  sDev : U32
  id : U64

/-- The bytes of `"lock id:"`. -/
def lockId : List Byte := [0x6c, 0x6f, 0x63, 0x6b, 0x20, 0x69, 0x64, 0x3a]

def encodeLockowner (lowner : Lowner) : List Byte :=
  bytes64 lowner.clientid ++ (bytes32 20 ++ (lockId ++ (bytes32 lowner.sDev ++ bytes64 lowner.id)))

def encodeNfs4Seqid (seqid : Option U32) : List Byte := bytes32 (seqid.getD 0)

abbrev StateidData := Vector Byte 16

/-- What follows the range of a LOCK, with `new_lock_owner` set or not. -/
inductive Locker
  | new (openSeqid : Option U32) (openStateid : StateidData) (lockSeqid : Option U32) (lockOwner : Lowner)
  | old (lockStateid : StateidData) (lockSeqid : Option U32)

def Locker.encode : Locker → List Byte
  | new openSeqid openStateid lockSeqid lockOwner =>
    bytes32 1 ++ (encodeNfs4Seqid openSeqid ++ (openStateid.toList ++ (encodeNfs4Seqid lockSeqid ++ encodeLockowner lockOwner)))
  | old lockStateid lockSeqid => bytes32 0 ++ (lockStateid.toList ++ encodeNfs4Seqid lockSeqid)

/-- A call that carries the range of a lock. -/
inductive LockCall
  | lock (fl : RangeLock) (block reclaim : Bool) (locker : Locker)
  | lockt (fl : RangeLock) (lockOwner : Lowner)
  | locku (fl : RangeLock) (seqid : Option U32) (stateid : StateidData)

namespace LockCall

def fl : LockCall → RangeLock
  | lock fl .. | lockt fl _ | locku fl .. => fl

/-- `encode_lock`, `encode_lockt` and `encode_locku`. -/
def encode : LockCall → List Byte
  | lock fl block reclaim locker =>
    bytes32 12 ++ (bytes32 (fl.nfs4LockType block) ++ (bytes32 (if reclaim then 1 else 0) ++
      (bytes64 fl.flStart ++ (bytes64 fl.nfs4LockLength ++ locker.encode))))
  | lockt fl lockOwner =>
    bytes32 13 ++ (bytes32 (fl.nfs4LockType false) ++
      (bytes64 fl.flStart ++ (bytes64 fl.nfs4LockLength ++ encodeLockowner lockOwner)))
  | locku fl seqid stateid =>
    bytes32 14 ++ (bytes32 (fl.nfs4LockType false) ++ (encodeNfs4Seqid seqid ++ (stateid.toList ++
      (bytes64 fl.flStart ++ bytes64 fl.nfs4LockLength))))

end LockCall

/-- The status is `-NFS4ERR_DENIED` where no error is given here. -/
def decodeLockDenied (fl : Option RangeLock) : Decoder (Option RangeLock) := do
  let p ← inlineDecode 32 Errno.eio.code
  let offset := hyper p 0
  let length := hyper p 2
  let fl := fl.map fun fl =>
    { fl with
      flStart := offset
      flEnd := if length = BitVec.allOnes 64 then offsetMax else offset + length - 1
      flType := if word p 4 &&& 1 ≠ 0 then .rdlck else .wrlck
      flPid := 0 }
  let _ ← inlineDecode (word p 7).toNat Errno.eio.code
  pure fl

end Mynfs
