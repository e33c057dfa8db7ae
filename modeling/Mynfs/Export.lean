import Mynfs.Callback.Xdr

/-! File handles of a re-exported mount (export.c), in little-endian words. Memory is a map from byte addresses. -/

namespace Mynfs
open Xdr

namespace Fid

section
variable (m : Nat → Byte)

def store32 (i : Nat) (w : U32) : Nat → Byte := fun a =>
  if a / 4 = i then w.extractLsb' (8 * (a % 4)) 8 else m a

def load32 (i : Nat) : U32 := m (4 * i + 3) ++ m (4 * i + 2) ++ m (4 * i + 1) ++ m (4 * i)

/-- Where `nfs_exp_embedfh` has the two members of the embedded handle. -/
def sizeOff : Nat := 12
def dataOff : Nat := 14

/-- `nfs_copy_fh` into the embedded handle. -/
def storeFh (fh : NfsFh) : Nat → Byte := fun a =>
  if a = sizeOff then fh.size.extractLsb' 0 8
  else if a = sizeOff + 1 then fh.size.extractLsb' 8 8
  else if dataOff ≤ a ∧ a < dataOff + fh.size.toNat then fh.data.getD (a - dataOff) 0
  else m a

def loadSize : BitVec 16 := m (sizeOff + 1) ++ m sizeOff

def loadFh : NfsFh :=
  ⟨loadSize m, (List.range (loadSize m).toNat).map fun i => m (dataOff + i)⟩

end

/-- `FILEID_INVALID` -/
def invalid : Int := 0xff

end Fid

def sIfmt : BitVec 16 := 0xF000

/-- What goes into a handle. -/
structure ExportInode where
  fileid : U64
  mode : BitVec 16
  fh : NfsFh

/-- `EMBED_FH_OFF + XDR_QUADLEN(fh_size)` for a handle of `size` bytes -/
def embedLen (size : BitVec 16) : Int := 3 + ((2 + size.toNat + 3) / 4 : Nat)

/-- What `nfs_encode_fh` returns and writes. -/
structure EncodedFh where
  type : Int
  maxLen : Int
  mem : Nat → Byte

def nfsEncodeFh (inode : ExportInode) (m : Nat → Byte) (maxLen : Int) : EncodedFh :=
  let len := embedLen inode.fh.size
  if maxLen < len then ⟨Fid.invalid, len, m⟩
  else
    let m := Fid.store32 m 0 (inode.fileid >>> 32 |>.setWidth 32)
    let m := Fid.store32 m 1 (inode.fileid.setWidth 32)
    let m := Fid.store32 m 2 ((inode.mode &&& sIfmt).setWidth 32)
    let m := Fid.store32 m (len - 1).toNat 0
    ⟨len, len, Fid.storeFh m inode.fh⟩

/-- What `nfs_fh_to_dentry` gives to `nfs_ilookup`, and then to GETATTR and `nfs_fhget`. -/
structure FhLookup where
  fileid : U64
  mode : BitVec 16
  fh : NfsFh

/-- `none` is the NULL that means ESTALE. -/
def nfsFhToDentry (m : Nat → Byte) (fhLen fhType : Int) : Option FhLookup :=
  if fhLen < embedLen 0 ∨ 32 < fhLen then none
  else
    let len := embedLen (Fid.loadSize m)
    if fhLen < len ∨ fhType ≠ len then none
    else some {
      fileid := (Fid.load32 m 0).setWidth 64 <<< 32 + (Fid.load32 m 1).setWidth 64
      mode := (Fid.load32 m 2).setWidth 16
      fh := Fid.loadFh m }

end Mynfs
