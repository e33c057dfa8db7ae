import Mynfs.Client.Timeouts
import Mynfs.Session.Table

/-! How much one call of a mount may carry (client.c, nfs4client.c). -/

namespace Mynfs

def nfsMinFileIoSize : Nat := 1024
def nfsDefFileIoSize : Nat := 4096
def nfsMaxFileIoSize : Nat := 2 ^ 20

/-- The loop of `nfs_block_bits`. -/
def nrbits (bsize : Nat) : Nat → Nat
  | 0 => 0
  | n + 1 => if bsize.testBit (n + 1) then n + 1 else nrbits bsize n

def nfsBlockBits (bsize : Nat) : Nat := if bsize &&& (bsize - 1) ≠ 0 then 2 ^ nrbits bsize 31 else bsize

/-- How `nfs_block_size` and `nfs_io_size` begin. -/
def clampIoSize (size : Nat) : Nat :=
  if size < nfsMinFileIoSize then nfsDefFileIoSize
  else if size ≥ nfsMaxFileIoSize then nfsMaxFileIoSize
  else size

def nfsBlockSize (bsize : Nat) : Nat := nfsBlockBits (clampIoSize bsize)

def nfs42ListxattrXdrsize (buflen : Nat) : Nat := (8 * buflen / 7 + 4 + 3) / 4 * 4

/-- `struct nfs_fsinfo`. -/
structure NfsFsinfo where
  rtmax : U32
  rtpref : U32
  wtmax : U32
  wtpref : U32
  dtpref : U32

/-- The sizes in `struct nfs_server`. -/
structure ServerSizes where
  rsize : Nat
  wsize : Nat
  dtsize : Nat
  gxasize : Nat
  sxasize : Nat
  lxasize : Nat

namespace KernelConfig
variable (k : KernelConfig)

def nfsIoSize (iosize : Nat) (proto : MountTransport) : Nat :=
  let iosize := clampIoSize iosize
  if proto = .udp ∨ iosize < 2 ^ k.pageShift then nfsBlockBits iosize else iosize / 2 ^ k.pageShift * 2 ^ k.pageShift

/-- `rsize` and `wsize` as `nfs_init_server` takes them from the options. -/
def mountSize (size : U32) (proto : MountTransport) : Nat := if size ≠ 0 then k.nfsIoSize size.toNat proto else 0

/-- What `nfs_server_set_fsinfo` does to `rsize` and to `wsize`. -/
def fsinfoSize (size : Nat) (pref max : U32) (maxRpcPayload : Nat) (proto : MountTransport) : Nat :=
  let size := if size = 0 then k.nfsIoSize pref.toNat proto else size
  let size := if max.toNat ≥ 512 ∧ size > max.toNat then k.nfsIoSize max.toNat proto else size
  let size := if size > maxRpcPayload then maxRpcPayload else size
  if size > nfsMaxFileIoSize then nfsMaxFileIoSize else size

def nfsServerSetFsinfo (rsize wsize : Nat) (proto : MountTransport) (fsinfo : NfsFsinfo) (rawMaxRpcPayload : Nat) : ServerSizes :=
  let maxRpcPayload := nfsBlockSize rawMaxRpcPayload
  let rsize := k.fsinfoSize rsize fsinfo.rtpref fsinfo.rtmax maxRpcPayload proto
  let dtsize := nfsBlockSize fsinfo.dtpref.toNat
  let dtsize := if dtsize > nfsMaxFileIoSize then nfsMaxFileIoSize else dtsize
  { rsize
    wsize := k.fsinfoSize wsize fsinfo.wtpref fsinfo.wtmax maxRpcPayload proto
    dtsize := if dtsize > rsize then rsize else dtsize
    gxasize := min (rawMaxRpcPayload % 2 ^ 32) 65536
    sxasize := min (rawMaxRpcPayload % 2 ^ 32) 65536
    lxasize := min (rawMaxRpcPayload % 2 ^ 32) (nfs42ListxattrXdrsize 65536) }

end KernelConfig

/-- `nfs41_maxread_overhead` and the others, in bytes. -/
structure Overheads where
  maxread : U32
  maxwrite : U32
  maxgetxattr : U32
  maxsetxattr : U32
  maxlistxattrs : U32

/-- A size of the mount is cut to what the session has left for it, `max - overhead` as a `u32`. -/
def sessionLimit (max overhead : U32) (size : Nat) : Nat :=
  if size > (max - overhead).toNat then (max - overhead).toNat else size

namespace ServerSizes
variable (o : Overheads) (fcAttrs : ChannelAttrs) (s : ServerSizes)

def nfs4SessionLimitRwsize : ServerSizes :=
  { s with
    dtsize := sessionLimit fcAttrs.maxRespSz o.maxread s.dtsize
    rsize := sessionLimit fcAttrs.maxRespSz o.maxread s.rsize
    wsize := sessionLimit fcAttrs.maxRqstSz o.maxwrite s.wsize }

def nfs4SessionLimitXasize : ServerSizes :=
  { s with
    gxasize := sessionLimit fcAttrs.maxRespSz o.maxgetxattr s.gxasize
    sxasize := sessionLimit fcAttrs.maxRqstSz o.maxsetxattr s.sxasize
    lxasize := sessionLimit fcAttrs.maxRespSz o.maxlistxattrs s.lxasize }

end ServerSizes

end Mynfs
