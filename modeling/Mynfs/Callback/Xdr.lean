import Mynfs.Callback.Sequence
import Mynfs.Lib.Xdr
import Mynfs.Stateid

/-! Decoding of callback arguments and encoding of callback results (callback_xdr.c). -/

namespace Mynfs
open Xdr

/-- The callback operations other than CB_SEQUENCE. -/
inductive CbBodyOp
  | getattr
  | recall
  | layoutrecall
  | notifyDeviceid
  | recallAny
  | recallSlot
  | notifyLock
  | offload
deriving DecidableEq

/-- The operations of `callback_ops[]` that have handlers. -/
inductive CbOp
  | sequence
  | body (op : CbBodyOp)
deriving DecidableEq

/-- `struct nfs_fh`: the size is held in 16 bits. -/
structure NfsFh where
  size : BitVec 16
  data : List Byte
deriving DecidableEq

/-- An attribute bitmap. -/
structure Bitmap where
  word0 : U32 := 0
  word1 : U32 := 0
  word2 : U32 := 0
deriving DecidableEq

/-- `struct cb_layoutrecallargs`, by recall type. -/
inductive CbRecallTarget
  | file (fh : NfsFh) (range : LayoutRange) (stateid : Stateid)
  | fsid (major minor : U64)
  | all
deriving DecidableEq

/-- `struct cb_devicenotifyitem`. -/
structure CbDeviceNotifyItem where
  cbdNotifyType : U32
  cbdLayoutType : U32
  cbdDevId : List Byte
  cbdImmediate : U32
deriving DecidableEq

/-- The arguments of the operations, as their `decode_args` leave them in the buffer. -/
inductive CbArgs
  | getattr (fh : NfsFh) (bitmap : Bitmap)
  | recall (stateid : Stateid) (truncate : U32) (fh : NfsFh)
  | layoutrecall (layoutType layoutchanged : U32) (target : CbRecallTarget)
  | devicenotify (devs : List CbDeviceNotifyItem)
  | recallany (objsToKeep typeMask : U32)
  | recallslot (targetHighestSlotid : U32)
  | notifyLock (fh : NfsFh) (clientid : U64) (sDev : U32) (id : U64) (valid : Bool)
  /-- Without `writeverf` its place in the argument buffer keeps what an earlier operation left there. -/
  | offload (fh : NfsFh) (stateid : Stateid) (error : U32) (wrCount : U64) (writeverf : Option (U32 × List Byte))
deriving DecidableEq

/-- The outside of the decoder: allocations, what the stack and the argument buffer hold, the peer, the buffer's length. -/
structure DecodeEnv where
  canAlloc : Nat → Bool
  stack : Bitmap
  argp : Bitmap := {}
  addr : SockAddr
  bufLen : Nat

def decodeFh : Decoder NfsFh := do
  let p ← inlineDecode 4 Nfs4err.resource
  let size : BitVec 16 := (word p 0).setWidth 16
  require (size ≤ 128) Nfs4err.badhandle
  let p ← inlineDecode size.toNat Nfs4err.resource
  pure ⟨size, p.take size.toNat⟩

/-- The byte count is computed in 32 bits; words that are not announced keep their value. -/
def decodeBitmap (bitmap : Bitmap) : Decoder Bitmap := do
  let p ← inlineDecode 4 Nfs4err.resource
  let attrlen := word p 0
  let p ← inlineDecode (attrlen <<< 2).toNat Nfs4err.resource
  pure {
    word0 := if 0 < attrlen then word p 0 else bitmap.word0
    word1 := if 1 < attrlen then word p 1 else bitmap.word1
    word2 := if 2 < attrlen then word p 2 else bitmap.word2 }

def decodeStateid (type : StateidType) : Decoder Stateid := do
  let p ← inlineDecode 16 Nfs4err.resource
  pure ⟨type, word p 0, word p 1 ++ word p 2 ++ word p 3⟩

section
variable (env : DecodeEnv)

def decodeGetattrArgs : Decoder CbArgs := do
  let fh ← decodeFh
  let bitmap ← decodeBitmap env.argp
  pure (.getattr fh bitmap)

def decodeRecallArgs : Decoder CbArgs := do
  let stateid ← decodeStateid .delegation
  let p ← inlineDecode 4 Nfs4err.resource
  let fh ← decodeFh
  pure (.recall stateid (word p 0) fh)

def decodeLayoutrecallArgs : Decoder CbArgs := do
  let p ← inlineDecode 16 Nfs4err.badxdr
  let layoutType := word p 0
  let iomode := word p 1
  let layoutchanged := word p 2
  let recallType := word p 3
  if recallType = 1 then
    let fh ← decodeFh
    let p ← inlineDecode 16 Nfs4err.badxdr
    let stateid ← decodeStateid .layout
    pure (.layoutrecall layoutType layoutchanged (.file fh ⟨iomode, hyper p 0, hyper p 2⟩ stateid))
  else if recallType = 2 then
    let p ← inlineDecode 16 Nfs4err.badxdr
    pure (.layoutrecall layoutType layoutchanged (.fsid (hyper p 0) (hyper p 2)))
  else
    require (recallType = 3) Nfs4err.badxdr
    pure (.layoutrecall layoutType layoutchanged .all)

def notifyDeviceid4Change : U32 := 2
def notifyDeviceid4Delete : U32 := 4

/-- One round of `decode_devicenotify_args`; the layout type decides whether an immediate flag follows. -/
def decodeDeviceNotifyItem : Decoder CbDeviceNotifyItem := do
  let p ← inlineDecode 32 Nfs4err.badxdr
  require (word p 0 = 1) Nfs4err.inval
  let notifyType := word p 1
  require (notifyType = notifyDeviceid4Change ∨ notifyType = notifyDeviceid4Delete) Nfs4err.inval
  require (¬((notifyType = notifyDeviceid4Change ∧ word p 2 ≠ 24) ∨
    (notifyType = notifyDeviceid4Delete ∧ word p 2 ≠ 20))) Nfs4err.inval
  let layoutType := word p 3
  let devId := (p.drop 16).take 16
  if layoutType = notifyDeviceid4Change then
    let p ← inlineDecode 4 Nfs4err.badxdr
    pure ⟨notifyType, layoutType, devId, word p 0⟩
  else pure ⟨notifyType, layoutType, devId, 0⟩

def decodeDevicenotifyArgs : Decoder CbArgs := do
  let p ← inlineDecode 4 Nfs4err.badxdr
  let n := (word p 0).toNat
  if n = 0 then pure (.devicenotify [])
  else
    require (env.canAlloc n) Nfs4err.delay
    let devs ← decodeMany decodeDeviceNotifyItem n
    pure (.devicenotify devs)

def decodeSessionid : Decoder SessionId := do
  let p ← inlineDecode 16 Nfs4err.resource
  pure (word p 0 ++ word p 1 ++ word p 2 ++ word p 3)

def decodeRcList : Decoder ReferringCallList := do
  let sid ← decodeSessionid
  let p ← inlineDecode 4 Nfs4err.resource
  let nrefcalls := (word p 0).toNat
  if nrefcalls = 0 then pure ⟨sid, []⟩
  else
    require (nrefcalls ≤ env.bufLen) Nfs4err.resource
    let p ← inlineDecode (nrefcalls * 2 * 4) Nfs4err.resource
    require (env.canAlloc nrefcalls) Nfs4err.resource
    pure ⟨sid, (List.range nrefcalls).map fun i => ⟨word p (2 * i), word p (2 * i + 1)⟩⟩

def decodeCbSequenceArgs : Decoder CbSequenceArgs := do
  let sid ← decodeSessionid
  let p ← inlineDecode 20 Nfs4err.resource
  let nrclists := (word p 4).toNat
  require (nrclists = 0 || env.canAlloc nrclists) Nfs4err.resource
  let rclists ← decodeMany (decodeRcList env) nrclists
  pure ⟨env.addr, sid, word p 0, word p 1, word p 2, word p 3, rclists⟩

def decodeRecallanyArgs : Decoder CbArgs := do
  let p ← inlineDecode 4 Nfs4err.badxdr
  let bitmap ← decodeBitmap env.stack
  pure (.recallany (word p 0) bitmap.word0)

def decodeRecallslotArgs : Decoder CbArgs := do
  let p ← inlineDecode 4 Nfs4err.badxdr
  pure (.recallslot (word p 0))

def decodeNotifyLockArgs : Decoder CbArgs := do
  let fh ← decodeFh
  let p ← inlineDecode 12 Nfs4err.badxdr
  let clientid := hyper p 0
  let len := word p 2
  let p ← inlineDecode len.toNat Nfs4err.badxdr
  -- only try to decode if the length is right; skip "lock id:"
  if len = 20 then pure (.notifyLock fh clientid (word p 2) (hyper p 3) true)
  else pure (.notifyLock fh clientid 0 0 false)

/-- `decode_offload_args` with `decode_write_response`: an error comes with a count only. -/
def decodeOffloadArgs : Decoder CbArgs := do
  let fh ← decodeFh
  let stateid ← decodeStateid .invalid
  let p ← inlineDecode 4 Nfs4err.resource
  let error := word p 0
  if error = 0 then
    let _ ← inlineDecode 4 Nfs4err.resource
    let p ← inlineDecode 12 Nfs4err.resource
    let verf ← inlineDecode 8 Nfs4err.resource
    pure (.offload fh stateid error (hyper p 0) (some (word p 2, verf.take 8)))
  else
    let p ← inlineDecode 8 Nfs4err.resource
    pure (.offload fh stateid error (hyper p 0) none)

def decodeArgs : CbBodyOp → Decoder CbArgs
  | .getattr => decodeGetattrArgs env
  | .recall => decodeRecallArgs
  | .layoutrecall => decodeLayoutrecallArgs
  | .notifyDeviceid => decodeDevicenotifyArgs env
  | .recallAny => decodeRecallanyArgs env
  | .recallSlot => decodeRecallslotArgs
  | .notifyLock => decodeNotifyLockArgs
  | .offload => decodeOffloadArgs

end

def nfs4errResourceHdr : Nat := 11050

/-- `struct cb_compound_hdr_arg`, with the tag as the words it is padded to. -/
structure CbCompoundHdrArg where
  tag : List Byte := []
  minorversion : U32 := 0
  cbIdent : U32 := 0
  nops : U32 := 0

/-- The header and a status; a header with an unknown minor version is still answered. -/
def decodeCompoundHdrArg : Decoder (CbCompoundHdrArg × Nat) := do
  let p ← inlineDecode 4 Nfs4err.resource
  let taglen := (word p 0).toNat
  require (taglen ≤ 512) Nfs4err.resource
  let p ← inlineDecode taglen Nfs4err.resource
  let tag := p.take taglen
  let p ← inlineDecode 12 Nfs4err.resource
  let minorversion := word p 0
  -- NFS4_MAX_MINOR_VERSION
  if minorversion ≤ 2 then pure (⟨tag, minorversion, word p 1, word p 2⟩, Nfs4err.ok)
  else pure ({ tag := tag, minorversion := minorversion }, Nfs4err.minorVersMismatch)

def decodeOpHdr : Decoder U32 := do
  let p ← inlineDecode 4 nfs4errResourceHdr
  pure (word p 0)

/-- `struct timespec64`. -/
structure Timespec where
  tvSec : U64 := 0
  tvNsec : U32 := 0
deriving DecidableEq

/-- `struct cb_getattrres`. -/
structure CbGetattrRes where
  status : Nat := 0
  bitmap : Bitmap := {}
  size : U64 := 0
  changeAttr : U64 := 0
  atime : Timespec := {}
  ctime : Timespec := {}
  mtime : Timespec := {}

def encodeWords (ws : List U32) (err : Nat) (out : Out) : Out × Nat :=
  match out.put ws with
  | some out => (out, 0)
  | none => (out, err)

def andThen (r : Out × Nat) (f : Out → Out × Nat) : Out × Nat := if r.2 = 0 then f r.1 else r

def hyperWords (x : U64) : List U32 := [(x >>> 32).setWidth 32, x.setWidth 32]

def encodeString (str : List Byte) (out : Out) : Out × Nat :=
  encodeWords (BitVec.ofNat 32 str.length :: (List.range (padded str.length / 4)).map (word str)) Nfs4err.resource out

def encodeAttrHyper (word bit : U32) (x : U64) (out : Out) : Out × Nat :=
  if word &&& bit = 0 then (out, 0) else encodeWords (hyperWords x) Nfs4err.resource out

def encodeAttrTime (word bit : U32) (time : Timespec) (out : Out) : Out × Nat :=
  if word &&& bit = 0 then (out, 0) else encodeWords (hyperWords time.tvSec ++ [time.tvNsec]) Nfs4err.resource out

/-- The length word is stored once all attributes are written. -/
def encodeGetattrRes (res : CbGetattrRes) (out : Out) : Out × Nat :=
  if res.status ≠ 0 then (out, res.status)
  else
    let r := encodeWords [3, res.bitmap.word0, res.bitmap.word1, res.bitmap.word2] Nfs4err.resource out
    let r := andThen r (encodeWords [0] Nfs4err.resource)
    let start := r.1.words.length
    let r := andThen r (encodeAttrHyper res.bitmap.word0 (1 <<< 3) res.changeAttr)
    let r := andThen r (encodeAttrHyper res.bitmap.word0 (1 <<< 4) res.size)
    let r := andThen r (encodeAttrTime res.bitmap.word1 (1 <<< 15) res.atime)
    let r := andThen r (encodeAttrTime res.bitmap.word1 (1 <<< 20) res.ctime)
    let r := andThen r (encodeAttrTime res.bitmap.word1 (1 <<< 21) res.mtime)
    let r := andThen r (encodeAttrTime res.bitmap.word2 (1 <<< 20) res.atime)
    andThen r fun out =>
      let (out, status) := encodeAttrTime res.bitmap.word2 (1 <<< 21) res.mtime out
      let len : U32 := BitVec.ofNat 32 (4 * (out.words.length - start))
      ({ out with words := out.words.set (start - 1) len }, status)

def encodeCbSequenceRes (res : CbSequenceRes) (out : Out) : Out × Nat :=
  if res.csrStatus ≠ 0 then (out, res.csrStatus)
  else
    let sid := res.csrSessionid
    let r := encodeWords [(sid >>> 96).setWidth 32, (sid >>> 64).setWidth 32, (sid >>> 32).setWidth 32, sid.setWidth 32]
      Nfs4err.resource out
    andThen r (encodeWords [res.csrSequenceid, res.csrSlotid, res.csrHighestslotid, res.csrTargetHighestslotid]
      Nfs4err.resource)

def encodeOpHdr (op : U32) (status : Nat) (out : Out) : Out × Nat :=
  encodeWords [op, BitVec.ofNat 32 status] nfs4errResourceHdr out

end Mynfs
