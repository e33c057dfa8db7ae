import Mynfs.Lib.Moves
import Mynfs.Nfs4xdr

/-! Replies to READ_PLUS (nfs42xdr.c): all segments are decoded, then each is moved to its place in the same buffer, the
    last one first. Bytes not received are not read. -/

namespace Mynfs

open Xdr

abbrev opReadPlus : U32 := 68

abbrev nfs4ContentData : U32 := 0
abbrev nfs4ContentHole : U32 := 1

/-- A hole, or data in the reply. -/
inductive SegmentContent
  | hole (length : U64)
  | data (length : U32) (start : U32)

/-- `struct read_plus_segment`. -/
structure ReadPlusSegment where
  offset : U64
  content : SegmentContent

def readPlusSegmentLength (seg : ReadPlusSegment) : U64 :=
  match seg.content with
  | .data length _ => length.setWidth 64
  | .hole length => length

def xdrStreamPos (total : Nat) : Decoder U32 := fun input => .ok (BitVec.ofNat 32 (total - input.length), input)

def decodeReadPlusSegment (total : Nat) : Decoder ReadPlusSegment := do
  let p ← inlineDecode 4 Errno.eio.code
  let type := word p 0
  let p ← inlineDecode (if type = nfs4ContentData then 12 else 16) Errno.eio.code
  let offset := hyper p 0
  if type = nfs4ContentData then
    let len := word p 2
    let start ← xdrStreamPos total
    -- the aligned size is passed on as an unsigned int
    let _ ← inlineDecode (padded len.toNat % 2 ^ 32) Errno.eio.code
    pure ⟨offset, .data len start⟩
  else if type = nfs4ContentHole then
    pure ⟨offset, .hole (hyper p 2)⟩
  else
    fun _ => .error Errno.einval.code

/-- The request. -/
structure ReadArgs where
  offset : U64
  count : U32

/-- `count` and `eof` of the result. -/
structure ReadRes where
  count : U32 := 0
  eof : U32 := 0

/-- What the segments are processed into. -/
structure ReadPlusState where
  res : ReadRes
  bytes : Nat → Byte

def xdrStreamZero (pos len : U32) (bytes : Nat → Byte) : U32 × (Nat → Byte) :=
  (len, Moves.fill 0 pos.toNat len.toNat bytes)

def xdrStreamMoveSubsegment (start pos len : U32) (bytes : Nat → Byte) : U32 × (Nat → Byte) :=
  (len, Moves.move start.toNat pos.toNat len.toNat bytes)

section
variable (headLen : U32) (args : ReadArgs) (seg : ReadPlusSegment)

/-- The end of `process_read_plus_segment`, and the caller's addition to `res->count`. -/
def placeReadPlusSegment (offset length : U64) (s : ReadPlusState) : ReadPlusState :=
  let bufpos : U32 := headLen + (offset - args.offset).setWidth 32
  let (n, bytes) := match seg.content with
    | .hole _ => xdrStreamZero bufpos (length.setWidth 32) s.bytes
    | .data _ start => xdrStreamMoveSubsegment start bufpos (length.setWidth 32) s.bytes
  { res := { s.res with count := s.res.count + n }, bytes }

/-- `headLen` is `head[0].iov_len`. -/
def processReadPlusSegment (s : ReadPlusState) : ReadPlusState :=
  let offset := seg.offset
  let length := readPlusSegmentLength seg
  let top := args.offset + args.count.setWidth 64
  if offset + length < args.offset then s
  else if offset > top then { s with res := { s.res with eof := 0 } }
  else if offset < args.offset then
    placeReadPlusSegment headLen args seg args.offset (length - (args.offset - offset)) s
  else if offset + length > top then
    placeReadPlusSegment headLen args seg offset (top - offset) { s with res := { s.res with eof := 0 } }
  else placeReadPlusSegment headLen args seg offset length s

end

/-- What `decode_read_plus` leaves. -/
structure ReadPlusReturn where
  status : Int
  res : ReadRes
  bytes : Nat → Byte

/-- `pos` bytes are consumed. `kmalloc` tells which segment arrays can be had; `xdr_set_pagelen` moves nothing. -/
def decodeReadPlus (kmalloc : Nat → Bool) (headLen : U32) (args : ReadArgs) (res : ReadRes) (reply : List Byte)
    (pos : Nat) : ReadPlusReturn :=
  let bytes : Nat → Byte := fun x => reply.getD x 0
  match Nfs4xdr.decodeOpHdr opReadPlus (reply.drop pos) with
  | .error err => ⟨-err, res, bytes⟩
  | .ok ((), input) =>
    match inlineDecode (4 + 4) Errno.eio.code input with
    | .error err => ⟨-err, res, bytes⟩
    | .ok (p, input) =>
      let res := { res with count := 0, eof := word p 0 }
      let segments := (word p 1).toNat
      if segments = 0 then ⟨0, res, bytes⟩
      else if !kmalloc segments then ⟨negErrno .enomem, res, bytes⟩
      else
        match decodeMany (decodeReadPlusSegment reply.length) segments input with
        | .error err => ⟨-err, res, bytes⟩
        | .ok (segs, _) =>
          let s := segs.foldr (processReadPlusSegment headLen args) ⟨res, bytes⟩
          ⟨0, s.res, s.bytes⟩

end Mynfs
