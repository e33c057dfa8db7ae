import Mynfs.Layout.Pageio

/-! What `mypnfs_update_layout` decides before a LAYOUTGET (pnfs.c): whether to send one, and for which range. -/

namespace Mynfs

/-- `struct nfs4_threshold`: `bm` tells which of the limits the server sent. -/
structure Nfs4Threshold where
  bm : U32 := 0
  rdSz : U64 := 0
  wrSz : U64 := 0
  rdIoSz : U64 := 0
  wrIoSz : U64 := 0

def thresholdRd : U32 := 1
def thresholdWr : U32 := 2
def thresholdRdIo : U32 := 4
def thresholdWrIo : U32 := 8

/-- The size of the file, and the bytes read and written since there are layout segments. -/
structure IoSizes where
  fsize : U64
  readIo : U64
  writeIo : U64

/-- Whether hints were sent, and whether one is not reached. -/
structure HintFlags where
  set : Bool := false
  unmet : Bool := false

namespace Nfs4Threshold
variable (t : Nfs4Threshold)

def hint (bit : U32) (limit value : U64) : HintFlags :=
  if t.bm &&& bit ≠ 0 then { set := true, unmet := decide (value < limit) } else {}

def hints (io : IoSizes) (iomode : U32) : HintFlags × HintFlags :=
  if iomode = Iomode.read then (t.hint thresholdRd t.rdSz io.fsize, t.hint thresholdRdIo t.rdIoSz io.readIo)
  else if iomode = Iomode.rw then (t.hint thresholdWr t.wrSz io.fsize, t.hint thresholdWrIo t.wrIoSz io.writeIo)
  else ({}, {})

end Nfs4Threshold

/-- True means to use the MDS. -/
def pnfsWithinMdsthreshold (t : Option Nfs4Threshold) (io : IoSizes) (iomode : U32) : Bool :=
  match t with
  | none => false
  | some t =>
    let (size, io) := t.hints io iomode
    if size.set && io.set then size.unmet && io.unmet else size.unmet || io.unmet

def pageOffsetMask (shift : Nat) : U64 := ((1 : U64) <<< shift) - 1

def pageAlign (shift : Nat) (x : U64) : U64 := (x + pageOffsetMask shift) &&& ~~~(pageOffsetMask shift)

/-- The range of the LAYOUTGET that `mypnfs_update_layout` sends for an I/O. -/
def layoutgetRange (shift : Nat) (iomode : U32) (pos count : U64) : LayoutRange :=
  let pgOffset : U32 := (pos &&& pageOffsetMask shift).setWidth 32
  let arg : LayoutRange :=
    if pgOffset ≠ 0 then ⟨iomode, pos - pgOffset.setWidth 64, count + pgOffset.setWidth 64⟩ else ⟨iomode, pos, count⟩
  if arg.length ≠ nfs4MaxUint64 then { arg with length := pageAlign shift arg.length } else arg

def mynfsDreqBytesLeft (ioStart maxCount offset : U64) : U64 := maxCount - (offset - ioStart)

/-- `rd_size` in `mypnfs_generic_pg_init_read`; `dreq` holds the start and the `max_count` of a direct read. -/
def genericPgInitReadSize (isize : U64) (dreq : Option (U64 × U64)) (reqOffset : U64) : U64 :=
  match dreq with
  | none => isize - reqOffset
  | some (ioStart, maxCount) => mynfsDreqBytesLeft ioStart maxCount reqOffset

end Mynfs
