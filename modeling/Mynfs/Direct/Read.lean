import Mynfs.Direct.System
import Mynfs.Read.Header

/-! Direct reads (direct.c), and what they share with direct writes. Marking pages as dirty is left out. -/

namespace Mynfs

section
variable {shift : Nat}

def DirectReq.readCompletion (dreq : DirectReq shift) (hdr : ReadHeader) : DirectReq shift :=
  if hdr.iohdrRedo then dreq
  else dreq.countIo ⟨hdr.ioStart, hdr.goodBytes, hdr.iohdrError, hdr.iohdrEof, hdr.error⟩

def PgioHeader.nfsPgioResult (hdr : PgioHeader shift) : WriteReply → PgioHeader shift
  | .error status => hdr.setPgioError status hdr.argsOffset
  | .written count verf => ((hdr.writebackDone verf).writebackResult count).1

/-- A header of direct I/O. -/
inductive DirectHeader (shift : Nat)
  | read (hdr : ReadHeader)
  | write (hdr : PgioHeader shift)

def DirectReq.completion (dreq : DirectReq shift) : DirectHeader shift → DirectReq shift
  | .read hdr => dreq.readCompletion hdr
  | .write hdr => dreq.writeCompletion hdr

end

end Mynfs
