import Mynfs.Lib.Xdr
import Mynfs.Nfs4

/-! Operation headers of a COMPOUND reply (`nfs4xdr.c`). The error of a decoder is the status of the function, negated. -/

namespace Mynfs.Nfs4xdr

open Xdr

/-- The protocol errors with a Linux error of their own. -/
def nfsErrtbl : List (Int × Nat) :=
  [(0, 0), (1, 1), (2, 2), (5, 5), (6, 6), (13, 13), (17, 17), (18, 18), (20, 20), (21, 21), (22, 22), (27, 27),
   (28, 28), (30, 30), (31, 31), (63, 36), (66, 39), (69, 122), (70, 116), (10001, 521), (10003, 523), (10004, 524),
   (10005, 525), (10006, 121), (10007, 527), (10012, 11), (10029, 40), (10044, 95), (10045, 35), (10095, 61),
   (10096, 7)]

def nfs4StatToErrno (stat : Int) : Nat :=
  match nfsErrtbl.lookup stat with
  | some errno => errno
  | none =>
    -- the server is looney tunes
    if stat ≤ 10000 ∨ stat > 10100 then Errno.eremoteio.code
    else stat.toNat

def decodeOpHdr (expected : U32) : Decoder Unit := do
  let p ← inlineDecode 8 Errno.eio.code
  require (word p 0 == expected) Errno.eremoteio.code
  require (word p 1 == 0) (nfs4StatToErrno (word p 1).toInt)

/-- What the server puts in front of the result of a successful operation. -/
def opHdr (op : U32) : List Byte := bytes32 op ++ bytes32 0

theorem decodeOpHdr_opHdr (op : U32) (rest : List Byte) : decodeOpHdr op (opHdr op ++ rest) = .ok ((), rest) := by
  have hdecode : inlineDecode 8 Errno.eio.code (opHdr op ++ rest) = .ok (opHdr op ++ rest, rest) :=
    inlineDecode_append rfl
  have hop : word (opHdr op ++ rest) 0 = op := by
    rw [opHdr, List.append_assoc]
    exact be32_bytes32 op _
  have hstat : word (opHdr op ++ rest) 1 = 0 := by
    rw [opHdr, List.append_assoc]
    exact word_append rfl
  simp [decodeOpHdr, bind, StateT.bind, Except.bind, hdecode, hop, hstat, require]

end Mynfs.Nfs4xdr
