import Mynfs.Stateid
import Mathlib.Logic.Function.Basic

/-! Asynchronous COPY (nfs42proc.c, callback_proc.c). Copy states are shared, so they are addresses of a memory. -/

namespace Mynfs

open Function

abbrev CopyId := Nat

abbrev ServerId := Nat

/-- `struct nfs4_copy_state`. -/
structure CopyState where
  stateid : Stateid := {}
  completed : Bool := false
  count : U64 := 0
  verf : WriteVerf := {}
  error : U32 := 0
  /-- Set when the state of one of the files was recovered meanwhile. -/
  flags : Bool := false

/-- The lists of copies in `struct nfs_server`. -/
structure CopyServer where
  ssCopies : List CopyId := []
  ssSrcCopies : List CopyId := []

/-- What copies use of a `struct nfs_client`. No list refers to memory that was never allocated. -/
structure CopyClient where
  copy : CopyId → CopyState
  next : CopyId
  server : ServerId → CopyServer
  clSuperblocks : List ServerId
  pendingCbStateids : List CopyId
  copies_lt : ∀ sv, ∀ id ∈ (server sv).ssCopies, id < next
  pending_lt : ∀ id ∈ pendingCbStateids, id < next

namespace CopyClient
variable (clp : CopyClient)

def kzalloc : CopyClient :=
  { clp with
    copy := update clp.copy clp.next {}
    next := clp.next + 1
    copies_lt := fun sv id hid => Nat.lt_succ_of_lt (clp.copies_lt sv id hid)
    pending_lt := fun id hid => Nat.lt_succ_of_lt (clp.pending_lt id hid) }

def modify (id : CopyId) (f : CopyState → CopyState) : CopyClient :=
  { clp with copy := update clp.copy id (f (clp.copy id)) }

def addPending (id : CopyId) (h : id < clp.next) : CopyClient :=
  { clp with
    pendingCbStateids := clp.pendingCbStateids ++ [id]
    pending_lt := fun i hi => by
      rcases List.mem_append.mp hi with hi | hi
      · exact clp.pending_lt i hi
      · rwa [List.mem_singleton.mp hi] }

def delPending (id : CopyId) : CopyClient :=
  { clp with
    pendingCbStateids := clp.pendingCbStateids.erase id
    pending_lt := fun i hi => clp.pending_lt i (List.mem_of_mem_erase hi) }

def addCopy (sv : ServerId) (id : CopyId) (h : id < clp.next) : CopyClient :=
  { clp with
    server := update clp.server sv { clp.server sv with ssCopies := (clp.server sv).ssCopies ++ [id] }
    copies_lt := fun sv' i hi => by
      by_cases hsv : sv' = sv
      · subst hsv
        rw [update_self] at hi
        rcases List.mem_append.mp hi with hi | hi
        · exact clp.copies_lt sv' i hi
        · rwa [List.mem_singleton.mp hi]
      · rw [update_of_ne hsv] at hi
        exact clp.copies_lt sv' i hi }

def delCopy (sv : ServerId) (id : CopyId) : CopyClient :=
  { clp with
    server := update clp.server sv { clp.server sv with ssCopies := (clp.server sv).ssCopies.erase id }
    copies_lt := fun sv' i hi => by
      by_cases hsv : sv' = sv
      · subst hsv
        rw [update_self] at hi
        exact clp.copies_lt sv' i (List.mem_of_mem_erase hi)
      · rw [update_of_ne hsv] at hi
        exact clp.copies_lt sv' i hi }

def modifySrcCopies (sv : ServerId) (f : List CopyId → List CopyId) : CopyClient :=
  { clp with
    server := update clp.server sv { clp.server sv with ssSrcCopies := f (clp.server sv).ssSrcCopies }
    copies_lt := fun sv' i hi => by
      by_cases hsv : sv' = sv
      · subst hsv
        rw [update_self] at hi
        exact clp.copies_lt sv' i hi
      · rw [update_of_ne hsv] at hi
        exact clp.copies_lt sv' i hi }

end CopyClient

/-- `struct cb_offloadargs`, without the file handle, which only tracing reads. -/
structure CbOffloadArgs where
  coaStateid : Stateid
  error : U32
  wrCount : U64
  wrWriteverf : WriteVerf

def nfs4CopyCbArgs (args : CbOffloadArgs) (cpState : CopyState) : CopyState :=
  let cpState := { cpState with count := args.wrCount, error := args.error }
  if args.error = 0 then { cpState with verf := args.wrWriteverf } else cpState

/-- The first copy whose stateid has the same `other`, over the servers of the client. -/
def findCopy (clp : CopyClient) (other : BitVec 96) : Option CopyId :=
  (clp.clSuperblocks.flatMap fun sv => (clp.server sv).ssCopies).find? fun id => other = (clp.copy id).stateid.other

/-- `canAlloc` tells whether the allocation succeeds. -/
def nfs4CallbackOffload (canAlloc : Bool) (args : CbOffloadArgs) (clp : CopyClient) : Nat × CopyClient :=
  if canAlloc then
    match findCopy clp args.coaStateid.other with
    | some id =>
      (Nfs4err.ok, clp.kzalloc.modify id fun tmpCopy => { nfs4CopyCbArgs args tmpCopy with completed := true })
    | none =>
      let copy := clp.next
      let clp := clp.kzalloc.modify copy fun cp => nfs4CopyCbArgs args { cp with stateid := args.coaStateid }
      (Nfs4err.ok, clp.addPending copy (Nat.lt_succ_self _))
  else (Nfs4err.serverfault, clp)

/-- The stateid of the COPY reply, the servers of the two files and the stateid of the source file. -/
structure AsyncCopy where
  stateid : Stateid
  dstServer : ServerId
  srcServer : ServerId
  srcStateid : Stateid
  sameServer : Bool

/-- The status, the restart flag, `res->write_res`, and the stateids of the OFFLOAD_CANCELs sent. -/
structure AsyncCopyResult where
  status : Int
  restart : Bool
  count : U64
  verf : WriteVerf
  offloadCancel : List Stateid := []

/-- `memcmp(..., NFS4_STATEID_SIZE)`, which leaves out the type. -/
def sameStateid (a b : Stateid) : Bool := decide (a.seqid = b.seqid ∧ a.other = b.other)

/-- `handle_async_copy` returned, or it waits for the completion of the copy state. -/
inductive CopyProgress
  | returned (r : AsyncCopyResult)
  | waiting (copy : CopyId)

def copyOut (r : AsyncCopyResult) (copy : CopyState) : AsyncCopyResult :=
  { r with status := (-copy.error).toInt, count := copy.count, verf := copy.verf }

/-- `handle_async_copy` up to the wait. The result record holds what the caller's variables have before. -/
def handleAsyncCopy (canAlloc : Bool) (c : AsyncCopy) (r : AsyncCopyResult) (clp : CopyClient) : CopyProgress × CopyClient :=
  if canAlloc then
    match clp.pendingCbStateids.find? fun id => sameStateid c.stateid (clp.copy id).stateid with
    | some id => (.returned (copyOut r (clp.copy id)), clp.kzalloc.delPending id)
    | none =>
      let copy := clp.next
      let clp := clp.kzalloc.modify copy fun cp => { cp with stateid := c.stateid }
      let clp := clp.addCopy c.dstServer copy (Nat.lt_succ_self _)
      let clp := if c.dstServer ≠ c.srcServer then clp.modifySrcCopies c.srcServer (· ++ [copy]) else clp
      (.waiting copy, clp)
  else (.returned { r with status := negErrno .enomem }, clp)

def unlinkCopy (c : AsyncCopy) (copy : CopyId) (clp : CopyClient) : CopyClient :=
  let clp := clp.delCopy c.dstServer copy
  if c.dstServer ≠ c.srcServer then clp.modifySrcCopies c.srcServer (·.erase copy) else clp

/-- `handle_async_copy` from the wait on, which ends with a signal or with the completion of the copy state. -/
def handleAsyncCopyWoken (interrupted : Bool) (c : AsyncCopy) (r : AsyncCopyResult) (copy : CopyId) (clp : CopyClient) :
    Option (AsyncCopyResult × CopyClient) :=
  if interrupted || (clp.copy copy).completed then
    let clp := unlinkCopy c copy clp
    let cancel := if c.sameServer then [(clp.copy copy).stateid] else [(clp.copy copy).stateid, c.srcStateid]
    if interrupted then some ({ r with status := negErrno .erestartsys, offloadCancel := cancel }, clp)
    else if (clp.copy copy).flags || decide ((clp.copy copy).error = BitVec.ofNat 32 Nfs4err.partnerNoAuth) then
      some ({ r with status := negErrno .eagain, restart := true, offloadCancel := cancel }, clp)
    else some (copyOut r (clp.copy copy), clp)
  else none

end Mynfs
