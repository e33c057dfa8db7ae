import Mathlib.Logic.Function.Basic
import Mynfs.Lib.Run
import Mynfs.Nfs4

/-! Upcalls of the legacy id mapper (nfs4idmap.c), one task at a time; downcalls and ends of messages come from others. -/

namespace Mynfs

/-- What happened to one request. -/
structure UpcallLog where
  started : Bool := false
  completed : List Int := []
  keyGets : Nat := 0
  keyPuts : Nat := 0
  allocs : Nat := 0
  frees : Nat := 0
deriving DecidableEq

/-- The state of `struct idmap` and its pipe. -/
structure IdmapPipe where
  log : Nat → UpcallLog := fun _ => {}
  upcallData : Option Nat := none
  running : Option Nat := none
  queued : List Nat := []

/-- Steps of the upcall and of user space. -/
inductive IdmapEvent
  /-- `nfs_idmap_legacy_upcall` up to `rpc_queue_upcall`, with the result of `nfs_idmap_prepare_message`. -/
  | upcall (i : Nat) (aux alloc : Bool) (prepare : Int)
  | queueUpcall (ret : Int)
  /-- With what the checks of the answer give. -/
  | downcall (ret : Int)
  | releasePipe
  | destroyMsg (i : Nat) (errno : Int)

def UpcallLog.complete (l : UpcallLog) (ret : Int) : UpcallLog := { l with completed := l.completed ++ [ret] }

/-- The data of a request with a reference on its authkey. -/
def UpcallLog.acquired : UpcallLog := { started := true, keyGets := 1, allocs := 1 }

namespace IdmapPipe
variable (s : IdmapPipe)

def setLog (i : Nat) (l : UpcallLog) : IdmapPipe := { s with log := Function.update s.log i l }

def nfsIdmapCompletePipeUpcall (i : Nat) (ret : Int) : IdmapPipe :=
  s.setLog i { (s.log i).complete ret with keyPuts := (s.log i).keyPuts + 1, frees := (s.log i).frees + 1 }

/-- `xchg` of `idmap_upcall_data` with `NULL`, and the completion of what was there. -/
def takeUpcall (ret : Int) : IdmapPipe :=
  match s.upcallData with
  | some i => { s with upcallData := none }.nfsIdmapCompletePipeUpcall i ret
  | none => s

def nfsIdmapAbortPipeUpcall (i : Nat) (ret : Int) : IdmapPipe :=
  if s.upcallData = some i then s.takeUpcall ret else s

def nfsIdmapLegacyUpcall (i : Nat) (aux alloc : Bool) (prepare : Int) : IdmapPipe :=
  if aux = false then s.setLog i (UpcallLog.complete { started := true } (negErrno .enokey))
  else if alloc = false then s.setLog i (UpcallLog.complete { started := true } (negErrno .enomem))
  else if prepare < 0 then s.setLog i { UpcallLog.acquired.complete prepare with frees := 1 }
  else if s.upcallData.isSome then s.setLog i { UpcallLog.acquired.complete (negErrno .eagain) with frees := 1 }
  else { s.setLog i UpcallLog.acquired with upcallData := some i, running := some i }

def step (s : IdmapPipe) : IdmapEvent → Option IdmapPipe
  | .upcall i aux alloc prepare =>
    if s.running = none ∧ s.log i = {} then some (s.nfsIdmapLegacyUpcall i aux alloc prepare) else none
  | .queueUpcall ret =>
    s.running.map fun i =>
      if ret < 0 then { s with running := none }.nfsIdmapAbortPipeUpcall i ret
      else { s with running := none, queued := i :: s.queued }
  | .downcall ret => some (s.takeUpcall ret)
  | .releasePipe => some (s.takeUpcall (negErrno .epipe))
  | .destroyMsg i errno =>
    if i ∈ s.queued then
      let t := { s with queued := s.queued.erase i }
      some (if errno = 0 then t else t.nfsIdmapAbortPipeUpcall i errno)
    else none

end IdmapPipe
end Mynfs
