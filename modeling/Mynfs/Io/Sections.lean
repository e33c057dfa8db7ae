import Mynfs.Lib.Run
import Mynfs.Lib.RwSem

/-! Buffered and direct I/O on one inode (io.c, internal.h, direct.c). Direct requests outlive their section. -/

namespace Mynfs

open RwSem

/-- Where a task is in io.c. -/
inductive IoPhase
  | idle
  /-- `nfs_start_io_read`: has the semaphore shared, and tests the flag. -/
  | readTest
  | readSlow
  | readBlock
  | readWait
  | readDowngrade
  | read
  | writeBlock
  | writeWait
  | write
  | directTest
  | directSlow
  | directBlock
  | directSync
  | directDowngrade
  /-- Between `nfs_start_io_direct` and `nfs_end_io_direct`, before or after `inode_dio_begin`. -/
  | direct (begun : Bool)
deriving DecidableEq

/-- What a task holds of `i_rwsem`. -/
def IoPhase.hold : IoPhase → Hold
  | .idle | .readSlow | .directSlow => .none
  | .readTest | .read | .directTest | .direct _ => .shared
  | .readBlock | .readWait | .readDowngrade | .writeBlock | .writeWait | .write | .directBlock | .directSync
  | .directDowngrade => .exclusive

/-- An inode with its tasks and direct requests. -/
structure IoInode where
  rwsem : Sem := {}
  odirect : Bool := false
  dioCount : Nat := 0
  tasks : List IoPhase
  /-- The `io_count` of the direct requests that are not complete. -/
  dreqs : List Nat := []
  /-- A buffered section has ended since `nfs_sync_mapping` was last run. Not in the source. -/
  syncPending : Bool := false

/-- The next step of a task or of a direct request. -/
inductive IoEvent
  | startRead (i : Nat)
  | startWrite (i : Nat)
  | startDirect (i : Nat)
  | endRead (i : Nat)
  | endWrite (i : Nat)
  | endDirect (i : Nat)
  | dioBegin (i : Nat)
  | getDreq (k : Nat)
  | putDreq (k : Nat)

namespace IoInode
variable (s : IoInode) (i : Nat)

def put (phase : IoPhase) : IoInode := { s with tasks := s.tasks.set i phase }

def nfsFileBlockODirect (wait next : IoPhase) : IoInode :=
  if s.odirect then { s with odirect := false }.put i wait else s.put i next

def inodeDioWait (next : IoPhase) : Option IoInode := if s.dioCount = 0 then some (s.put i next) else none

def nfsBlockBuffered (sync next : IoPhase) : IoInode :=
  if !s.odirect then { s with odirect := true }.put i sync else s.put i next

def nfsStartIoRead : IoPhase → Option IoInode
  | .idle => s.rwsem.downRead.map fun l => { s with rwsem := l }.put i .readTest
  | .readTest => some (if s.odirect then { s with rwsem := s.rwsem.upRead }.put i .readSlow else s.put i .read)
  | .readSlow => s.rwsem.downWrite.map fun l => { s with rwsem := l }.put i .readBlock
  | .readBlock => some (s.nfsFileBlockODirect i .readWait .readDowngrade)
  | .readWait => s.inodeDioWait i .readDowngrade
  | .readDowngrade => some ({ s with rwsem := s.rwsem.downgradeWrite }.put i .read)
  | _ => none

def nfsStartIoWrite : IoPhase → Option IoInode
  | .idle => s.rwsem.downWrite.map fun l => { s with rwsem := l }.put i .writeBlock
  | .writeBlock => some (s.nfsFileBlockODirect i .writeWait .write)
  | .writeWait => s.inodeDioWait i .write
  | _ => none

def nfsStartIoDirect : IoPhase → Option IoInode
  | .idle => s.rwsem.downRead.map fun l => { s with rwsem := l }.put i .directTest
  | .directTest =>
    some (if s.odirect then s.put i (.direct false) else { s with rwsem := s.rwsem.upRead }.put i .directSlow)
  | .directSlow => s.rwsem.downWrite.map fun l => { s with rwsem := l }.put i .directBlock
  | .directBlock => some (s.nfsBlockBuffered i .directSync .directDowngrade)
  | .directSync => some ({ s with syncPending := false }.put i .directDowngrade)
  | .directDowngrade => some ({ s with rwsem := s.rwsem.downgradeWrite }.put i (.direct false))
  | _ => none

def step : IoEvent → Option IoInode
  | .startRead i => s.tasks[i]?.bind (s.nfsStartIoRead i)
  | .startWrite i => s.tasks[i]?.bind (s.nfsStartIoWrite i)
  | .startDirect i => s.tasks[i]?.bind (s.nfsStartIoDirect i)
  | .endRead i =>
    if s.tasks[i]? = some .read then some ({ s with rwsem := s.rwsem.upRead, syncPending := true }.put i .idle) else none
  | .endWrite i =>
    if s.tasks[i]? = some .write then some ({ s with rwsem := s.rwsem.upWrite, syncPending := true }.put i .idle) else none
  | .endDirect i =>
    match s.tasks[i]? with
    | some (.direct _) => some ({ s with rwsem := s.rwsem.upRead }.put i .idle)
    | _ => none
  | .dioBegin i =>
    if s.tasks[i]? = some (.direct false) then
      some ({ s with dioCount := s.dioCount + 1, dreqs := s.dreqs ++ [1] }.put i (.direct true))
    else none
  | .getDreq k => (s.dreqs[k]?).map fun n => { s with dreqs := s.dreqs.set k (n + 1) }
  | .putDreq k => (s.dreqs[k]?).map fun n =>
    -- `nfs_direct_complete`
    if n - 1 = 0 then { s with dioCount := s.dioCount - 1, dreqs := s.dreqs.eraseIdx k }
    else { s with dreqs := s.dreqs.set k (n - 1) }

def init (n : Nat) : IoInode where
  tasks := List.replicate n .idle

end IoInode

end Mynfs
