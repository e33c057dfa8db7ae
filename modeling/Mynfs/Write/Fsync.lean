import Mynfs.Lib.Run
import Mynfs.Write.Commit

/-! Writers, tasks that commit, and one that calls `mynfs_file_fsync` (write.c, file.c). A step is what no other task
    interrupts. The commit in `pnfs_sync_inode` is one of the other tasks. -/

namespace Mynfs

/-- Steps of writers, of tasks that commit, and of the call. -/
inductive WriteEvent (shift : Nat)
  | newRequest (page : NfsPage shift)
  /-- A writer in `nfs_lock_and_join_requests` gets the lock; gives up; or takes the request off its list, marked dirty. -/
  | lock (i : Nat)
  | unlock (i : Nat)
  | join (i : Nat)
  | flush (i : Nat)
  | writeDone (i : Nat) (how : WriteEnd)
  | commitInode (c : Nat) (mayWait : Bool)
  | scan (c : Nat) (got : List Nat)
  | genericCommitList (c : Nat) (alloc : Bool)
  | allocDsCommits (c : Nat) (alloc valid : Bool)
  | initiateCommit (c k : Nat)
  | initiated (c : Nat)
  | commitEnd (c : Nat)
  | waitOnCommit (c : Nat) (killed : Bool)
  | commitDone (k : Nat) (status : Int) (verf : WriteVerf)
  | commitReleasePage (i : Nat)
  | commitRelease (k : Nat)
  | takeWbErr
  | fsync (start stop : Nat)
  /-- `file_write_and_wait_range` ends; the result apart from the recorded error. -/
  | writeAndWait (ret : Int)
  | checkWbErr
  | syncInode (ret : Int)
  | compare

namespace WriteInode
variable {shift : Nat} (s : WriteInode shift)

def onReq (i : Nat) (f : WriteReq shift → Option (WriteInode shift)) : Option (WriteInode shift) := s.reqs[i]?.bind f

def onCommitter (c : Nat) (f : Committer → Option (WriteInode shift)) : Option (WriteInode shift) := s.committers[c]?.bind f

def Fits : WriteEnd → Prop
  | .reply _ (some ds) => s.HasBucket ds.bucket
  | _ => True

instance (how : WriteEnd) : Decidable (s.Fits how) :=
  match how with
  | .reply _ (some ds) => inferInstanceAs (Decidable (s.HasBucket ds.bucket))
  | .reply _ none | .redirty | .fail _ => inferInstanceAs (Decidable True)

def step : WriteEvent shift → Option (WriteInode shift)
  | .newRequest page => some { s with reqs := s.reqs ++ [{ page := page }] }
  | .lock i => s.onReq i fun r => if r.listed ∧ r.locked = false then some (s.putReq i { r with locked := true }) else none
  | .unlock i => s.onReq i fun r => if r.locked then some (s.putReq i { r with locked := false }) else none
  | .join i =>
    s.onReq i fun r => if r.locked then some (s.putReq i { r with locked := false, place := .dirty }) else none
  | .flush i => s.onReq i fun r => if r.place = .dirty then some (s.putReq i { r with place := .writeback }) else none
  | .writeDone i how =>
    s.onReq i fun r => if r.place = .writeback ∧ s.Fits how then some (s.writeDone i r how) else none
  | .commitInode c mayWait =>
    s.onCommitter c fun m =>
      if c ≠ 0 ∧ m.pc = .idle then some ({ s with rpcsOut := s.rpcsOut + 1 }.setPc c ⟨mayWait, .idle⟩ .scan) else none
  | .scan c got =>
    s.onCommitter c fun m =>
      if m.pc = .scan ∧ s.Scans got then
        some ((s.scan c got).setPc c m (if got.length = 0 then .finish 0 else .generic got.length))
      else none
  | .genericCommitList c alloc =>
    s.onCommitter c fun m =>
      match m.pc with
      | .generic nscan => some (s.nfsGenericCommitList c m nscan alloc)
      | _ => none
  | .allocDsCommits c alloc valid =>
    s.onCommitter c fun m =>
      match m.pc with
      | .buckets nscan array idx => some (s.pnfsBucketAllocDsCommits c m nscan array idx alloc valid)
      | _ => none
  | .initiateCommit c k =>
    s.onCommitter c fun m =>
      match m.pc with
      | .initiate _ =>
        if s.data[k]? = some ⟨c, .built⟩ then
          some { s with data := s.data.set k ⟨c, .sent⟩, rpcsOut := s.rpcsOut + 1 }
        else none
      | _ => none
  | .initiated c =>
    s.onCommitter c fun m =>
      match m.pc with
      | .initiate nscan => if ⟨c, .built⟩ ∈ s.data then none else some (s.setPc c m (nextScan nscan))
      | _ => none
  | .commitEnd c =>
    s.onCommitter c fun m =>
      match m.pc with
      | .finish ret => some (s.commitEnd c m ret)
      | _ => none
  | .waitOnCommit c killed =>
    s.onCommitter c fun m =>
      if m.pc = .wait then
        if killed then some (s.commitReturn c m (negErrno .erestartsys))
        else if s.rpcsOut = 0 then some (s.commitReturn c m 0)
        else none
      else none
  | .commitDone k status verf =>
    s.data[k]?.bind fun d =>
      if d.phase = .sent then some { s with data := s.data.set k { d with phase := .replied status verf } } else none
  | .commitReleasePage i =>
    s.onReq i fun r =>
      match r.place with
      | .pages k =>
        s.data[k]?.bind fun d =>
          match d.phase with
          | .replied status verf => some (s.commitReleasePage i r status verf)
          | _ => none
      | _ => none
  | .commitRelease k =>
    s.data[k]?.bind fun d =>
      match d.phase with
      | .replied .. =>
        if s.occupied (.pages k) then none
        else some { s with data := s.data.set k { d with phase := .released }, rpcsOut := s.rpcsOut - 1 }
      | _ => none
  | .takeWbErr => some { s with wbErr := 0 }
  | .fsync start stop =>
    if s.fsync.phase.running then none
    else some (s.fsyncLoop { start := start, stop := stop })
  | .writeAndWait ret =>
    if s.fsync.phase = .writeAndWait ∧ s.reqs.all (!·.awaited) then
      some (s.checkWbErr ret fun s =>
        -- `nfs_commit_inode` with `FLUSH_SYNC`
        ({ s with rpcsOut := s.rpcsOut + 1 }.setPc 0 ⟨true, .idle⟩ .scan).setPhase .commit)
    else none
  | .checkWbErr =>
    match s.fsync.phase with
    | .check ret => some (s.checkWbErr ret fun s => s.setPhase .sync)
    | _ => none
  | .syncInode ret =>
    if s.fsync.phase = .sync then some (s.setPhase (if ret ≠ 0 then .returned ret else .compare)) else none
  | .compare =>
    if s.fsync.phase = .compare then
      some (if s.redirtied = s.fsync.saved then s.setPhase (.returned 0) else s.fsyncLoop s.fsync)
    else none

/-- With a number of tasks besides the one that calls `mynfs_file_fsync`. -/
def init (shift : Nat) (arrays : List Nat) (n : Nat) : WriteInode shift where
  arrays := arrays
  committers := ⟨true, .idle⟩ :: List.replicate n ⟨false, .idle⟩

end WriteInode

end Mynfs
