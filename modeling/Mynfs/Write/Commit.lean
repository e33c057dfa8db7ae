import Mynfs.Direct.Request

/-! Write requests of one inode and the tasks that commit them (write.c, pnfs_nfs.c). Places stand for the lists, their
    sizes for `ncommit`, `nwritten`, `ncommitting`. -/

namespace Mynfs

/-- A bucket of a data server: the commit array that it is in, and its index there. -/
structure Bucket where
  array : Nat
  idx : Nat
deriving DecidableEq

/-- Why a request was removed. -/
inductive WriteAck
  /-- A WRITE was answered with `NFS_FILE_SYNC`. -/
  | fileSync
  /-- A WRITE to a data server was answered with `NFS_DATA_SYNC`. -/
  | dataSync
  /-- A COMMIT was answered with the verifier of the request's last WRITE. -/
  | commit
  | error
deriving DecidableEq

/-- The list that a request is on. -/
inductive WritePlace
  | dirty
  | writeback
  /-- On a commit list, of the metadata server or of a bucket (`written`). -/
  | listed (bucket : Option Bucket)
  /-- On the list `head` of a task in `__nfs_commit_inode`. -/
  | head (c : Nat)
  /-- On the list `committing` of a bucket. -/
  | committing (bucket : Bucket)
  /-- On the list `pages` of a `struct nfs_commit_data`. -/
  | pages (k : Nat)
  | removed (ack : WriteAck)
deriving DecidableEq

/-- A write request. -/
structure WriteReq (shift : Nat) where
  page : NfsPage shift
  place : WritePlace := .dirty
  /-- A writer has the lock of the request while it is on a commit list. -/
  locked : Bool := false
  /-- The running `file_write_and_wait_range` has still to see the end of its writeback. -/
  awaited : Bool := false

/-- Some byte of the request is in the range, both ends included. -/
def WriteReq.Meets {shift : Nat} (r : WriteReq shift) (start stop : Nat) : Prop :=
  r.page.reqOffset ≤ stop ∧ start < r.page.reqOffset + r.page.wbBytes

instance {shift : Nat} (r : WriteReq shift) (start stop : Nat) : Decidable (r.Meets start stop) :=
  inferInstanceAs (Decidable (_ ∧ _))

def WriteReq.listed {shift : Nat} (r : WriteReq shift) : Bool := match r.place with | .listed _ => true | _ => false

/-- Where a task is in `__nfs_commit_inode`. -/
inductive CommitPc
  | idle
  | scan
  | generic (nscan : Nat)
  | buckets (nscan : Nat) (array idx : Nat)
  | initiate (nscan : Nat)
  | finish (ret : Int)
  | wait
deriving DecidableEq

def CommitPc.active : CommitPc → Bool
  | .idle | .wait => false
  | .scan | .generic _ | .buckets .. | .initiate _ | .finish _ => true

/-- A task that commits. -/
structure Committer where
  mayWait : Bool
  pc : CommitPc := .idle

/-- What was done with a COMMIT. -/
inductive CommitDataPhase
  | built
  | sent
  | replied (status : Int) (verf : WriteVerf)
  | released
deriving DecidableEq

def CommitDataPhase.out : CommitDataPhase → Bool
  | .built | .released => false
  | .sent | .replied .. => true

/-- `struct nfs_commit_data`. -/
structure NfsCommitData where
  owner : Nat
  phase : CommitDataPhase
deriving DecidableEq

/-- Where `mynfs_file_fsync` is. -/
inductive FsyncPhase
  | idle
  | writeAndWait
  | commit
  | check (ret : Int)
  | sync
  | compare
  | returned (ret : Int)
deriving DecidableEq

def FsyncPhase.running : FsyncPhase → Bool
  | .idle | .returned _ => false
  | .writeAndWait | .commit | .check _ | .sync | .compare => true

/-- A call of `mynfs_file_fsync`. -/
structure Fsync where
  phase : FsyncPhase := .idle
  start : Nat := 0
  stop : Nat := 0
  saved : Nat := 0

/-- An inode, with a file on it that one task calls `mynfs_file_fsync` for. -/
structure WriteInode (shift : Nat) where
  reqs : List (WriteReq shift) := []
  redirtied : Nat := 0
  rpcsOut : Nat := 0
  arrays : List Nat
  /-- The first one is the task in `mynfs_file_fsync`. -/
  committers : List Committer
  data : List NfsCommitData := []
  /-- The last error recorded in the mapping since the file was checked for one, or zero. -/
  wbErr : Int := 0
  fsync : Fsync := {}

def intMax : Nat := 2 ^ 31 - 1

/-- A WRITE to a data server, by its bucket, and whether its layout segment is still valid and has a commit array. -/
structure DsWrite where
  bucket : Bucket
  valid : Bool

def nfsMarkRequestCommit : Option DsWrite → WritePlace
  | none => .listed none
  -- otherwise `resched_write`
  | some ds => if ds.valid then .listed (some ds.bucket) else .dirty

def nfsWriteNeedCommit (verf : WriteVerf) (lseg : Option DsWrite) : Bool :=
  if verf.committed = nfsDataSync then lseg.isNone else verf.committed ≠ nfsFileSync

/-- How the writeback of a request ends. -/
inductive WriteEnd
  | redirty
  /-- `nfs_write_error`, or the error branch of `nfs_write_completion`. -/
  | fail (error : Err)
  | reply (verf : WriteVerf) (lseg : Option DsWrite)

namespace WriteInode
variable {shift : Nat} (s : WriteInode shift)

def putReq (i : Nat) (r : WriteReq shift) : WriteInode shift := { s with reqs := s.reqs.set i r }

def mapReqs (f : WriteReq shift → WriteReq shift) : WriteInode shift := { s with reqs := s.reqs.map f }

def occupied (p : WritePlace) : Bool := s.reqs.any (·.place = p)

def splice (p q : WritePlace) : WriteInode shift :=
  s.mapReqs fun r => if r.place = p then { r with place := q } else r

def setPc (c : Nat) (m : Committer) (pc : CommitPc) : WriteInode shift :=
  { s with committers := s.committers.set c { m with pc := pc } }

def setPhase (phase : FsyncPhase) : WriteInode shift := { s with fsync := { s.fsync with phase := phase } }

def HasBucket (b : Bucket) : Prop := ∃ n, s.arrays[b.array]? = some n ∧ b.idx < n

instance (b : Bucket) : Decidable (s.HasBucket b) :=
  match h : s.arrays[b.array]? with
  | none => .isFalse (by simp [HasBucket, h])
  | some n => decidable_of_iff (b.idx < n) (by simp [HasBucket, h])

/-- What is done with a request that is under writeback, up to the end of the writeback. -/
def writeDone (i : Nat) (r : WriteReq shift) : WriteEnd → WriteInode shift
  | .redirty =>
    { s with redirtied := s.redirtied + 1 }.putReq i
      { r with page := { r.page with wbNio := r.page.wbNio + 1 }, place := .dirty, awaited := false }
  | .fail error => { s with wbErr := error.1 }.putReq i { r with place := .removed .error, awaited := false }
  | .reply verf lseg =>
    if nfsWriteNeedCommit verf lseg then
      s.putReq i { r with page := { r.page with wbNio := 0, wbVerf := verf.verifier }, place := nfsMarkRequestCommit lseg,
                          awaited := false }
    else
      s.putReq i { r with place := .removed (if verf.committed = nfsFileSync then .fileSync else .dataSync), awaited := false }

def lockable (i : Nat) : Bool := s.reqs[i]?.any fun r => r.listed && !r.locked

/-- `mynfs_scan_commit_list` takes requests that it can lock, all of them up to `INT_MAX`. -/
structure Scans (got : List Nat) : Prop where
  nodup : got.Nodup
  lockable : ∀ i ∈ got, s.lockable i
  length_le : got.length ≤ intMax
  all : got.length < intMax → ∀ i < s.reqs.length, s.lockable i → i ∈ got

instance (got : List Nat) : Decidable (s.Scans got) :=
  decidable_of_iff (got.Nodup ∧ (∀ i ∈ got, s.lockable i) ∧ got.length ≤ intMax ∧
      (got.length < intMax → ∀ i < s.reqs.length, s.lockable i → i ∈ got))
    ⟨fun ⟨h, h', h'', h'''⟩ => ⟨h, h', h'', h'''⟩, fun ⟨h, h', h'', h'''⟩ => ⟨h, h', h'', h'''⟩⟩

def scanned (c : Nat) : WritePlace → WritePlace
  | .listed none => .head c
  | .listed (some b) => .committing b
  | p => p

def scan (c : Nat) (got : List Nat) : WriteInode shift :=
  { s with reqs := s.reqs.mapIdx fun i r => if i ∈ got then { r with place := scanned c r.place } else r }

def nextScan (nscan : Nat) : CommitPc := if nscan < intMax then .finish 0 else .scan

/-- `nfs_commitdata_alloc` succeeded, and the requests of a list are moved to the new `struct nfs_commit_data`. -/
def addData (owner : Nat) (phase : CommitDataPhase) (p : WritePlace) : WriteInode shift :=
  { s with data := s.data ++ [(⟨owner, phase⟩ : NfsCommitData)] }.splice p (.pages s.data.length)

/-- `mynfs_retry_commit` of what is on `head`. -/
def retryHead (c : Nat) : WriteInode shift := s.splice (.head c) (nfsMarkRequestCommit none)

section
variable (c : Nat) (m : Committer)

section
variable (nscan : Nat) (alloc : Bool)

def nfsCommitList : WriteInode shift :=
  if !s.occupied (.head c) then s.setPc c m (nextScan nscan)
  else if !alloc then (s.retryHead c).setPc c m (.finish (negErrno .enomem))
  else { s.addData c .sent (.head c) with rpcsOut := s.rpcsOut + 1 }.setPc c m (nextScan nscan)

def mypnfsGenericCommitPagelist : WriteInode shift :=
  if !s.occupied (.head c) then s.setPc c m (.buckets nscan 0 0)
  else if !alloc then (s.retryHead c).setPc c m (.finish (negErrno .enomem))
  else (s.addData c .built (.head c)).setPc c m (.buckets nscan 0 0)

def anyCommitting : Bool := s.reqs.any fun r => match r.place with | .committing _ => true | _ => false

def nfsGenericCommitList : WriteInode shift :=
  if s.anyCommitting then s.mypnfsGenericCommitPagelist c m nscan alloc else s.nfsCommitList c m nscan alloc

end

/-- What is on `committing` of bucket `k` goes to the commit list of bucket `idx + k`, as only the index starts at
    `idx`. -/
def pnfsGenericRetryCommit (array nbuckets idx : Nat) (valid : Bool) : WriteInode shift :=
  s.mapReqs fun r =>
    match r.place with
    | .committing b =>
      if b.array = array ∧ idx + b.idx < nbuckets then
        { r with place := nfsMarkRequestCommit (some ⟨⟨array, idx + b.idx⟩, valid⟩) }
      else r
    | _ => r

/-- A step of `pnfs_alloc_ds_commits_list`: one bucket. -/
def pnfsBucketAllocDsCommits (nscan array idx : Nat) (alloc valid : Bool) : WriteInode shift :=
  match s.arrays[array]? with
  | none => s.setPc c m (.initiate nscan)
  | some nbuckets =>
    if nbuckets ≤ idx then s.setPc c m (.buckets nscan (array + 1) 0)
    else if !s.occupied (.committing ⟨array, idx⟩) then s.setPc c m (.buckets nscan array (idx + 1))
    else if alloc then (s.addData c .built (.committing ⟨array, idx⟩)).setPc c m (.buckets nscan array (idx + 1))
    else (s.pnfsGenericRetryCommit array nbuckets idx valid).setPc c m (.buckets nscan (array + 1) 0)

def commitReturn (ret : Int) : WriteInode shift :=
  if c = 0 then (s.setPc c m .idle).setPhase (.check ret) else s.setPc c m .idle

def commitEnd (ret : Int) : WriteInode shift :=
  if ret ≠ 0 ∨ m.mayWait = false then { s with rpcsOut := s.rpcsOut - 1 }.commitReturn c m ret
  else { s with rpcsOut := s.rpcsOut - 1 }.setPc c m .wait

end

def commitReleasePage (i : Nat) (r : WriteReq shift) (status : Int) (verf : WriteVerf) : WriteInode shift :=
  if status < 0 then { s with wbErr := status }.putReq i { r with place := .removed .error }
  else if nfsWriteMatchVerf verf r.page then s.putReq i { r with place := .removed .commit }
  else { s with redirtied := s.redirtied + 1 }.putReq i { r with place := .dirty }

/-- It has to see the end of writeback of every request in the range that is dirty or under writeback. -/
def writeAndWait (start stop : Nat) : WriteInode shift :=
  s.mapReqs fun r => { r with awaited := decide ((r.place = .dirty ∨ r.place = .writeback) ∧ r.Meets start stop) }

def fsyncLoop (f : Fsync) : WriteInode shift :=
  { s.writeAndWait f.start f.stop with fsync := { f with phase := .writeAndWait, saved := s.redirtied } }

/-- Returns the recorded error if there is one; then the loop is left if the result is not zero. -/
def checkWbErr (ret : Int) (next : WriteInode shift → WriteInode shift) : WriteInode shift :=
  if s.wbErr ≠ 0 then { s with wbErr := 0 }.setPhase (.returned s.wbErr)
  else if ret ≠ 0 then s.setPhase (.returned ret)
  else next s

end WriteInode

end Mynfs
