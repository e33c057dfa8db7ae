import Mathlib.Data.List.Nodup

/-! The buckets of an inode with a pNFS layout (pnfs_nfs.c), under `commit_mutex`: for each data server two lists. -/

namespace Mynfs

/-- `struct pnfs_commit_bucket`. -/
structure CommitBucket where
  written : List Nat := []
  committing : List Nat := []
  /-- The layout segment on which the bucket holds a reference. -/
  lseg : Option Nat := none
deriving DecidableEq

/-- The requests that a `struct nfs_commit_data` or a call of `mynfs_retry_commit` takes over. -/
structure DsCommit where
  dsCommitIndex : Nat
  pages : List Nat
  lseg : Option Nat

namespace CommitBucket

/-- With the reference that the bucket gives up. -/
def pnfsFreeBucketLseg (b : CommitBucket) : CommitBucket × Option Nat :=
  if b.committing = [] ∧ b.written = [] then ({ b with lseg := none }, b.lseg) else (b, none)

/-- The bucket after the call, with its own reference if the caller gets that one. -/
def pnfsBucketGetCommitting (b : CommitBucket) : CommitBucket × Option Nat :=
  { b with committing := [] }.pnfsFreeBucketLseg

/-- With the reference of the bucket or one of its own. -/
def commit (b : CommitBucket) (idx : Nat) : DsCommit :=
  ⟨idx, b.committing, b.pnfsBucketGetCommitting.2 <|> b.pnfsBucketGetCommitting.1.lseg⟩

/-- The bucket runs from the first one while the index runs from `idx`. -/
def pnfsGenericRetryCommit (nbuckets : Nat) : Nat → List CommitBucket → List CommitBucket × List DsCommit
  | _, [] => ([], [])
  | idx, b :: bs =>
    if nbuckets ≤ idx then (b :: bs, [])
    else
      let r := pnfsGenericRetryCommit nbuckets (idx + 1) bs
      if b.committing = [] then (b :: r.1, r.2)
      else (b.pnfsBucketGetCommitting.1 :: r.1, b.commit idx :: r.2)

/-- From bucket `i`, with the bucket for which `nfs_commitdata_alloc` failed. -/
def allocLoop (alloc : Nat → Bool) : Nat → List CommitBucket → List CommitBucket × List DsCommit × Option Nat
  | _, [] => ([], [], none)
  | i, b :: bs =>
    if b.committing ≠ [] ∧ alloc i = false then (b :: bs, [], some i)
    else
      let r := allocLoop alloc (i + 1) bs
      if b.committing = [] then (b :: r.1, r.2)
      else (b.pnfsBucketGetCommitting.1 :: r.1, b.commit i :: r.2.1, r.2.2)

/-- What the allocation of commits leaves. -/
structure AllocResult where
  buckets : List CommitBucket
  list : List DsCommit
  retried : List DsCommit := []

/-- `alloc i` says whether `nfs_commitdata_alloc` succeeds for bucket `i`. -/
def pnfsBucketAllocDsCommits (alloc : Nat → Bool) (buckets : List CommitBucket) : AllocResult :=
  match allocLoop alloc 0 buckets with
  | (bs, list, none) => ⟨bs, list, []⟩
  | (bs, list, some i) =>
    let r := pnfsGenericRetryCommit buckets.length i bs
    ⟨r.1, list, r.2⟩

end CommitBucket

end Mynfs
