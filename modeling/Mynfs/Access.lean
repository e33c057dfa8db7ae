import Mynfs.Lib.SearchTree
import Mynfs.Nfs4

/-! The access cache (dir.c): for each inode a tree by credential and a list by last use. A lookup ends where it drops
    the lock. -/

namespace Mynfs

open SearchTree

/-- `struct cred`; `groups` are the group ids of `group_info`, if there is one. -/
structure Cred where
  fsuid : U32
  fsgid : U32
  groups : Option (List U32)
deriving DecidableEq

abbrev Ktime := { t : U64 // t.toNat < 2 ^ 63 }

/-- `struct nfs_access_entry`. -/
structure AccessEntry where
  cred : Cred
  mask : U32
  timestamp : Ktime
deriving DecidableEq

/-- The loop of `access_cmp` over two lists of the same length. -/
def gidsCmp : List U32 → List U32 → Ordering
  | x :: xs, y :: ys => if x < y then .lt else if x > y then .gt else gidsCmp xs ys
  | _, _ => .eq

/-- -1, 0 and 1 are `lt`, `eq` and `gt`; two pointers to one list are two equal lists here. -/
def accessCmp (a b : Cred) : Ordering :=
  if a.fsuid < b.fsuid then .lt
  else if a.fsuid > b.fsuid then .gt
  else if a.fsgid < b.fsgid then .lt
  else if a.fsgid > b.fsgid then .gt
  else
    match a.groups, b.groups with
    | none, none => .eq
    | none, some _ => .lt
    | some _, none => .gt
    | some ga, some gb =>
      if ga.length < gb.length then .lt
      else if ga.length > gb.length then .gt
      else gidsCmp ga gb

/-- A task with its ancestors, the nearest one first: the time each was started and its credential. -/
structure Task where
  startTime : Ktime
  ancestors : List (Cred × Ktime)

/-- The start of the first task of the chain of ancestors with the credential. -/
def nfsAccessLoginTime (cred : Cred) (startTime : Ktime) : List (Cred × Ktime) → Ktime
  | [] => startTime
  | (pcred, pstart) :: ancestors => if pcred ≠ cred then startTime else nfsAccessLoginTime cred pstart ancestors

/-- `access_cache`, `access_cache_entry_lru`, and the bits `NFS_INO_INVALID_ACCESS` and `NFS_INO_ACL_LRU_SET`. -/
structure AccessInode where
  tree : BinTree AccessEntry := .nil
  entryLru : List AccessEntry := []
  invalidAccess : Bool := false
  aclLruSet : Bool := false

/-- The access caches of `n` inodes and the list of the shrinker. -/
structure AccessCache (n : Nat) where
  inodes : Fin n → AccessInode
  lruList : List (Fin n) := []
  nrEntries : Int := 0

/-- A lookup gives the mask or an error, or gives up the lock to zap the cache or to revalidate the attributes. -/
inductive LookupOutcome
  | ok (mask : U32)
  | err (e : Int)
  | zap
  | revalidate
deriving DecidableEq

namespace AccessCache
variable {n : Nat} (ops : Ops AccessEntry) (s : AccessCache n)

def setInode (i : Fin n) (inode : AccessInode) : AccessCache n :=
  { s with inodes := Function.update s.inodes i inode }

@[simp] theorem inodes_setInode_self (i : Fin n) (inode : AccessInode) : (s.setInode i inode).inodes i = inode :=
  Function.update_self ..

theorem inodes_setInode_of_ne {i j : Fin n} (h : j ≠ i) (inode : AccessInode) :
    (s.setInode i inode).inodes j = s.inodes j := Function.update_of_ne h ..

def nfsAccessFreeList (head : List AccessEntry) : AccessCache n := { s with nrEntries := s.nrEntries - head.length }

section
variable (i : Fin n)

/-- The body of `nfs_do_access_cache_scan`: an inode loses its oldest entry and goes to the end of the list, or off it. -/
def scanInode : AccessCache n × List AccessEntry :=
  let inode := s.inodes i
  match inode.entryLru with
  | [] => ({ s.setInode i { inode with aclLruSet := false } with lruList := s.lruList.erase i }, [])
  | cache :: rest =>
    let tree := ops.erase inode.tree cache
    if rest ≠ [] then
      ({ s.setInode i { inode with tree, entryLru := rest } with lruList := s.lruList.erase i ++ [i] }, [cache])
    else
      ({ s.setInode i { inode with tree, entryLru := rest, aclLruSet := false } with lruList := s.lruList.erase i },
        [cache])

def nextInode : Option (Fin n) := (s.lruList.dropWhile (· ≠ i)).tail.head?

/-- The next inode is taken before the body moves this one. -/
def scanLoop : Nat → Option (Fin n) → AccessCache n → List AccessEntry → AccessCache n × List AccessEntry
  | 0, _, s, head => (s, head)
  | _ + 1, none, s, head => (s, head)
  | nrToScan + 1, some i, s, head =>
    let next := s.nextInode i
    let (s, freed) := s.scanInode ops i
    scanLoop nrToScan next s (freed ++ head)

def nfsDoAccessCacheScan (nrToScan : Nat) : AccessCache n :=
  let (s, head) := scanLoop ops nrToScan s.lruList.head? s []
  s.nfsAccessFreeList head

def nfsAccessCacheEnforceLimit (maxCachesize : Nat) : AccessCache n :=
  if s.nrEntries < 0 ∨ s.nrEntries ≤ maxCachesize then s
  else s.nfsDoAccessCacheScan ops (min 100 (s.nrEntries - maxCachesize).toNat)

/-- `__nfs_access_zap_cache`: entries are taken out of the tree in order, each also off the list. -/
def unhookAll (inode : AccessInode) : AccessInode × List AccessEntry :=
  let (tree, entryLru, head) := inode.tree.toList.foldl
    (fun (tree, entryLru, head) entry => (ops.erase tree entry, entryLru.erase entry, entry :: head))
    (inode.tree, inode.entryLru, [])
  ({ inode with tree, entryLru, invalidAccess := false }, head)

def nfsAccessZapCache : AccessCache n :=
  if (s.inodes i).aclLruSet then
    let (inode, head) := unhookAll ops { s.inodes i with aclLruSet := false }
    { s.setInode i inode with lruList := s.lruList.erase i }.nfsAccessFreeList head
  else s

def nfsAccessSearchRbtree (cred : Cred) : Option AccessEntry :=
  search AccessEntry.cred accessCmp cred (s.inodes i).tree

def storedBefore (loginTime : Ktime) (cache : AccessEntry) : Bool :=
  decide ((loginTime.val - cache.timestamp.val).toInt > 0)

/-- `attrInvalid` is what `mynfs_check_cache_invalid` says. -/
def nfsAccessGetCachedRcu (cred : Cred) (loginTime : Ktime) (attrInvalid : Bool) : Except Int U32 :=
  let inode := s.inodes i
  if inode.invalidAccess then .error (negErrno .echild)
  else
    match inode.entryLru.getLast? with
    | none => .error (negErrno .echild)
    | some cache =>
      if accessCmp cred cache.cred ≠ .eq then .error (negErrno .echild)
      else if storedBefore loginTime cache then .error (negErrno .echild)
      else if attrInvalid then .error (negErrno .echild)
      else .ok cache.mask

/-- One turn of the loop; the second one, after revalidating, has `retry` false. -/
def nfsAccessGetCachedLocked (cred : Cred) (loginTime : Ktime) (attrInvalid mayBlock retry : Bool) :
    LookupOutcome × AccessCache n :=
  let inode := s.inodes i
  if inode.invalidAccess then (.zap, s)
  else
    match s.nfsAccessSearchRbtree i cred with
    | none => (.err (negErrno .enoent), s)
    | some cache =>
      if attrInvalid ∧ retry then
        if !mayBlock then (.err (negErrno .echild), s) else (.revalidate, s)
      else if storedBefore loginTime cache then (.err (negErrno .enoent), s)
      else (.ok cache.mask, s.setInode i { inode with entryLru := inode.entryLru.erase cache ++ [cache] })

/-- Up to its end, or to where it gives up the lock. -/
def nfsAccessGetCached (cred : Cred) (task : Task) (rcuInvalid attrInvalid mayBlock : Bool) : LookupOutcome × AccessCache n :=
  let loginTime := nfsAccessLoginTime cred task.startTime task.ancestors
  match s.nfsAccessGetCachedRcu i cred loginTime rcuInvalid with
  | .ok mask => (.ok mask, s)
  | .error _ => s.nfsAccessGetCachedLocked i cred loginTime attrInvalid mayBlock true

def nfsAccessAddRbtree (set : AccessEntry) : AccessCache n :=
  let inode := s.inodes i
  let linked := link AccessEntry.cred accessCmp set.cred set inode.tree
  match s.nfsAccessSearchRbtree i set.cred with
  | none => s.setInode i { inode with tree := ops.rebalance linked, entryLru := inode.entryLru ++ [set] }
  | some entry =>
    (s.setInode i { inode with tree := linked, entryLru := (inode.entryLru ++ [set]).erase entry }).nfsAccessFreeList [entry]

def addInode : AccessCache n :=
  if (s.inodes i).aclLruSet then s
  else { s.setInode i { s.inodes i with aclLruSet := true } with lruList := s.lruList ++ [i] }

end

def nfsAccessAddCache (maxCachesize : Nat) (i : Fin n) (set : AccessEntry) (kmalloc : Bool) : AccessCache n :=
  if !kmalloc then s
  else
    let s := s.nfsAccessAddRbtree ops i set
    let s := { s with nrEntries := s.nrEntries + 1 }
    (s.addInode i).nfsAccessCacheEnforceLimit ops maxCachesize

end AccessCache

/-- Calls on the cache, and invalidations. -/
inductive AccessEvent (n : Nat)
  | add (i : Fin n) (set : AccessEntry) (kmalloc : Bool)
  | lookup (i : Fin n) (cred : Cred) (task : Task) (rcuInvalid attrInvalid mayBlock : Bool)
  | retry (i : Fin n) (cred : Cred) (task : Task) (attrInvalid mayBlock : Bool)
  | zap (i : Fin n)
  | invalidate (i : Fin n)
  | scan (nrToScan : Nat)

namespace AccessCache
variable {n : Nat}

section
variable (ops : Ops AccessEntry) (maxCachesize : Nat) (s : AccessCache n)

def step : AccessEvent n → AccessCache n
  | .add i set kmalloc => s.nfsAccessAddCache ops maxCachesize i set kmalloc
  | .lookup i cred task rcuInvalid attrInvalid mayBlock =>
    (s.nfsAccessGetCached i cred task rcuInvalid attrInvalid mayBlock).2
  | .retry i cred task attrInvalid mayBlock =>
    (s.nfsAccessGetCachedLocked i cred (nfsAccessLoginTime cred task.startTime task.ancestors) attrInvalid mayBlock false).2
  | .zap i => s.nfsAccessZapCache ops i
  | .invalidate i => s.setInode i { s.inodes i with invalidAccess := true }
  | .scan nrToScan => s.nfsDoAccessCacheScan ops nrToScan

def empty (invalidAccess : Fin n → Bool) : AccessCache n where
  inodes i := { invalidAccess := invalidAccess i }

def run (events : List (AccessEvent n)) : AccessCache n :=
  events.foldl (step ops maxCachesize) s

end

end AccessCache

end Mynfs
