import Mynfs.Lib.Run

/-! `nfs_clear_invalid_mapping` (inode.c) in any number of tasks, while others find the cached data out of date. -/

namespace Mynfs

/-- The cached data of an inode, and the tasks that invalidate it. -/
structure DataCache where
  invalidData : Bool := false
  invalidating : Option Nat := none
  waiting : List Nat := []
  /-- The pages that were there when the data were last found to be out of date. -/
  stale : Nat := 0
  fresh : Nat := 0
  rets : List (Nat × Int) := []

/-- Steps of the tasks, and of others. -/
inductive DataEvent
  | readPage
  | reclaimPage (stale : Bool)
  | setCacheInvalid (data : Bool)
  | call (i : Nat)
  | killed (i : Nat) (err : Int)
  /-- The tests of a task that does not find `NFS_INO_INVALIDATING`. -/
  | look (i : Nat)
  /-- The results of `nfs_sync_mapping` and `invalidate_inode_pages2`, and the pages left if the latter fails. -/
  | finish (i : Nat) (sync inval : Int) (left : Nat)

namespace DataCache
variable (s : DataCache)

def nrpages : Nat := s.stale + s.fresh

def nfsInvalidateMapping (isReg : Bool) (sync inval : Int) (left : Nat) : DataCache × Int :=
  if s.nrpages = 0 then (s, 0)
  else if isReg ∧ sync < 0 then (s, sync)
  else if inval < 0 then ({ s with stale := min left s.stale }, inval)
  else ({ s with stale := 0, fresh := 0 }, 0)

def leave (i : Nat) (ret : Int) : DataCache := { s with waiting := s.waiting.erase i, rets := s.rets ++ [(i, ret)] }

def step (isReg : Bool) (s : DataCache) : DataEvent → Option DataCache
  | .readPage => some { s with fresh := s.fresh + 1 }
  | .reclaimPage stale =>
    some (if stale then { s with stale := s.stale - 1 } else { s with fresh := s.fresh - 1 })
  | .setCacheInvalid data =>
    let t := { s with invalidData := (data || s.invalidData) && s.nrpages ≠ 0 }
    some (if data then { t with stale := s.nrpages, fresh := 0 } else t)
  | .call i => some { s with waiting := i :: s.waiting }
  | .killed i err => if i ∈ s.waiting ∧ s.invalidating.isSome ∧ err < 0 then some (s.leave i err) else none
  | .look i =>
    if i ∈ s.waiting ∧ s.invalidating = none then
      if s.invalidData then
        some { s with waiting := s.waiting.erase i, invalidating := some i, invalidData := false }
      else some (s.leave i 0)
    else none
  | .finish i sync inval left =>
    if s.invalidating = some i then
      let r := s.nfsInvalidateMapping isReg sync inval left
      some ({ r.1 with invalidating := none }.leave i r.2)
    else none

end DataCache
end Mynfs
