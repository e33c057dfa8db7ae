import Mynfs.Access

/-! The access cache answers with what was stored: a total order leaves one entry for a credential. -/

namespace Mynfs

open SearchTree Function Finset

theorem ite_eq_then {α : Type} [Ord α] [Std.OrientedOrd α] [LT α] [DecidableLT α] {x y : α}
    (hord : ∀ x y : α, compare x y = .lt ↔ x < y) (o : Ordering) : (if x < y then .lt else if x > y then .gt else o) = (compare x y).then o := by
  have hlt : compare x y = .lt ↔ x < y := hord x y
  have hgt : compare x y = .gt ↔ y < x := Std.OrientedCmp.gt_iff_lt.trans (hord y x)
  cases h : compare x y with
  | lt => rw [if_pos (hlt.mp h), Ordering.lt_then]
  | gt =>
    have hnot : ¬x < y := fun hxy => by
      rw [hlt.mpr hxy] at h
      cases h
    rw [if_neg hnot, if_pos (hgt.mp h), Ordering.gt_then]
  | eq =>
    have hnot : ¬x < y := fun hxy => by
      rw [hlt.mpr hxy] at h
      cases h
    have hnot' : ¬x > y := fun hyx => by
      rw [hgt.mpr hyx] at h
      cases h
    rw [if_neg hnot, if_neg hnot', Ordering.eq_then]

theorem compare_u32_lt_iff (x y : U32) : compare x y = .lt ↔ x < y := compareOfLessAndEq_eq_lt

theorem gidsCmp_eq : ∀ {xs ys : List U32}, xs.length = ys.length → gidsCmp xs ys = compare xs ys
  | [], [], _ => rfl
  | x :: xs, y :: ys, h => by
    rw [gidsCmp, ite_eq_then compare_u32_lt_iff, gidsCmp_eq (Nat.succ.inj h), List.compare_cons_cons]

theorem accessCmp_eq_compareLex : accessCmp = compareLex (compareOn Cred.fsuid) (compareLex (compareOn Cred.fsgid)
    (compareLex (compareOn fun c => c.groups.map List.length) (compareOn Cred.groups))) := by
  funext a b
  unfold accessCmp
  rw [ite_eq_then compare_u32_lt_iff, ite_eq_then compare_u32_lt_iff]
  simp only [compareLex, compareOn]
  congr 2
  cases ha : a.groups with
  | none => cases b.groups <;> rfl
  | some ga =>
    cases hb : b.groups with
    | none => rfl
    | some gb =>
      simp only [Option.map_some]
      rw [ite_eq_then fun _ _ => Nat.compare_eq_lt]
      show _ = (compare ga.length gb.length).then (compare ga gb)
      cases hlen : compare ga.length gb.length with
      | lt => rfl
      | gt => rfl
      | eq => rw [gidsCmp_eq (Std.LawfulEqCmp.eq_of_compare hlen)]

instance : Std.TransCmp accessCmp := by
  rw [accessCmp_eq_compareLex]
  infer_instance

/-- The tree is keyed by all that `access_cmp` compares. -/
theorem accessCmp_eq_iff {a b : Cred} : accessCmp a b = .eq ↔ a.fsuid = b.fsuid ∧ a.fsgid = b.fsgid ∧ a.groups = b.groups := by
  rw [accessCmp_eq_compareLex]
  simp only [compareLex, compareOn, Ordering.then_eq_eq, Std.LawfulEqOrd.compare_eq_iff_eq]
  constructor
  · rintro ⟨huid, hgid, -, hgroups⟩
    exact ⟨huid, hgid, hgroups⟩
  · rintro ⟨huid, hgid, hgroups⟩
    exact ⟨huid, hgid, congrArg _ hgroups, hgroups⟩

instance : Std.LawfulEqCmp accessCmp where
  compare_self := accessCmp_eq_iff.mpr ⟨rfl, rfl, rfl⟩
  eq_of_compare {a b} h := by
    obtain ⟨huid, hgid, hgroups⟩ := accessCmp_eq_iff.mp h
    cases a
    congr

/-- The last mask that was stored since the cache was zapped or invalidated, and when. -/
abbrev StoredMasks (n : Nat) := Fin n → Cred → Option (U32 × Ktime)

def StoredMasks.record {n : Nat} (stored : StoredMasks n) : AccessEvent n → StoredMasks n
  | .add i set true =>
    update stored i (update (stored i) set.cred (some (set.mask, set.timestamp)))
  | .zap i => update stored i fun _ => none
  | .invalidate i => update stored i fun _ => none
  | _ => stored

def latestMasks {n : Nat} (events : List (AccessEvent n)) : StoredMasks n :=
  events.foldl StoredMasks.record fun _ _ => none

/-- The tree is ordered, the list has its entries, the shrinker knows the inode, and valid entries are the last stored. -/
structure AccessInode.Sound (stored : Cred → Option (U32 × Ktime)) (inode : AccessInode) : Prop where
  ascending : Ascending AccessEntry.cred accessCmp inode.tree.toList
  lru : inode.entryLru.Perm inode.tree.toList
  listed : inode.tree.toList ≠ [] → inode.aclLruSet
  stored : inode.invalidAccess = false → ∀ e ∈ inode.tree.toList, stored e.cred = some (e.mask, e.timestamp)

namespace AccessInode
variable {stored : Cred → Option (U32 × Ktime)} {inode : AccessInode} {aclLruSet : Bool}

theorem Sound.nil {invalidAccess : Bool} : Sound stored ⟨.nil, [], invalidAccess, aclLruSet⟩ :=
  ⟨List.Pairwise.nil, .refl _, fun h => absurd rfl h, fun _ _ he => absurd he List.not_mem_nil⟩

variable (h : Sound stored inode)
include h

theorem Sound.erase (ops : Ops AccessEntry) (e : AccessEntry) (hset : inode.tree.toList.erase e ≠ [] → aclLruSet) :
    Sound stored { inode with tree := ops.erase inode.tree e, entryLru := inode.entryLru.erase e, aclLruSet } where
  ascending := by
    rw [ops.toList_erase]
    exact h.ascending.sublist List.erase_sublist
  lru := by
    rw [ops.toList_erase]
    exact h.lru.erase e
  listed := by
    rw [ops.toList_erase]
    exact hset
  stored hvalid x hx := by
    rw [ops.toList_erase] at hx
    exact h.stored hvalid x (List.mem_of_mem_erase hx)

theorem Sound.use {e : AccessEntry} (he : e ∈ inode.tree.toList) :
    Sound stored { inode with entryLru := inode.entryLru.erase e ++ [e] } :=
  { h with lru := ((List.perm_append_singleton e _).trans (List.perm_cons_erase (h.lru.symm.subset he)).symm).trans h.lru }

theorem Sound.add (set : AccessEntry) {tree : BinTree AccessEntry} {entryLru : List AccessEntry}
    (htree : tree.toList = (link AccessEntry.cred accessCmp set.cred set inode.tree).toList) (hlru : entryLru.Perm tree.toList) :
    Sound (update stored set.cred (some (set.mask, set.timestamp)))
      { inode with tree, entryLru, aclLruSet := true } where
  ascending := by
    rw [htree]
    exact ascending_link rfl h.ascending
  lru := hlru
  listed _ := rfl
  stored hvalid e he := by
    rw [htree] at he
    rcases mem_link_of_ascending h.ascending rfl he with rfl | ⟨hmem, hne⟩
    · exact update_self ..
    · rw [update_of_ne hne]
      exact h.stored hvalid e hmem

end AccessInode

namespace AccessCache
variable {n : Nat} {ops : Ops AccessEntry} {s : AccessCache n} {stored : StoredMasks n} {k nrEntries k' : Int}
  {inode : AccessInode} {lruList : List (Fin n)} {loginTime : Ktime} {cred : Cred} {attrInvalid : Bool} {mask : U32}

def count (s : AccessCache n) : Nat := ∑ i, (s.inodes i).tree.toList.length

/-- Every inode is sound, and `nr_entries` is off by `k`. -/
structure Sound (stored : StoredMasks n) (k : Int) (s : AccessCache n) : Prop where
  inodes : ∀ i, (s.inodes i).Sound (stored i)
  nrEntries : s.nrEntries = s.count + k

theorem count_setInode (s : AccessCache n) (i : Fin n) (inode : AccessInode) :
    (s.setInode i inode).count + (s.inodes i).tree.toList.length = s.count + inode.tree.toList.length := by
  have hnew : (s.setInode i inode).count = inode.tree.toList.length + ∑ j ∈ univ.erase i, (s.inodes j).tree.toList.length := by
    unfold count
    rw [← add_sum_erase _ _ (mem_univ i), inodes_setInode_self]
    congr 1
    exact sum_congr rfl fun j hj => by rw [inodes_setInode_of_ne s (ne_of_mem_erase hj)]
  have hold : s.count = (s.inodes i).tree.toList.length + ∑ j ∈ univ.erase i, (s.inodes j).tree.toList.length :=
    (add_sum_erase _ _ (mem_univ i)).symm
  omega

variable (h : Sound stored k s) (i : Fin n)
include h

theorem Sound.setInode {stored' : Cred → Option (U32 × Ktime)} (hinode : inode.Sound stored')
    (hk : nrEntries + (s.inodes i).tree.toList.length + k = s.nrEntries + inode.tree.toList.length + k') :
    Sound (update stored i stored') k' { s.setInode i inode with lruList, nrEntries } := by
  refine ⟨fun j => ?_, ?_⟩
  · by_cases hj : j = i
    · subst hj
      rw [inodes_setInode_self, update_self]
      exact hinode
    · rw [inodes_setInode_of_ne s hj, update_of_ne hj]
      exact h.inodes j
  · have hcount := count_setInode s i inode
    have hnr := h.nrEntries
    show nrEntries = ((s.setInode i inode).count : Int) + k'
    omega

theorem Sound.setInode_same (hinode : inode.Sound (stored i))
    (hk : nrEntries + (s.inodes i).tree.toList.length + k = s.nrEntries + inode.tree.toList.length + k') :
    Sound stored k' { s.setInode i inode with lruList, nrEntries } := by
  have hset : Sound (update stored i (stored i)) k' { s.setInode i inode with lruList, nrEntries } :=
    h.setInode i hinode hk
  rwa [update_eq_self] at hset

theorem Sound.scanInode : Sound stored (k + (s.scanInode ops i).2.length) (s.scanInode ops i).1 := by
  have hi := h.inodes i
  unfold AccessCache.scanInode
  dsimp only
  split
  next hnil =>
    have htree : (s.inodes i).tree.toList = [] := List.Perm.nil_eq (hnil ▸ hi.lru) |>.symm
    have hset : AccessInode.Sound (stored i) { s.inodes i with aclLruSet := false } :=
      ⟨hi.ascending, hi.lru, fun hne => absurd htree hne, hi.stored⟩
    exact h.setInode_same i hset (by simp [AccessCache.setInode])
  next cache rest hcons =>
    have hmem : cache ∈ (s.inodes i).tree.toList := hi.lru.subset (hcons ▸ List.mem_cons_self)
    have hrest : (s.inodes i).entryLru.erase cache = rest := by rw [hcons, List.erase_cons_head]
    have hperm : rest.Perm ((s.inodes i).tree.toList.erase cache) := hrest ▸ hi.lru.erase cache
    have hlen := List.length_erase_of_mem hmem
    have hpos := List.length_pos_of_mem hmem
    have hcount : s.nrEntries + (s.inodes i).tree.toList.length + k
        = s.nrEntries + (ops.erase (s.inodes i).tree cache).toList.length + (k + [cache].length) := by
      rw [ops.toList_erase, hlen, List.length_singleton]
      omega
    split
    next hne =>
      have hset := hi.erase ops cache fun _ => hi.listed (List.ne_nil_of_mem hmem)
      rw [hrest] at hset
      exact h.setInode_same i hset hcount
    next heq =>
      have hnone : (s.inodes i).tree.toList.erase cache ≠ [] → false :=
        fun hne => absurd (not_not.mp heq ▸ hperm).nil_eq.symm hne
      have hset := hi.erase ops cache hnone
      rw [hrest] at hset
      exact h.setInode_same i hset hcount

omit h

variable {i}

/-- The shrinker keeps the cache sound, but for entries still to be freed. -/
theorem Sound.scanLoop : ∀ (nrToScan : Nat) (pos : Option (Fin n)) {s : AccessCache n} (head : List AccessEntry),
    Sound stored head.length s → Sound stored (scanLoop ops nrToScan pos s head).2.length (scanLoop ops nrToScan pos s head).1
  | 0, _, _, _, h => h
  | _ + 1, none, _, _, h => h
  | nrToScan + 1, some i, s, head, h => by
    have hstep : Sound stored ((s.scanInode ops i).2 ++ head).length (s.scanInode ops i).1 := by
      rw [List.length_append, Nat.cast_add, add_comm]
      exact h.scanInode i
    exact Sound.scanLoop nrToScan (s.nextInode i) _ hstep

theorem Sound.freeList (h : Sound stored k s) {head : List AccessEntry} (hk : k = head.length) :
    Sound stored 0 (s.nfsAccessFreeList head) := by
  refine ⟨h.inodes, ?_⟩
  have hnr := h.nrEntries
  show s.nrEntries - head.length = (s.count : Int) + 0
  omega

theorem Sound.scan (h : Sound stored 0 s) (nrToScan : Nat) : Sound stored 0 (s.nfsDoAccessCacheScan ops nrToScan) :=
  (Sound.scanLoop nrToScan s.lruList.head? [] h).freeList rfl

theorem Sound.enforceLimit (h : Sound stored 0 s) (maxCachesize : Nat) :
    Sound stored 0 (s.nfsAccessCacheEnforceLimit ops maxCachesize) := by
  unfold nfsAccessCacheEnforceLimit
  split
  · exact h
  · exact h.scan _

theorem unhook_foldl (ops : Ops AccessEntry) : ∀ (entries : List AccessEntry) {tree : BinTree AccessEntry}
    {entryLru : List AccessEntry} (head : List AccessEntry), tree.toList.Perm entries → entryLru.Perm entries →
    let last := entries.foldl
      (fun (tree, entryLru, head) entry => (ops.erase tree entry, entryLru.erase entry, entry :: head))
      (tree, entryLru, head)
    last.1.toList = [] ∧ last.2.1 = [] ∧ last.2.2.length = head.length + entries.length
  | [], _, _, _, htree, hlru => ⟨htree.eq_nil, hlru.eq_nil, rfl⟩
  | e :: entries, tree, entryLru, head, htree, hlru => by
    have htree' : (ops.erase tree e).toList.Perm entries := by
      rw [ops.toList_erase]
      exact List.erase_cons_head e entries ▸ htree.erase e
    have hlru' : (entryLru.erase e).Perm entries := List.erase_cons_head e entries ▸ hlru.erase e
    obtain ⟨hnil, hnil', hlen⟩ := unhook_foldl ops entries (e :: head) htree' hlru'
    refine ⟨hnil, hnil', hlen.trans ?_⟩
    simp only [List.length_cons]
    omega

theorem Sound.zap (h : Sound stored 0 s) (i : Fin n) : Sound (update stored i fun _ => none) 0 (s.nfsAccessZapCache ops i) := by
  have hi := h.inodes i
  unfold nfsAccessZapCache
  split
  · obtain ⟨hnil, hnil', hlen⟩ := unhook_foldl ops (s.inodes i).tree.toList [] (.refl _) hi.lru
    unfold unhookAll
    generalize (s.inodes i).tree.toList.foldl _ _ = last at hnil hnil' hlen ⊢
    obtain ⟨tree, entryLru, head⟩ := last
    obtain rfl : entryLru = [] := hnil'
    have hset : AccessInode.Sound (fun _ => none) { s.inodes i with tree, entryLru := [], invalidAccess := false, aclLruSet := false } := by
      refine ⟨?_, ?_, fun hne => absurd hnil hne, fun _ e he => ?_⟩
      · rw [hnil]
        exact List.Pairwise.nil
      · rw [hnil]
      · rw [show tree.toList = [] from hnil] at he
        cases he
    refine Sound.freeList (k := head.length) (h.setInode i hset ?_) rfl
    have hlen' : head.length = (s.inodes i).tree.toList.length := by simpa using hlen
    have hzero : tree.toList.length = 0 := by rw [show tree.toList = [] from hnil]; rfl
    simp only [hlen', hzero, AccessCache.setInode]
    omega
  next hset =>
    -- an inode that is not in the list has no entries
    have hnil : (s.inodes i).tree.toList = [] := by_contra fun hne => hset (hi.listed hne)
    refine ⟨fun j => ?_, h.nrEntries⟩
    by_cases hj : j = i
    · subst hj
      exact ⟨hi.ascending, hi.lru, hi.listed, fun _ e he => by rw [hnil] at he; cases he⟩
    · rw [update_of_ne hj]
      exact h.inodes j

theorem Sound.invalidate (h : Sound stored 0 s) (i : Fin n) : Sound (update stored i fun _ => none) 0
    (s.setInode i { s.inodes i with invalidAccess := true }) := by
  have hi := h.inodes i
  have hset : AccessInode.Sound (fun _ => none) { s.inodes i with invalidAccess := true } :=
    ⟨hi.ascending, hi.lru, hi.listed, nofun⟩
  exact h.setInode i hset rfl

theorem addInode_setInode (s : AccessCache n) (i : Fin n) (inode : AccessInode) (nrEntries : Int) :
    ∃ lruList, ({ s.setInode i inode with nrEntries } : AccessCache n).addInode i
      = { s.setInode i { inode with aclLruSet := true } with lruList, nrEntries } := by
  have hinode : ({ s.setInode i inode with nrEntries } : AccessCache n).inodes i = inode := inodes_setInode_self s i inode
  unfold addInode
  rw [hinode]
  split
  next hset =>
    have hsame : { inode with aclLruSet := true } = inode := by rw [← hset]
    exact ⟨s.lruList, by rw [hsame]; rfl⟩
  · refine ⟨s.lruList ++ [i], ?_⟩
    simp only [AccessCache.setInode, update_idem]

theorem Sound.add (h : Sound stored 0 s) (maxCachesize : Nat) (i : Fin n) (set : AccessEntry) :
    Sound (stored.record (.add i set true)) 0 (s.nfsAccessAddCache ops maxCachesize i set true) := by
  have hi := h.inodes i
  unfold nfsAccessAddCache nfsAccessAddRbtree
  cases hsearch : s.nfsAccessSearchRbtree i set.cred with
  | none =>
    set linked := link AccessEntry.cred accessCmp set.cred set (s.inodes i).tree with hlinked
    have hperm : linked.toList.Perm (set :: (s.inodes i).tree.toList) := link_perm_of_none hsearch
    have hlru : ((s.inodes i).entryLru ++ [set]).Perm (ops.rebalance linked).toList := by
      rw [ops.toList_rebalance]
      exact ((List.perm_append_singleton set _).trans (hi.lru.cons set)).trans hperm.symm
    have hset := hi.add set (ops.toList_rebalance linked) hlru
    obtain ⟨lruList, heq⟩ := addInode_setInode s i
      { s.inodes i with tree := ops.rebalance linked, entryLru := (s.inodes i).entryLru ++ [set] } (s.nrEntries + 1)
    refine Sound.enforceLimit ?_ maxCachesize
    refine (congrArg (Sound _ 0) heq).mpr (h.setInode i hset ?_)
    have hlen := hperm.length_eq
    rw [List.length_cons] at hlen
    simp only [ops.toList_rebalance, hlen]
    omega
  | some entry =>
    set linked := link AccessEntry.cred accessCmp set.cred set (s.inodes i).tree with hlinked
    obtain ⟨as, bs, htree, hlink⟩ : ∃ as bs, (s.inodes i).tree.toList = as ++ entry :: bs ∧
      linked.toList = as ++ set :: bs := link_of_some hsearch
    have hmem : entry ∈ (s.inodes i).entryLru := hi.lru.symm.subset (htree ▸ List.mem_append_right as List.mem_cons_self)
    have hrest : ((s.inodes i).entryLru.erase entry).Perm (as ++ bs) := by
      have hperm : (s.inodes i).entryLru.Perm (entry :: (as ++ bs)) := hi.lru.trans (htree ▸ List.perm_middle)
      exact List.erase_cons_head entry (as ++ bs) ▸ hperm.erase entry
    have hlru : (((s.inodes i).entryLru ++ [set]).erase entry).Perm linked.toList := by
      rw [List.erase_append_left _ hmem, hlink]
      exact ((List.perm_append_singleton set _).trans (hrest.cons set)).trans List.perm_middle.symm
    have hset := hi.add set (congrArg BinTree.toList hlinked) hlru
    obtain ⟨lruList, heq⟩ := addInode_setInode s i
      { s.inodes i with tree := linked, entryLru := ((s.inodes i).entryLru ++ [set]).erase entry }
      (s.nrEntries - [entry].length + 1)
    refine Sound.enforceLimit ?_ maxCachesize
    refine (congrArg (Sound _ 0) heq).mpr (h.setInode i hset ?_)
    have hlen : linked.toList.length = (s.inodes i).tree.toList.length := by
      rw [hlink, htree]
      simp
    simp only [hlen, List.length_singleton]
    omega

theorem le_of_not_storedBefore {cache : AccessEntry} (h : storedBefore loginTime cache = false) :
    loginTime.val ≤ cache.timestamp.val := by
  unfold storedBefore at h
  rw [decide_eq_false_iff_not] at h
  by_contra hlt
  rw [BitVec.not_le] at hlt
  refine h ?_
  have hsub : (loginTime.val - cache.timestamp.val).toNat = loginTime.val.toNat - cache.timestamp.val.toNat :=
    BitVec.toNat_sub_of_le (BitVec.le_of_lt hlt)
  rw [BitVec.lt_def] at hlt
  rw [BitVec.toInt_eq_toNat_of_lt (by omega), hsub]
  omega

variable {i : Fin n}

include h

/-- What a lookup returns was stored, and since the last login. -/
theorem Sound.locked_ok {mayBlock retry : Bool}
    (hok : (s.nfsAccessGetCachedLocked i cred loginTime attrInvalid mayBlock retry).1 = .ok mask) :
    ∃ ts, stored i cred = some (mask, ts) ∧ loginTime.val ≤ ts.val := by
  have hi := h.inodes i
  unfold nfsAccessGetCachedLocked at hok
  dsimp only at hok
  split at hok
  · cases hok
  next hvalid =>
    split at hok
    · cases hok
    next cache hsearch =>
      obtain ⟨hmem, rfl⟩ := mem_of_search hsearch
      split at hok
      · split at hok
        · cases hok
        · cases hok
      · split at hok
        · cases hok
        next hbefore =>
          cases hok
          exact ⟨_, hi.stored (Bool.eq_false_of_not_eq_true hvalid) cache hmem,
            le_of_not_storedBefore (Bool.eq_false_of_not_eq_true hbefore)⟩

theorem Sound.rcu_ok (hok : s.nfsAccessGetCachedRcu i cred loginTime attrInvalid = .ok mask) :
    ∃ ts, stored i cred = some (mask, ts) ∧ loginTime.val ≤ ts.val := by
  have hi := h.inodes i
  unfold nfsAccessGetCachedRcu at hok
  dsimp only at hok
  split at hok
  · cases hok
  next hvalid =>
    split at hok
    · cases hok
    next cache hlast =>
      have hmem : cache ∈ (s.inodes i).tree.toList := hi.lru.subset (List.mem_of_getLast? hlast)
      split at hok
      · cases hok
      next heq =>
        obtain rfl : cred = cache.cred := Std.LawfulEqCmp.eq_of_compare (not_not.mp heq)
        split at hok
        · cases hok
        next hbefore =>
          split at hok
          · cases hok
          · cases hok
            exact ⟨_, hi.stored (Bool.eq_false_of_not_eq_true hvalid) cache hmem,
              le_of_not_storedBefore (Bool.eq_false_of_not_eq_true hbefore)⟩

omit h

theorem Sound.locked (h : Sound stored 0 s) (i : Fin n) (cred : Cred) (loginTime : Ktime) (attrInvalid mayBlock retry : Bool) :
    Sound stored 0 (s.nfsAccessGetCachedLocked i cred loginTime attrInvalid mayBlock retry).2 := by
  have hi := h.inodes i
  unfold nfsAccessGetCachedLocked
  dsimp only
  split
  · exact h
  · split
    · exact h
    next cache hsearch =>
      obtain ⟨hmem, -⟩ := mem_of_search hsearch
      split
      · split
        · exact h
        · exact h
      · split
        · exact h
        · exact h.setInode_same i (hi.use hmem) rfl

theorem Sound.step (h : Sound stored 0 s) (maxCachesize : Nat) (event : AccessEvent n) :
    Sound (stored.record event) 0 (s.step ops maxCachesize event) := by
  cases event with
  | add i set kmalloc =>
    cases kmalloc with
    | false => exact h
    | true => exact h.add maxCachesize i set
  | lookup i cred task rcuInvalid attrInvalid mayBlock =>
    show Sound stored 0 (s.nfsAccessGetCached i cred task rcuInvalid attrInvalid mayBlock).2
    unfold nfsAccessGetCached
    dsimp only
    split
    · exact h
    · exact h.locked i cred _ attrInvalid mayBlock true
  | retry i cred task attrInvalid mayBlock => exact h.locked i cred _ attrInvalid mayBlock false
  | zap i => exact h.zap i
  | invalidate i => exact h.invalidate i
  | scan nrToScan => exact h.scan nrToScan

theorem sound_empty (invalidAccess : Fin n → Bool) : Sound (fun _ _ => none) 0 (empty invalidAccess) :=
  ⟨fun _ => .nil, by simp [empty, count, BinTree.toList]⟩

theorem sound_run (maxCachesize : Nat) : ∀ (events : List (AccessEvent n)) {s : AccessCache n} {stored : StoredMasks n},
    Sound stored 0 s → Sound (events.foldl StoredMasks.record stored) 0 (run ops maxCachesize s events)
  | [], _, _, h => h
  | event :: events, _, _, h => sound_run maxCachesize events (h.step maxCachesize event)

/-- After every sequence of operations: credentials are ordered totally, equal with the same user, group and groups; a
    lookup returns the mask stored last since a zap or invalidation, and not before the login; the counter is the number
    of entries. -/
theorem access_answers_stored (ops : Ops AccessEntry) (maxCachesize : Nat) (invalidAccess : Fin n → Bool)
    (events : List (AccessEvent n)) :
    ((∀ a b, accessCmp a b = .eq ↔ a.fsuid = b.fsuid ∧ a.fsgid = b.fsgid ∧ a.groups = b.groups) ∧
      (∀ a b, accessCmp a b = (accessCmp b a).swap) ∧
      ∀ a b c, (accessCmp a b).isLE → (accessCmp b c).isLE → (accessCmp a c).isLE) ∧
    (∀ i cred task rcuInvalid attrInvalid mayBlock mask,
      ((run ops maxCachesize (empty invalidAccess) events).nfsAccessGetCached i cred task rcuInvalid attrInvalid
          mayBlock).1 = .ok mask ∨ ((run ops maxCachesize (empty invalidAccess) events).nfsAccessGetCachedLocked i cred
          (nfsAccessLoginTime cred task.startTime task.ancestors) attrInvalid mayBlock false).1 = .ok mask →
      ∃ ts, latestMasks events i cred = some (mask, ts) ∧
        (nfsAccessLoginTime cred task.startTime task.ancestors).val ≤ ts.val) ∧
    (run ops maxCachesize (empty invalidAccess) events).nrEntries
      = ∑ i, (((run ops maxCachesize (empty invalidAccess) events).inodes i).tree.toList.length : Int) := by
  have h : Sound (latestMasks events) 0 (run ops maxCachesize (empty invalidAccess) events) :=
    sound_run maxCachesize events (sound_empty invalidAccess)
  refine ⟨⟨fun a b => accessCmp_eq_iff, fun a b => Std.OrientedCmp.eq_swap, fun a b c => Std.TransCmp.isLE_trans⟩, ?_, ?_⟩
  · rintro i cred task rcuInvalid attrInvalid mayBlock mask (hok | hok)
    · unfold nfsAccessGetCached at hok
      dsimp only at hok
      split at hok
      next hrcu =>
        cases hok
        exact h.rcu_ok hrcu
      · exact h.locked_ok hok
    · exact h.locked_ok hok
  · rw [h.nrEntries, count, add_zero]
    push_cast
    rfl

/-- The second mask is returned to a task that was started before it was stored. -/
example : ((run default 100 (empty (n := 1) fun _ => false)
    [.add 0 ⟨⟨7, 7, some [1, 2]⟩, 1, ⟨5, by decide⟩⟩ true, .add 0 ⟨⟨7, 7, some [1, 2]⟩, 3, ⟨9, by decide⟩⟩ true]
      ).nfsAccessGetCached 0 ⟨7, 7, some [1, 2]⟩ ⟨⟨8, by decide⟩, []⟩ false false true).1 = .ok 3 := by
  decide

end AccessCache

end Mynfs
