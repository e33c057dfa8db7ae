import Mynfs.Inode.Ooo
import Mynfs.Lib.Edges

/-! Gaps of the change attribute cancel: a jump and all replies it skipped form a cycle, whose balance is zero. -/

namespace Mynfs
open Edges List
open Fin (castSucc last succ)

variable {start end_ : U64} {gaps : List Gap} {size : Nat} {canAlloc : Bool} {nfsi : OooInode}

theorem findJoin_some {start' end' : U64} : ∀ {gaps : List Gap} {i j : Nat},
    findJoin start end_ gaps i = some (j, start', end') → ∃ m gap, j = i + m ∧ gaps[m]? = some gap ∧
        ((end_ = gap.1 ∧ start' = start ∧ end' = gap.2) ∨ (start = gap.2 ∧ start' = gap.1 ∧ end' = end_))
  | [], i, j, h => by cases h
  | gap :: gaps, i, j, h => by
    unfold findJoin at h
    split at h
    next he =>
      obtain ⟨rfl, rfl, rfl⟩ : i = j ∧ start = start' ∧ gap.2 = end' := by simpa using h
      exact ⟨0, gap, rfl, rfl, .inl ⟨he, rfl, rfl⟩⟩
    · split at h
      next hs =>
        obtain ⟨rfl, rfl, rfl⟩ : i = j ∧ gap.1 = start' ∧ end_ = end' := by simpa using h
        exact ⟨0, gap, rfl, rfl, .inr ⟨hs, rfl, rfl⟩⟩
      · obtain ⟨m, gap', rfl, hget, hjoin⟩ := findJoin_some h
        exact ⟨m + 1, gap', by omega, by simpa using hget, hjoin⟩

theorem findJoin_none : ∀ {gaps : List Gap} {i : Nat}, findJoin start end_ gaps i = none →
    ∀ gap ∈ gaps, end_ ≠ gap.1 ∧ start ≠ gap.2
  | [], _, _ => by simp
  | gap :: gaps, i, h => by
    unfold findJoin at h
    split at h
    · cases h
    next he =>
      split at h
      · cases h
      next hs =>
        intro g hg
        rcases mem_cons.mp hg with rfl | hg
        · exact ⟨he, hs⟩
        · exact findJoin_none h g hg

theorem swapRemove_perm {m : Nat} {gap : Gap} (h : gaps[m]? = some gap) : gaps.Perm (gap :: swapRemove gaps m) := by
  rcases eq_nil_or_concat gaps with rfl | ⟨init, last, rfl⟩
  · simp at h
  · rw [concat_eq_append] at h ⊢
    obtain ⟨hlt, hget⟩ := List.getElem?_eq_some_iff.mp h
    have hlen : m < init.length ∨ m = init.length := by
      rw [length_append, length_singleton] at hlt
      omega
    rcases hlen with hm | rfl
    · have hgap : init[m] = gap := by rw [← hget, getElem_append_left hm]
      have hswap : swapRemove (init ++ [last]) m = init.set m last := by simp [swapRemove, set_append_left _ _ hm]
      rw [hswap]
      calc (init ++ [last]).Perm (last :: init) := perm_append_singleton last init
        List.Perm _ (last :: gap :: init.eraseIdx m) := by
          rw [← hgap]
          exact (getElem_cons_eraseIdx_perm hm).symm.cons last
        List.Perm _ (gap :: last :: init.eraseIdx m) := List.Perm.swap gap last _
        List.Perm _ (gap :: init.set m last) := ((set_perm_cons_eraseIdx hm last).symm).cons gap
    · obtain rfl : last = gap := by simpa using h
      have hswap : swapRemove (init ++ [last]) init.length = init := by simp [swapRemove]
      rw [hswap]
      exact perm_append_singleton last init

/-- The table that a merge leaves when there is room for every gap. -/
def mergeGaps (gaps : List Gap) (start end_ : U64) : List Gap :=
  let (gaps, start, end_) := mergeLoop gaps.length gaps start end_
  if start ≠ end_ then gaps ++ [(start, end_)] else gaps

/-- What joining leaves. -/
structure Merged (gaps : List Gap) (start end_ : U64) (r : List Gap × U64 × U64) : Prop where
  subset : r.1 ⊆ gaps
  length : r.1.length ≤ gaps.length
  balance : ∀ v, balance r.1 v + edgeBalance (r.2.1, r.2.2) v = balance gaps v + edgeBalance (start, end_) v
  ended : findJoin r.2.1 r.2.2 r.1 0 = none

theorem merged_mergeLoop : ∀ (rounds : Nat) (gaps : List Gap) (start end_ : U64), gaps.length ≤ rounds →
    Merged gaps start end_ (mergeLoop rounds gaps start end_)
  | 0, gaps, start, end_, h => by
    obtain rfl : gaps = [] := length_eq_zero_iff.mp (Nat.le_zero.mp h)
    exact ⟨.refl _, le_rfl, fun _ => rfl, rfl⟩
  | rounds + 1, gaps, start, end_, h => by
    rw [mergeLoop]
    cases hj : findJoin start end_ gaps 0 with
    | none => exact ⟨.refl _, le_rfl, fun _ => rfl, hj⟩
    | some x =>
      obtain ⟨i, start', end'⟩ := x
      obtain ⟨m, gap, hi, hget, hjoin⟩ := findJoin_some hj
      obtain rfl : i = m := by omega
      have hperm := swapRemove_perm hget
      have hlen := hperm.length_eq
      rw [length_cons] at hlen
      have ih := merged_mergeLoop rounds (swapRemove gaps i) start' end' (by omega)
      refine ⟨fun g hg => hperm.mem_iff.mpr (mem_cons_of_mem _ (ih.subset hg)), ih.length.trans (by omega), fun v => ?_, ih.ended⟩
      -- the range and the gap it meets weigh as much as the range that replaces them
      have hweight : edgeBalance (start', end') v = edgeBalance gap v + edgeBalance (start, end_) v := by
        rcases hjoin with ⟨rfl, rfl, rfl⟩ | ⟨rfl, rfl, rfl⟩
        · rw [add_comm]
          exact (edgeBalance_join _ _ _ v).symm
        · exact (edgeBalance_join _ _ _ v).symm
      rw [ih.balance v, balance_perm hperm v, balance_cons, hweight]
      omega

theorem balance_mergeGaps (gaps : List Gap) (start end_ v : U64) :
    balance (mergeGaps gaps start end_) v = balance gaps v + edgeBalance (start, end_) v := by
  have h := (merged_mergeLoop gaps.length gaps start end_ le_rfl).balance v
  unfold mergeGaps
  dsimp only
  split
  · simpa using h
  next heq =>
    rw [← h, not_not.mp heq, edgeBalance_self, add_zero]

theorem unchained_mergeGaps (h : Unchained gaps) (start end_ : U64) : Unchained (mergeGaps gaps start end_) := by
  have hm := merged_mergeLoop gaps.length gaps start end_ le_rfl
  unfold mergeGaps
  dsimp only
  split
  next hne =>
    have hapart := findJoin_none hm.ended
    exact unchained_concat (h.mono hm.subset) hne (fun g hg => (hapart g hg).1) fun g hg => (hapart g hg).2
  · exact h.mono hm.subset

def OooInode.Stores (nfsi : OooInode) (gaps : List Gap) : Prop :=
  nfsi.dataInvalDefer = false ∧ nfsi.ooo.getD [] = gaps

theorem oooTable_cases (canAlloc : Bool) (nfsi : OooInode) :
    oooTable canAlloc nfsi = some (nfsi.ooo.getD []) ∨ nfsi.ooo = none ∧ oooTable canAlloc nfsi = none := by
  cases ho : nfsi.ooo <;> cases canAlloc <;> simp [oooTable, ho]

theorem nfsOooMerge_eq (hdefer : nfsi.dataInvalDefer = false) (htable : oooTable canAlloc nfsi = some gaps)
    (hle : gaps.length ≤ size ∨ (mergeGaps gaps start end_).length ≤ size) : nfsOooMerge size canAlloc nfsi start end_ =
      if (mergeGaps gaps start end_).length ≤ size then ⟨some (mergeGaps gaps start end_), false⟩ else ⟨none, true⟩ := by
  have hlen := (merged_mergeLoop gaps.length gaps start end_ le_rfl).length
  unfold nfsOooMerge
  rw [hdefer, if_neg nofun, htable]
  unfold mergeGaps at hle ⊢
  dsimp only at hle ⊢
  split
  next hne =>
    rw [length_append, length_singleton]
    split
    · rw [if_neg (by omega)]
    · rw [if_pos (by omega)]
  next heq =>
    rw [if_neg heq] at hle
    rw [if_pos (by omega)]

theorem stores_oooMerge (h : nfsi.Stores gaps) (hroom : (mergeGaps gaps start end_).length ≤ size) :
    (nfsOooMerge size true nfsi start end_).Stores (mergeGaps gaps start end_) := by
  obtain ⟨hdefer, hgaps⟩ := h
  have hooo : oooTable true nfsi = some gaps := by
    rcases oooTable_cases true nfsi with htable | ⟨hnone, htable⟩
    · rw [htable, hgaps]
    · simp [oooTable, hnone] at htable
  rw [nfsOooMerge_eq hdefer hooo (.inr hroom), if_pos hroom]
  exact ⟨rfl, rfl⟩

/-- No gap ends where one starts, itself included. Only a merge that leaves no table sets the flag. -/
structure OooInode.Shaped (size : Nat) (nfsi : OooInode) : Prop where
  count : (nfsi.ooo.getD []).length ≤ size
  apart : Unchained (nfsi.ooo.getD [])
  deferred : nfsi.dataInvalDefer → nfsi.ooo = none

theorem shaped_discarded (size : Nat) : OooInode.Shaped size ⟨none, true⟩ := ⟨Nat.zero_le _, unchained_nil, fun _ => rfl⟩

/-- A merge keeps the shape of the table, and every balance unless it is discarded. As many scans as gaps are enough. -/
theorem nfsOooMerge_shaped (h : nfsi.Shaped size) (canAlloc : Bool) (start end_ : U64) :
    (nfsOooMerge size canAlloc nfsi start end_).Shaped size ∧
    (nfsOooMerge size canAlloc nfsi start end_ = ⟨none, true⟩ ∨
      ∀ v, balance ((nfsOooMerge size canAlloc nfsi start end_).ooo.getD []) v =
        balance (nfsi.ooo.getD []) v + edgeBalance (start, end_) v) ∧
    ∀ gaps, let r := mergeLoop gaps.length gaps start end_
      findJoin r.2.1 r.2.2 r.1 0 = none := by
  rw [← and_assoc]
  refine ⟨?_, fun gaps => (merged_mergeLoop gaps.length gaps start end_ le_rfl).ended⟩
  obtain ⟨ooo, dataInvalDefer⟩ := nfsi
  cases dataInvalDefer with
  | true =>
    obtain rfl : ooo = none := h.deferred rfl
    exact ⟨h, .inl rfl⟩
  | false =>
    rcases oooTable_cases canAlloc ⟨ooo, false⟩ with htable | ⟨rfl, htable⟩
    · rw [nfsOooMerge_eq rfl htable (.inl h.count)]
      split
      next hroom => exact ⟨⟨hroom, unchained_mergeGaps h.apart start end_, by simp⟩, .inr (balance_mergeGaps _ start end_)⟩
      · exact ⟨shaped_discarded size, .inl rfl⟩
    · have hnone : nfsOooMerge size canAlloc ⟨none, false⟩ start end_ = ⟨none, true⟩ := by simp [nfsOooMerge, htable]
      rw [hnone]
      exact ⟨shaped_discarded size, .inl rfl⟩

/-- Two gaps that the new one joins to one. -/
theorem nfsOooMerge_shaped_two : (nfsOooMerge 2 true ⟨some [(1, 2), (3, 4)], false⟩ 2 3).Shaped 2 := by
  exact (nfsOooMerge_shaped ⟨by decide, by simp [Unchained], fun h => absurd h (by decide)⟩ true 2 3).1

section
variable {n : Nat} (v : Fin (n + 1) → U64)

def reply (i : Fin n) : OooFattr := ⟨v i.succ, v i.castSucc, true, true⟩

/-- After the jump from the first value to the last and the given replies, with room for all of them. -/
def storedGaps (order : List (Fin n)) : List Gap :=
  order.foldl (fun gaps i => mergeGaps gaps (v i.succ) (v i.castSucc)) (mergeGaps [] (v 0) (v (Fin.last n)))

def afterReplies (size : Nat) (nfsi : OooInode) (order : List (Fin n)) : OooInode :=
  order.foldl (fun nfsi i => nfsOooRecord size true nfsi (reply v i)) (nfsOooMerge size true nfsi (v 0) (v (Fin.last n)))

theorem stores_afterReplies {size : Nat} {nfsi : OooInode} (hempty : nfsi.Stores []) (order : List (Fin n))
    (hroom : ∀ pre, pre <+: order → (storedGaps v pre).length ≤ size) :
    (afterReplies v size nfsi order).Stores (storedGaps v order) := by
  induction order using reverseRecOn with
  | nil => exact stores_oooMerge hempty (hroom [] nil_prefix)
  | append_singleton order i ih =>
    have hstores := ih fun pre hpre => hroom pre (hpre.trans (prefix_append order [i]))
    have hlast := hroom _ (prefix_refl _)
    rw [storedGaps, foldl_append] at hlast ⊢
    rw [afterReplies, foldl_append]
    exact stores_oooMerge hstores hlast

theorem unchained_storedGaps (order : List (Fin n)) : Unchained (storedGaps v order) := by
  induction order using reverseRecOn with
  | nil => exact unchained_mergeGaps unchained_nil _ _
  | append_singleton order i ih =>
    rw [storedGaps, foldl_append]
    exact unchained_mergeGaps ih _ _

theorem balance_storedGaps (order : List (Fin n)) (u : U64) : balance (storedGaps v order) u =
      edgeBalance (v 0, v (last n)) u + balance (order.map fun i => (v i.succ, v i.castSucc)) u := by
  induction order using reverseRecOn with
  | nil => simp [storedGaps, balance_mergeGaps]
  | append_singleton order i ih =>
    have hstep : storedGaps v (order ++ [i]) = mergeGaps (storedGaps v order) (v i.succ) (v i.castSucc) := by
      simp [storedGaps]
    rw [hstep, balance_mergeGaps, ih]
    simp [add_assoc]

end

theorem balance_replies : ∀ {n : Nat} (v : Fin (n + 1) → U64) (u : U64),
    balance ((finRange n).map fun i => (v i.succ, v i.castSucc)) u = edgeBalance (v (last n), v 0) u
  | 0, v, u => by
    rw [show last 0 = 0 from rfl, edgeBalance_self]
    rfl
  | n + 1, v, u => by
    have ih := balance_replies (fun i : Fin (n + 1) => v i.succ) u
    rw [finRange_succ, map_cons, balance_cons, map_map]
    have htail : balance ((finRange n).map ((fun i => (v i.succ, v i.castSucc)) ∘ succ)) u =
        edgeBalance (v (last (n + 1)), v (succ 0)) u := by
      rw [← Fin.succ_last, ← ih]
      rfl
    rw [htail, add_comm]
    exact edgeBalance_join _ _ _ u

section
variable {n : Nat} {v : Fin (n + 1) → U64} {order : List (Fin n)}

theorem storedGaps_eq_nil (hnd : order.Nodup) (hall : ∀ i, i ∈ order) : storedGaps v order = [] := by
  have hperm : order.Perm (finRange n) :=
    (perm_ext_iff_of_nodup hnd (nodup_finRange n)).mpr fun i => ⟨fun _ => mem_finRange i, fun _ => hall i⟩
  refine eq_nil_of_balance (unchained_storedGaps v order) fun u => ?_
  rw [balance_storedGaps, balance_perm (hperm.map _), balance_replies, edgeBalance_join, edgeBalance_self]

theorem balance_replies_at (hv : Function.Injective v) (order : List (Fin n)) (k : Fin (n + 1)) :
    balance (order.map fun i => (v i.succ, v i.castSucc)) (v k) =
      (order.countP fun i => i.succ = k : Int) - (order.countP fun i => i.castSucc = k) := by
  induction order with
  | nil => rfl
  | cons i order ih =>
    simp only [map_cons, balance_cons, ih, edgeBalance, hv.eq_iff, countP_cons, decide_eq_true_eq]
    split <;> split <;> push_cast <;> omega

theorem countP_castSucc_of_notMem {i : Fin n} (h : i ∉ order) :
    (order.countP fun j => j.castSucc = i.castSucc) = 0 := by
  refine countP_eq_zero.mpr fun j hj he => h ?_
  rwa [← Fin.castSucc_inj.mp (of_decide_eq_true he)]

theorem mem_of_storedGaps_eq_nil (hv : Function.Injective v) (h : storedGaps v order = []) (i : Fin n) : i ∈ order := by
  have hzero : ∀ k : Fin (n + 1), edgeBalance (v 0, v (last n)) (v k) +
      ((order.countP fun j => j.succ = k : Int) - (order.countP fun j => j.castSucc = k)) = 0 := fun k => by
    rw [← balance_replies_at hv, ← balance_storedGaps, h, balance_nil]
  obtain ⟨m, hm⟩ := i
  induction m with
  | zero =>
    by_contra hnot
    have hk := hzero (castSucc ⟨0, hm⟩)
    have hends := countP_castSucc_of_notMem hnot
    have hjump : edgeBalance (v 0, v (last n)) (v (castSucc ⟨0, hm⟩)) = 1 := by
      have hlast : last n ≠ castSucc ⟨0, hm⟩ := (Fin.castSucc_lt_last _).ne'
      have hfirst : (0 : Fin (n + 1)) = castSucc ⟨0, hm⟩ := Fin.ext rfl
      simp only [edgeBalance, hv.eq_iff]
      rw [if_pos hfirst, if_neg hlast, sub_zero]
    omega
  | succ m ih =>
    by_contra hnot
    have hprev := ih (by omega)
    have hk := hzero (castSucc ⟨m + 1, hm⟩)
    have hends := countP_castSucc_of_notMem hnot
    have hstarts : 0 < order.countP fun j => j.succ = castSucc ⟨m + 1, hm⟩ :=
      countP_pos_iff.mpr ⟨⟨m, by omega⟩, hprev, by simp⟩
    have hjump : edgeBalance (v 0, v (last n)) (v (castSucc ⟨m + 1, hm⟩)) = 0 := by
      have hlast : last n ≠ castSucc ⟨m + 1, hm⟩ := (Fin.castSucc_lt_last _).ne'
      have hfirst : (0 : Fin (n + 1)) ≠ castSucc ⟨m + 1, hm⟩ := by simp [Fin.ext_iff]
      simp only [edgeBalance, hv.eq_iff]
      rw [if_neg hfirst, if_neg hlast, sub_zero]
    omega

/-- After the jump and some of the replies, in any order, the table is empty exactly if all were recorded. -/
theorem ooo_gaps_cancel (v : Fin (n + 1) → U64) (hv : Function.Injective v) (size : Nat) (nfsi : OooInode)
    (hempty : nfsi.Stores []) (order : List (Fin n)) (hnd : order.Nodup)
    (hroom : ∀ pre, pre <+: order → (storedGaps v pre).length ≤ size) :
    (afterReplies v size nfsi order).dataInvalDefer = false ∧
    ((afterReplies v size nfsi order).ooo.getD [] = [] ↔ ∀ i, i ∈ order) := by
  obtain ⟨hdefer, hgaps⟩ := stores_afterReplies v hempty order hroom
  rw [hgaps]
  exact ⟨hdefer, mem_of_storedGaps_eq_nil hv, storedGaps_eq_nil hnd⟩

/-- Three operations of a chain whose replies arrive last first, with an array of two gaps. -/
theorem ooo_gaps_cancel_three : (afterReplies ![10, 11, 12, 13] 2 ⟨none, false⟩ [2, 1]).ooo.getD [] ≠ [] ∧
    (afterReplies ![10, 11, 12, 13] 2 ⟨none, false⟩ [2, 0, 1]).ooo.getD [] = [] := by
  have hroom : ∀ order : List (Fin 3), order = [2, 1] ∨ order = [2, 0, 1] →
      ∀ pre ∈ order.inits, (storedGaps ![10, 11, 12, 13] pre).length ≤ 2 := by
    rintro order (rfl | rfl) <;> decide
  have hinj : Function.Injective (![10, 11, 12, 13] : Fin 4 → U64) := by decide
  constructor
  · have h := ooo_gaps_cancel ![10, 11, 12, 13] hinj 2 ⟨none, false⟩ ⟨rfl, rfl⟩ [2, 1] (by decide)
      fun pre hpre => hroom _ (.inl rfl) pre ((mem_inits _ _).mpr hpre)
    exact fun hnil => absurd (h.2.mp hnil 0) (by decide)
  · have h := ooo_gaps_cancel ![10, 11, 12, 13] hinj 2 ⟨none, false⟩ ⟨rfl, rfl⟩ [2, 0, 1] (by decide)
      fun pre hpre => hroom _ (.inr rfl) pre ((mem_inits _ _).mpr hpre)
    exact h.2.mpr (by decide)

end
end Mynfs
