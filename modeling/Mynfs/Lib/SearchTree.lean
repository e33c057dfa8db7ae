import Mathlib.Data.List.Basic
import Mathlib.Data.List.Perm.Basic
import Mathlib.Tactic

/-! Binary search trees by a comparison of keys. Balancing and erasing are known by their effect on the elements. -/

namespace SearchTree

/-- Binary trees. -/
inductive BinTree (α : Type) where
  | nil
  | node (left : BinTree α) (x : α) (right : BinTree α)
deriving DecidableEq

variable {α κ : Type}

def BinTree.toList : BinTree α → List α
  | .nil => []
  | .node l x r => l.toList ++ x :: r.toList

section
variable (key : α → κ) (cmp : κ → κ → Ordering)

def search (k : κ) : BinTree α → Option α
  | .nil => none
  | .node l x r =>
    match cmp k (key x) with
    | .lt => search k l
    | .gt => search k r
    | .eq => some x

/-- Put `new`, which has the key `k`, in the place of the element with that key or at the leaf where it is missing. -/
def link (k : κ) (new : α) : BinTree α → BinTree α
  | .nil => .node .nil new .nil
  | .node l x r =>
    match cmp k (key x) with
    | .lt => .node (link k new l) x r
    | .gt => .node l x (link k new r)
    | .eq => .node l new r

def Ascending (xs : List α) : Prop := xs.Pairwise fun x y => cmp (key x) (key y) = .lt

end

/-- Operations that keep a tree balanced, by what they do to the elements in order. -/
structure Ops (α : Type) [DecidableEq α] where
  rebalance : BinTree α → BinTree α
  erase : BinTree α → α → BinTree α
  toList_rebalance : ∀ t, (rebalance t).toList = t.toList
  toList_erase : ∀ t x, (erase t x).toList = t.toList.erase x

/-- A tree that leans to the right. -/
def spine : List α → BinTree α
  | [] => .nil
  | x :: xs => .node .nil x (spine xs)

theorem toList_spine : ∀ xs : List α, (spine xs).toList = xs
  | [] => rfl
  | x :: xs => congrArg (x :: ·) (toList_spine xs)

/-- Operations that do not balance at all. -/
instance [DecidableEq α] : Inhabited (Ops α) where
  default := ⟨id, fun t x => spine (t.toList.erase x), fun _ => rfl, fun t x => toList_spine (t.toList.erase x)⟩

section
variable {key : α → κ} {cmp : κ → κ → Ordering} {t l r : BinTree α} {k : κ} {x y new : α}

theorem ascending_node_iff [Std.TransCmp cmp] : Ascending key cmp (BinTree.node l x r).toList ↔ Ascending key cmp l.toList ∧
    Ascending key cmp r.toList ∧ (∀ y ∈ l.toList, cmp (key y) (key x) = .lt) ∧
      ∀ z ∈ r.toList, cmp (key x) (key z) = .lt := by
  unfold Ascending
  rw [BinTree.toList, List.pairwise_append, List.pairwise_cons]
  constructor
  · rintro ⟨hl, ⟨hx, hr⟩, hlr⟩
    exact ⟨hl, hr, fun y hy => hlr y hy x List.mem_cons_self, hx⟩
  · rintro ⟨hl, hr, hlx, hxr⟩
    refine ⟨hl, ⟨hxr, hr⟩, fun y hy z hz => ?_⟩
    rcases List.mem_cons.mp hz with rfl | hz
    · exact hlx y hy
    · exact Std.TransCmp.lt_trans (hlx y hy) (hxr z hz)

theorem mem_of_search [Std.LawfulEqCmp cmp] (h : search key cmp k t = some x) : x ∈ t.toList ∧ key x = k := by
  induction t with
  | nil => cases h
  | node l y r ihl ihr =>
    unfold search at h
    rw [BinTree.toList, List.mem_append, List.mem_cons]
    split at h
    · exact (ihl h).imp_left .inl
    · exact (ihr h).imp_left fun hx => .inr (.inr hx)
    next heq =>
      cases h
      exact ⟨.inr (.inl rfl), (Std.LawfulEqCmp.eq_of_compare heq).symm⟩

/-- A new key adds one element. -/
theorem link_perm_of_none : ∀ {t : BinTree α}, search key cmp k t = none → (link key cmp k new t).toList.Perm (new :: t.toList)
  | .nil, _ => .refl _
  | .node l x r, h => by
    unfold search at h
    unfold link
    split at h
    next hlt =>
      exact (link_perm_of_none h).append_right (x :: r.toList)
    next hgt =>
      refine (((link_perm_of_none h).cons x).append_left l.toList).trans ?_
      refine (List.perm_middle.trans (.cons x List.perm_middle)).trans ?_
      exact (List.Perm.swap new x _).trans (List.Perm.cons new List.perm_middle.symm)
    next heq => cases h

/-- A key that is there has its element replaced. -/
theorem link_of_some : ∀ {t : BinTree α}, search key cmp k t = some x →
    ∃ as bs, t.toList = as ++ x :: bs ∧ (link key cmp k new t).toList = as ++ new :: bs
  | .node l y r, h => by
    unfold search at h
    unfold link
    split at h
    next hlt =>
      obtain ⟨as, bs, ht, hlink⟩ := link_of_some h
      simp only [BinTree.toList, ht, hlink]
      exact ⟨as, bs ++ y :: r.toList, by simp, by simp⟩
    next hgt =>
      obtain ⟨as, bs, ht, hlink⟩ := link_of_some h
      simp only [BinTree.toList, ht, hlink]
      exact ⟨l.toList ++ y :: as, bs, by simp, by simp⟩
    next heq =>
      cases h
      exact ⟨l.toList, r.toList, rfl, rfl⟩

theorem mem_link : ∀ {t : BinTree α}, y ∈ (link key cmp k new t).toList → y = new ∨ y ∈ t.toList
  | .nil, h => .inl (List.mem_singleton.mp h)
  | .node l x r, h => by
    unfold link at h
    split at h <;> simp only [BinTree.toList, List.mem_append, List.mem_cons] at h ⊢
    · rcases h with h | h | h
      · exact (mem_link h).imp id .inl
      · exact .inr (.inr (.inl h))
      · exact .inr (.inr (.inr h))
    · rcases h with h | h | h
      · exact .inr (.inl h)
      · exact .inr (.inr (.inl h))
      · exact (mem_link h).imp id fun h => .inr (.inr h)
    · rcases h with h | h | h
      · exact .inr (.inl h)
      · exact .inl h
      · exact .inr (.inr (.inr h))

/-- Linking keeps the order. -/
theorem ascending_link [Std.TransCmp cmp] [Std.LawfulEqCmp cmp] (hkey : key new = k) :
    ∀ {t : BinTree α}, Ascending key cmp t.toList → Ascending key cmp (link key cmp k new t).toList
  | .nil, _ => List.pairwise_singleton _ _
  | .node l x r, h => by
    obtain ⟨hl, hr, hlx, hxr⟩ := ascending_node_iff.mp h
    unfold link
    split
    next hlt =>
      refine ascending_node_iff.mpr ⟨ascending_link hkey hl, hr, fun y hy => ?_, hxr⟩
      rcases mem_link hy with rfl | hy
      · rw [hkey]
        exact hlt
      · exact hlx y hy
    next hgt =>
      refine ascending_node_iff.mpr ⟨hl, ascending_link hkey hr, hlx, fun z hz => ?_⟩
      rcases mem_link hz with rfl | hz
      · rw [hkey]
        exact Std.OrientedCmp.gt_iff_lt.mp hgt
      · exact hxr z hz
    next heq =>
      obtain rfl := Std.LawfulEqCmp.eq_of_compare heq
      exact ascending_node_iff.mpr ⟨hl, hr, fun y hy => hkey ▸ hlx y hy, fun z hz => hkey ▸ hxr z hz⟩

theorem mem_link_self : ∀ t : BinTree α, new ∈ (link key cmp k new t).toList
  | .nil => List.mem_cons_self
  | .node l x r => by
    unfold link
    split
    · exact List.mem_append_left _ (mem_link_self l)
    · exact List.mem_append_right _ (List.mem_cons_of_mem x (mem_link_self r))
    · exact List.mem_append_right _ List.mem_cons_self

theorem Ascending.eq_of_key_eq [Std.TransCmp cmp] {xs : List α} (h : Ascending key cmp xs) (hx : x ∈ xs) (hy : y ∈ xs)
    (hkey : key x = key y) : x = y := by
  have hself : ∀ k, cmp k k = .eq := fun _ => Std.ReflCmp.compare_self
  have hpair : xs.Pairwise fun x y => key x = key y → x = y := h.imp fun hlt hkey => by
    rw [hkey, hself] at hlt
    cases hlt
  have hflip : xs.Pairwise (flip fun x y => key x = key y → x = y) := h.imp fun hlt hkey => by
    rw [hkey, hself] at hlt
    cases hlt
  exact hpair.forall_of_forall_of_flip (fun _ _ _ => rfl) hflip hx hy hkey

theorem mem_link_of_ascending [Std.TransCmp cmp] [Std.LawfulEqCmp cmp] (h : Ascending key cmp t.toList)
    (hkey : key new = k) (hy : y ∈ (link key cmp k new t).toList) : y = new ∨ y ∈ t.toList ∧ key y ≠ k := by
  by_cases heq : key y = k
  · exact .inl ((ascending_link hkey h).eq_of_key_eq hy (mem_link_self t) (heq.trans hkey.symm))
  · exact (mem_link hy).imp id fun hmem => ⟨hmem, heq⟩

end

end SearchTree
