import Mynfs.Lib.Run
import Mynfs.Theorems.PageGroup

/-! Splitting a request into a page group and joining it again. -/

namespace Mynfs

open Linked List

namespace GroupMem
variable {mem mem' : GroupMem} {head p : Nat} {tail : List Nat} {fuel : Nat} {whole : GroupPage}

theorem set_self (req : GroupPage) : (mem.set p req).req p = req := if_pos rfl

theorem set_of_ne {q : Nat} (req : GroupPage) (h : q ≠ p) : (mem.set p req).req q = mem.req q := if_neg h

/-! ### A new member -/

/-- Requests that differ in their links only. -/
structure SameRange (req req' : GroupPage) : Prop where
  head : req'.wbHead = req.wbHead
  offset : req'.wbOffset = req.wbOffset
  pgbase : req'.wbPgbase = req.wbPgbase
  bytes : req'.wbBytes = req.wbBytes

theorem nfsCreateSubreq_spec (hring : Ring mem.next head tail) (hhead : ∀ q ∈ head :: tail, (mem.req q).wbHead = head)
    (hlt : ∀ q ∈ head :: tail, q < mem.fresh) (hp : p ∈ head :: tail) (hfuel : tail.length < fuel) (pgbase offset count : U32) :
    ∃ mem', mem.nfsCreateSubreq fuel p pgbase offset count = some (mem.fresh, mem') ∧ mem'.fresh = mem.fresh + 1 ∧
      Ring mem'.next head (tail ++ [mem.fresh]) ∧ mem'.req mem.fresh = ⟨head, head, offset, pgbase, count⟩ ∧
      ∀ q ∈ head :: tail, SameRange (mem.req q) (mem'.req q) := by
  have hne : ∀ q ∈ head :: tail, q ≠ mem.fresh := fun q hq => (hlt q hq).ne
  -- the memory with the new request, before it is linked
  let mem₁ : GroupMem := (mem.nfsPageCreate pgbase offset count).2
  have hold : ∀ q ∈ head :: tail, mem₁.req q = mem.req q := fun q hq => set_of_ne _ (hne q hq)
  have hring₁ : Ring mem₁.next head tail := hring.congr fun q hq => congrArg GroupPage.wbThisPage (hold q hq)
  have hhead₁ : (mem₁.req p).wbHead = head := by rw [hold p hp, hhead p hp]
  let last := (head :: tail).getLast (cons_ne_nil _ _)
  have hlast : last ∈ head :: tail := getLast_mem _
  have hlastne : last ≠ mem.fresh := hne last hlast
  have hfind : Linked.last mem₁.next head fuel head = some last := last_eq hring₁.seg hring₁.tail_ne hfuel
  have hnext : mem₁.next last = head := hring₁.next_getLast
  have hlasthead : (mem₁.req last).wbHead = head := by rw [hold last hlast, hhead last hlast]
  let mem₂ := mem₁.nfsPageGroupInit mem.fresh (some last)
  have hnew : mem₂.req mem.fresh = ⟨head, head, offset, pgbase, count⟩ := by
    show (if mem.fresh = last then _ else if mem.fresh = mem.fresh then _ else _) = _
    rw [if_neg hlastne.symm, if_pos rfl, show (mem₁.req last).wbThisPage = head from hnext, hlasthead]
    rw [show mem₁.req mem.fresh = _ from set_self _]
  have hlinked : mem₂.req last = { mem₁.req last with wbThisPage := mem.fresh } := by
    show (if last = last then _ else _) = _
    rw [if_pos rfl, set_of_ne _ hlastne]
  have hothers : ∀ q ∈ head :: tail, q ≠ last → mem₂.req q = mem₁.req q := by
    intro q hq hql
    show (if q = last then _ else if q = mem.fresh then _ else _) = _
    rw [if_neg hql, if_neg (hne q hq)]
  refine ⟨mem₂, ?_, rfl, ?_, hnew, fun q hq => ?_⟩
  · show (Linked.last mem₁.next (mem₁.req p).wbHead fuel (mem₁.req p).wbHead).map _ = _
    rw [hhead₁, hfind]
    rfl
  · refine hring₁.insert (fun hmem => hne _ hmem rfl) ?_ ?_ fun q hq => ?_
    · show (mem₂.req last).wbThisPage = mem.fresh
      rw [hlinked]
    · show (mem₂.req mem.fresh).wbThisPage = head
      rw [hnew]
    · refine congrArg GroupPage.wbThisPage (hothers q (dropLast_subset _ hq) ?_)
      rintro rfl
      have hnodup := hring₁.nodup
      rw [← dropLast_append_getLast (cons_ne_nil head tail), nodup_append] at hnodup
      exact hnodup.2.2 _ hq _ (mem_singleton.mpr rfl) rfl
  · by_cases hql : q = last
    · rw [hql, hlinked, ← hold last hlast]
      exact ⟨rfl, rfl, rfl, rfl⟩
    · rw [hothers q hq hql, hold q hq]
      exact ⟨rfl, rfl, rfl, rfl⟩

end GroupMem

/-! ### The union of the ranges -/

namespace GroupPage
variable {whole req req' : GroupPage}

/-- A member of the group of `whole`. -/
structure Within (whole req : GroupPage) : Prop where
  base_le : whole.wbPgbase.toNat ≤ req.wbPgbase.toNat
  end_le : req.wbPgbase.toNat + req.wbBytes.toNat ≤ whole.wbPgbase.toNat + whole.wbBytes.toNat
  offset : req.wbOffset - req.wbPgbase = whole.wbOffset - whole.wbPgbase

theorem Within.refl (req : GroupPage) : Within req req := ⟨le_rfl, le_rfl, rfl⟩

variable (h : Within whole req)
include h

theorem Within.trans (h' : Within req req') : Within whole req' :=
  ⟨h.base_le.trans h'.base_le, h'.end_le.trans h.end_le, h'.offset.trans h.offset⟩

theorem Within.covers {x : Nat} (hx : req.Covers x) : whole.Covers x :=
  ⟨h.base_le.trans hx.1, hx.2.trans_le h.end_le⟩

theorem Within.same (hsame : GroupMem.SameRange req req') : Within whole req' := by
  obtain ⟨hbase, hend, hoffset⟩ := h
  rw [← hsame.pgbase] at hbase
  rw [← hsame.pgbase, ← hsame.bytes] at hend
  rw [← hsame.pgbase, ← hsame.offset] at hoffset
  exact ⟨hbase, hend, hoffset⟩

end GroupPage

namespace GroupMem
variable {mem mem' : GroupMem} {head p : Nat} {tail : List Nat} {fuel : Nat} {whole acc : GroupPage}

theorem toNat_maxU32 (x y : U32) : (maxU32 x y).toNat = max x.toNat y.toNat := by
  unfold maxU32
  split
  next h => exact (max_eq_left (BitVec.le_of_lt h)).symm
  next h => exact (max_eq_right (BitVec.not_lt.mp h)).symm

variable (hfits : whole.wbPgbase.toNat + whole.wbBytes.toNat < 2 ^ 32)
include hfits

/-- Joining two parts covers both. -/
theorem joinSubreq_spec (hacc : whole.Within acc) (hp : whole.Within (mem.req p)) :
    let r := mem.joinSubreq acc p
    whole.Within r ∧ r.Within acc ∧ r.Within (mem.req p) ∧ r.wbThisPage = acc.wbThisPage ∧ r.wbHead = acc.wbHead := by
  intro r
  obtain ⟨hbase, hend, hoffset⟩ := hacc
  obtain ⟨hbase', hend', hoffset'⟩ := hp
  have hsum : ((mem.req p).wbPgbase + (mem.req p).wbBytes).toNat = (mem.req p).wbPgbase.toNat + (mem.req p).wbBytes.toNat :=
    BitVec.toNat_add_of_lt (by omega)
  by_cases hlt : (mem.req p).wbPgbase < acc.wbPgbase
  · -- the range grows at its front
    have hr : r = { acc with
        wbOffset := acc.wbOffset - (acc.wbPgbase - (mem.req p).wbPgbase)
        wbPgbase := (mem.req p).wbPgbase
        wbBytes := maxU32 ((mem.req p).wbPgbase + (mem.req p).wbBytes - (mem.req p).wbPgbase)
          (acc.wbBytes + (acc.wbPgbase - (mem.req p).wbPgbase)) } := by
      show mem.joinSubreq acc p = _
      simp only [joinSubreq, if_pos hlt]
    have hlt' : (mem.req p).wbPgbase.toNat < acc.wbPgbase.toNat := hlt
    have hgrown : (acc.wbBytes + (acc.wbPgbase - (mem.req p).wbPgbase)).toNat =
        acc.wbBytes.toNat + (acc.wbPgbase.toNat - (mem.req p).wbPgbase.toNat) := by
      have hsub := BitVec.toNat_sub_of_le (BitVec.le_of_lt hlt)
      rw [BitVec.toNat_add_of_lt (by rw [hsub]; omega), hsub]
    have hdist : acc.wbOffset - (acc.wbPgbase - (mem.req p).wbPgbase) - (mem.req p).wbPgbase = acc.wbOffset - acc.wbPgbase := by
      rw [sub_sub, sub_add_cancel]
    have hbytes : r.wbBytes.toNat =
        max (mem.req p).wbBytes.toNat (acc.wbBytes.toNat + (acc.wbPgbase.toNat - (mem.req p).wbPgbase.toNat)) := by
      rw [hr, toNat_maxU32, hgrown, add_sub_cancel_left]
    have hpgbase : r.wbPgbase.toNat = (mem.req p).wbPgbase.toNat := by rw [hr]
    have hoff : r.wbOffset - r.wbPgbase = acc.wbOffset - acc.wbPgbase := by rw [hr, hdist]
    refine ⟨⟨?_, ?_, hoff.trans hoffset⟩, ⟨?_, ?_, hoff.symm⟩, ⟨?_, ?_, ?_⟩, by rw [hr], by rw [hr]⟩
    · omega
    · omega
    · omega
    · omega
    · omega
    · omega
    · rw [hoff, hoffset, hoffset']
  · have hr : r = { acc with
        wbBytes := maxU32 ((mem.req p).wbPgbase + (mem.req p).wbBytes - acc.wbPgbase) acc.wbBytes } := by
      show mem.joinSubreq acc p = _
      simp only [joinSubreq, if_neg hlt]
    have hle : acc.wbPgbase.toNat ≤ (mem.req p).wbPgbase.toNat := BitVec.not_lt.mp hlt
    have hback : ((mem.req p).wbPgbase + (mem.req p).wbBytes - acc.wbPgbase).toNat =
        (mem.req p).wbPgbase.toNat + (mem.req p).wbBytes.toNat - acc.wbPgbase.toNat := by
      rw [BitVec.toNat_sub_of_le (by rw [BitVec.le_def, hsum]; omega), hsum]
    have hbytes : r.wbBytes.toNat =
        max ((mem.req p).wbPgbase.toNat + (mem.req p).wbBytes.toNat - acc.wbPgbase.toNat) acc.wbBytes.toNat := by
      rw [hr, toNat_maxU32, hback]
    have hpgbase : r.wbPgbase = acc.wbPgbase := by rw [hr]
    have hoff : r.wbOffset - r.wbPgbase = acc.wbOffset - acc.wbPgbase := by rw [hr]
    refine ⟨⟨?_, ?_, hoff.trans hoffset⟩, ⟨?_, ?_, hoff.symm⟩, ⟨?_, ?_, ?_⟩, by rw [hr], by rw [hr]⟩
    · rwa [hpgbase]
    · rw [hpgbase]
      omega
    · rw [hpgbase]
    · rw [hpgbase]
      omega
    · rwa [hpgbase]
    · rw [hpgbase]
      omega
    · rw [hoff, hoffset, hoffset']

theorem foldl_joinSubreq_spec (ps : List Nat)
    (acc : GroupPage) (hacc : whole.Within acc) (hps : ∀ p ∈ ps, whole.Within (mem.req p)) : let r := ps.foldl mem.joinSubreq acc
    whole.Within r ∧ r.Within acc ∧ (∀ p ∈ ps, r.Within (mem.req p)) ∧ r.wbThisPage = acc.wbThisPage ∧
      r.wbHead = acc.wbHead := by
  induction ps generalizing acc with
  | nil => exact ⟨hacc, .refl acc, fun p hp => absurd hp not_mem_nil, rfl, rfl⟩
  | cons p ps ih =>
    obtain ⟨hacc₁, hold, hnew, hthis, hhead⟩ := joinSubreq_spec hfits hacc (hps p mem_cons_self)
    obtain ⟨hr, hwithin, hrest, hthis', hhead'⟩ := ih _ hacc₁ fun q hq => hps q (mem_cons_of_mem p hq)
    refine ⟨hr, hwithin.trans hold, fun q hq => ?_, hthis'.trans hthis, hhead'.trans hhead⟩
    rcases mem_cons.mp hq with rfl | hq
    · exact hwithin.trans hnew
    · exact hrest q hq

omit hfits

theorem eq_of_within {r : GroupPage} (h : whole.Within r) (hall : ∀ x, whole.Covers x → r.Covers x) :
    r.wbPgbase = whole.wbPgbase ∧ r.wbBytes = whole.wbBytes ∧ r.wbOffset = whole.wbOffset := by
  have hends : r.wbPgbase.toNat = whole.wbPgbase.toNat ∧ r.wbBytes.toNat = whole.wbBytes.toNat := by
    obtain ⟨hbase, hend, -⟩ := h
    by_cases hempty : whole.wbBytes.toNat = 0
    · omega
    · have hfirst := hall whole.wbPgbase.toNat ⟨le_rfl, by omega⟩
      have hlast := hall (whole.wbPgbase.toNat + whole.wbBytes.toNat - 1) ⟨by omega, by omega⟩
      have h₁ := hfirst.1
      have h₂ := hlast.2
      omega
  have hpgbase : r.wbPgbase = whole.wbPgbase := BitVec.eq_of_toNat_eq hends.1
  refine ⟨hpgbase, BitVec.eq_of_toNat_eq hends.2, ?_⟩
  have hoffset := h.offset
  rw [hpgbase] at hoffset
  exact sub_left_injective hoffset

/-! ### Joining -/

theorem destroyUnlinkedSubrequests_spec (tail : List Nat) (mem : GroupMem) (p : Nat) (hseg : Seg mem.next p tail head)
    (hnodup : tail.Nodup) (hne : ∀ q ∈ tail, q ≠ head) (hfuel : tail.length ≤ fuel) :
    ∃ mem', nfsDestroyUnlinkedSubrequests head fuel (if p = head then none else some p) mem = some mem' ∧
      ∀ q, q ∉ tail → mem'.req q = mem.req q := by
  induction tail generalizing mem p fuel with
  | nil =>
    rw [if_pos (show p = head from hseg)]
    exact ⟨mem, by cases fuel <;> rfl, fun q _ => rfl⟩
  | cons x tail ih =>
    obtain _ | fuel := fuel
    · exact absurd hfuel (Nat.not_succ_le_zero _)
    obtain ⟨rfl, hseg⟩ := hseg
    rw [nodup_cons] at hnodup
    rw [if_neg (hne p mem_cons_self)]
    have hseg' : Seg (mem.set p { mem.req p with wbThisPage := p, wbHead := p }).next (mem.next p) tail head :=
      hseg.congr fun q hq => congrArg GroupPage.wbThisPage (set_of_ne _ fun heq => hnodup.1 (heq ▸ hq))
    obtain ⟨mem', hdestroy, hkept⟩ := ih _ _ hseg' hnodup.2 (fun q hq => hne q (mem_cons_of_mem p hq))
      (Nat.le_of_succ_le_succ hfuel)
    refine ⟨mem', hdestroy, fun q hq => ?_⟩
    rw [mem_cons, not_or] at hq
    rw [hkept q hq.2, set_of_ne _ hq.1]

theorem nfsJoinPageGroup_spec (hring : Ring mem.next head tail) (hfits : whole.wbPgbase.toNat + whole.wbBytes.toNat < 2 ^ 32)
    (hwithin : ∀ p ∈ head :: tail, whole.Within (mem.req p)) (hall : ∀ x, whole.Covers x → mem.CoveredBy (head :: tail) x)
    (hfuel : tail.length < fuel) : ∃ mem', mem.nfsJoinPageGroup fuel head = some mem' ∧
      mem'.req head = { mem.req head with
        wbThisPage := head, wbPgbase := whole.wbPgbase, wbBytes := whole.wbBytes, wbOffset := whole.wbOffset } := by
  obtain ⟨hr, hold, hnew, hthis, hhead⟩ := foldl_joinSubreq_spec hfits tail (mem.req head)
    (hwithin head mem_cons_self) fun p hp => hwithin p (mem_cons_of_mem head hp)
  have hloop : forEach mem.next head mem.joinSubreq fuel (mem.next head) (mem.req head) =
      some (tail.foldl mem.joinSubreq (mem.req head)) := forEach_eq hring.seg hring.tail_ne hfuel
  unfold nfsJoinPageGroup
  rw [hloop, Option.bind_some]
  generalize tail.foldl mem.joinSubreq (mem.req head) = r at hr hold hnew hthis hhead ⊢
  obtain ⟨hpgbase, hbytes, hoffset⟩ : r.wbPgbase = whole.wbPgbase ∧ r.wbBytes = whole.wbBytes ∧
      r.wbOffset = whole.wbOffset := by
    refine eq_of_within hr fun x hx => ?_
    obtain ⟨p, hp, hcovers⟩ := hall x hx
    rcases mem_cons.mp hp with rfl | hp
    · exact hold.covers hcovers
    · exact (hnew p hp).covers hcovers
  have hjoined : ∀ this, ({ r with wbThisPage := this } : GroupPage) = { mem.req head with
      wbThisPage := this, wbPgbase := whole.wbPgbase, wbBytes := whole.wbBytes, wbOffset := whole.wbOffset } := by
    intro this
    simp only [← hpgbase, ← hbytes, ← hoffset, ← hhead]
  have hnodup := nodup_cons.mp hring.nodup
  -- the list of subrequests is that of the ring, whether or not it is empty
  have hdestroy : ∃ mem', nfsDestroyUnlinkedSubrequests head fuel (if mem.next head = head then none else some (mem.next head))
      (mem.set head { r with wbThisPage := head }) = some mem' ∧
        ∀ q, q ∉ tail → mem'.req q = (mem.set head { r with wbThisPage := head }).req q := by
    refine destroyUnlinkedSubrequests_spec tail _ _ (hring.seg.congr fun q hq => ?_) hnodup.2 hring.tail_ne hfuel.le
    exact congrArg GroupPage.wbThisPage (set_of_ne _ (hring.tail_ne q hq))
  obtain ⟨mem', hmem', hkept⟩ := hdestroy
  refine ⟨mem', ?_, by rw [hkept head hnodup.1, set_self, hjoined head]⟩
  rw [show r.wbThisPage = mem.next head from hthis]
  by_cases halone : mem.next head = head
  · rw [if_pos halone] at hmem'
    have hr : ({ r with wbThisPage := head } : GroupPage) = r := by
      rw [← show mem.next head = head from halone]
      exact congrArg (fun this => ({ r with wbThisPage := this } : GroupPage)) hthis.symm
    rw [hr] at hmem'
    rw [if_neg (not_not.mpr halone)]
    exact hmem'
  · rw [if_neg halone] at hmem'
    rw [if_pos halone]
    exact hmem'

/-! ### Splitting -/

/-- The group is a ring of requests that lie within `whole` and cover it together. -/
structure Tiled (whole : GroupPage) (mem : GroupMem) (head : Nat) (tail : List Nat) : Prop where
  ring : Ring mem.next head tail
  head_eq : ∀ p ∈ head :: tail, (mem.req p).wbHead = head
  lt_fresh : ∀ p ∈ head :: tail, p < mem.fresh
  within : ∀ p ∈ head :: tail, whole.Within (mem.req p)
  covered : ∀ x, whole.Covers x → mem.CoveredBy (head :: tail) x

/-- The loop is at the request itself, or at a sub-request that has the first bytes of it. -/
structure Working (mem : GroupMem) (ps : List Nat) (loop : SplitLoop) : Prop where
  req : loop.req ∈ ps
  size : loop.subreqSize = (mem.req loop.subreq).wbBytes
  sub : loop.subreq ≠ loop.req → loop.subreq ∈ ps ∧ (mem.req loop.subreq).wbPgbase = (mem.req loop.req).wbPgbase ∧
    (mem.req loop.subreq).wbBytes.toNat ≤ (mem.req loop.req).wbBytes.toNat

theorem Working.self {ps : List Nat} (h : p ∈ ps) : Working mem ps ⟨p, p, (mem.req p).wbBytes⟩ :=
  ⟨h, rfl, fun hne => absurd rfl hne⟩

namespace Tiled

theorem length_lt (h : Tiled whole mem head tail) : tail.length < mem.fresh + 1 := by
  have hsub : (head :: tail).Subperm (range mem.fresh) :=
    h.ring.nodup.subperm fun p hp => mem_range.mpr (h.lt_fresh p hp)
  have hlen := hsub.length_le
  rw [length_range, length_cons] at hlen
  omega

variable {size : U32}

theorem create (h : Tiled whole mem head tail) (hp : p ∈ head :: tail) (hsize : size.toNat ≤ (mem.req p).wbBytes.toNat) :
    ∃ mem', mem.nfsCreateSubreq (mem.fresh + 1) p (mem.req p).wbPgbase (mem.req p).wbOffset size = some (mem.fresh, mem') ∧
      Tiled whole mem' head (tail ++ [mem.fresh]) ∧ Working mem' (head :: (tail ++ [mem.fresh])) ⟨p, mem.fresh, size⟩ := by
  obtain ⟨mem', hcreate, hfresh, hring, hnew, hold⟩ :=
    nfsCreateSubreq_spec h.ring h.head_eq h.lt_fresh hp h.length_lt (mem.req p).wbPgbase (mem.req p).wbOffset size
  have hmem : ∀ q, q ∈ head :: (tail ++ [mem.fresh]) ↔ q ∈ head :: tail ∨ q = mem.fresh := by
    intro q
    simp only [mem_cons, mem_append, not_mem_nil, or_false, or_assoc]
  refine ⟨mem', hcreate, ⟨hring, fun q hq => ?_, fun q hq => ?_, fun q hq => ?_, fun x hx => ?_⟩, ?_⟩
  · rcases (hmem q).mp hq with hq | rfl
    · exact (hold q hq).head.trans (h.head_eq q hq)
    · rw [hnew]
  · rw [hfresh]
    rcases (hmem q).mp hq with hq | rfl
    · exact Nat.lt_succ_of_lt (h.lt_fresh q hq)
    · exact Nat.lt_succ_self _
  · rcases (hmem q).mp hq with hq | rfl
    · exact (h.within q hq).same (hold q hq)
    · obtain ⟨hbase, hend, hoffset⟩ := h.within p hp
      rw [hnew]
      refine ⟨hbase, ?_, hoffset⟩
      show (mem.req p).wbPgbase.toNat + size.toNat ≤ _
      omega
  · obtain ⟨q, hq, hcovers⟩ := h.covered x hx
    refine ⟨q, (hmem q).mpr (.inl hq), ?_⟩
    unfold GroupPage.Covers
    rw [(hold q hq).pgbase, (hold q hq).bytes]
    exact hcovers
  · refine ⟨(hmem p).mpr (.inl hp), by rw [hnew], fun _ => ⟨(hmem _).mpr (.inr rfl), ?_, ?_⟩⟩
    · rw [hnew, (hold p hp).pgbase]
    · rw [hnew, (hold p hp).bytes]
      exact hsize

theorem advance (h : Tiled whole mem head tail) (hfits : whole.wbPgbase.toNat + whole.wbBytes.toNat < 2 ^ 32)
    (hp : p ∈ head :: tail) {sub : Nat} (hsub : sub ∈ head :: tail) (hne : sub ≠ p)
    (hbase : (mem.req sub).wbPgbase = (mem.req p).wbPgbase) (hsize : (mem.req sub).wbBytes = size)
    (hle : size.toNat ≤ (mem.req p).wbBytes.toNat) : Tiled whole (mem.set p { mem.req p with
      wbPgbase := (mem.req p).wbPgbase + size, wbBytes := (mem.req p).wbBytes - size,
      wbOffset := (mem.req p).wbOffset + size }) head tail := by
  obtain ⟨hfrom, hto, hoffset⟩ := h.within p hp
  have hpgbase : ((mem.req p).wbPgbase + size).toNat = (mem.req p).wbPgbase.toNat + size.toNat :=
    BitVec.toNat_add_of_lt (by omega)
  have hbytes : ((mem.req p).wbBytes - size).toNat = (mem.req p).wbBytes.toNat - size.toNat :=
    BitVec.toNat_sub_of_le hle
  refine ⟨h.ring.congr fun q hq => ?_, fun q hq => ?_, h.lt_fresh, fun q hq => ?_, fun x hx => ?_⟩
  · by_cases hqp : q = p
    · show ((mem.set p _).req q).wbThisPage = (mem.req q).wbThisPage
      rw [hqp, set_self]
    · exact congrArg GroupPage.wbThisPage (set_of_ne _ hqp)
  · by_cases hqp : q = p
    · rw [hqp, set_self]
      exact h.head_eq p hp
    · rw [set_of_ne _ hqp]
      exact h.head_eq q hq
  · by_cases hqp : q = p
    · rw [hqp, set_self]
      refine ⟨?_, ?_, ?_⟩
      · show _ ≤ ((mem.req p).wbPgbase + size).toNat
        omega
      · show ((mem.req p).wbPgbase + size).toNat + ((mem.req p).wbBytes - size).toNat ≤ _
        omega
      · rw [← hoffset]
        exact add_sub_add_right_eq_sub _ _ _
    · rw [set_of_ne _ hqp]
      exact h.within q hq
  · obtain ⟨q, hq, hcovers⟩ := h.covered x hx
    by_cases hqp : q = p
    · rw [hqp] at hcovers
      by_cases hx : x < (mem.req p).wbPgbase.toNat + size.toNat
      · refine ⟨sub, hsub, ?_⟩
        unfold GroupPage.Covers
        rw [set_of_ne _ hne, hbase, hsize]
        exact ⟨hcovers.1, hx⟩
      · refine ⟨p, hp, ?_⟩
        unfold GroupPage.Covers
        rw [set_self, hpgbase, hbytes]
        have hend := hcovers.2
        omega
    · refine ⟨q, hq, ?_⟩
      rw [set_of_ne _ hqp]
      exact hcovers

end Tiled

end GroupMem

namespace SplitGroup
open GroupMem
variable {s t : SplitGroup} {whole : GroupPage} {tail : List Nat}

def Splits (whole : GroupPage) (s : SplitGroup) (tail : List Nat) : Prop :=
  Tiled whole s.mem s.head tail ∧ ∀ loop, s.loop = some loop → Working s.mem (s.head :: tail) loop

theorem members_eq (h : Tiled whole s.mem s.head tail) : s.members = some (s.head :: tail) := by
  have hfold : ∀ (ps qs : List Nat), ps.foldl (fun ps p => ps ++ [p]) qs = qs ++ ps := by
    intro ps
    induction ps with
    | nil => simp
    | cons p ps ih => simp [ih]
  unfold members fuel
  rw [forEach_eq h.ring.seg h.ring.tail_ne h.length_lt, hfold]
  rfl

theorem createSubreq_spec (h : Tiled whole s.mem s.head tail) {req : Nat} (hreq : req ∈ s.head :: tail) {size : U32}
    (hsize : size.toNat ≤ (s.mem.req req).wbBytes.toNat) :
    ∃ t, s.createSubreq req size = some t ∧ t.head = s.head ∧ Splits whole t (tail ++ [s.mem.fresh]) := by
  obtain ⟨mem', hcreate, htiled, hworking⟩ := h.create hreq hsize
  refine ⟨{ s with mem := mem', loop := some ⟨req, s.mem.fresh, size⟩ }, ?_, rfl, htiled, ?_⟩
  · unfold createSubreq fuel
    rw [hcreate]
    rfl
  · rintro loop hloop
    cases hloop
    exact hworking

section
variable (hfits : whole.wbPgbase.toNat + whole.wbBytes.toNat < 2 ^ 32)
include hfits

theorem iterate_spec (h : Tiled whole s.mem s.head tail)
    {loop : SplitLoop} (hloop : Working s.mem (s.head :: tail) loop) (answers : SplitAnswers) :
    ∃ t tail', s.iterate loop answers = some t ∧ t.head = s.head ∧ Splits whole t tail' := by
  have hidle : ∀ mem tail, Tiled whole mem s.head tail → Splits whole { s with mem := mem, loop := none } tail :=
    fun mem tail h => ⟨h, fun loop hloop => by cases hloop⟩
  have hself : ∀ mem, Tiled whole mem s.head tail →
      Splits whole { s with mem := mem, loop := some ⟨loop.req, loop.req, (mem.req loop.req).wbBytes⟩ } tail := by
    intro mem h
    refine ⟨h, fun loop' hloop' => ?_⟩
    cases hloop'
    exact .self hloop.req
  obtain ⟨hreq, hsize, hsub⟩ := hloop
  unfold iterate
  dsimp only
  generalize hs : (if answers.size < (s.mem.req loop.subreq).wbBytes then answers.size
    else (s.mem.req loop.subreq).wbBytes) = size
  have hle : size.toNat ≤ (s.mem.req loop.subreq).wbBytes.toNat := by
    rw [← hs]
    split
    next hlt => exact BitVec.le_of_lt hlt
    · exact le_rfl
  split
  next heq =>
    split
    · exact ⟨_, tail, rfl, rfl, hidle s.mem tail h⟩
    next hne =>
      obtain ⟨hmem, hbase, hbytes⟩ := hsub hne
      rw [hsize] at heq
      have hadvanced := h.advance hfits hreq hmem hne hbase heq.symm (heq ▸ hbytes)
      have hself' := hself _ hadvanced
      rw [set_self] at hself'
      exact ⟨_, tail, rfl, rfl, hself'⟩
  · have hgiven : Splits whole { s with loop := some (if loop.subreq ≠ loop.req then
        ⟨loop.req, loop.req, (s.mem.req loop.req).wbBytes⟩ else loop) } tail := by
      split
      · exact hself s.mem h
      · refine ⟨h, fun loop' hloop' => ?_⟩
        cases hloop'
        exact ⟨hreq, hsize, hsub⟩
    split
    · cases answers.goOn with
      | true => exact ⟨_, tail, rfl, rfl, hgiven⟩
      | false => exact ⟨_, tail, rfl, rfl, hidle s.mem tail h⟩
    · split
      · have hroom : size.toNat ≤ (s.mem.req loop.req).wbBytes.toNat := by
          by_cases hne : loop.subreq = loop.req
          · rwa [hne] at hle
          · exact hle.trans (hsub hne).2.2
        have hsame : (if loop.subreq ≠ loop.req then (⟨loop.req, loop.req, (s.mem.req loop.req).wbBytes⟩ : SplitLoop)
            else loop).req = loop.req := by
          split <;> rfl
        rw [hsame]
        obtain ⟨t, hcreate, hhead, hsplits⟩ := createSubreq_spec h hreq hroom
        exact ⟨t, _, hcreate, hhead, hsplits⟩
      · exact ⟨_, tail, rfl, rfl, hidle s.mem tail h⟩

/-- Splits keep the group a tiling of the whole request. -/
theorem splits_step {e : SplitEvent}
    (h : Splits whole s tail) (hs : s.step e = some t) : t.head = s.head ∧ ∃ tail', Splits whole t tail' := by
  obtain ⟨htiled, hworking⟩ := h
  have hmember : ∀ req, (s.loop.isNone && s.members.any (req ∈ ·)) → req ∈ s.head :: tail := by
    intro req hreq
    rw [members_eq htiled, Bool.and_eq_true] at hreq
    exact of_decide_eq_true hreq.2
  cases e with
  | mirror req =>
    simp only [step] at hs
    obtain ⟨hreq, hs⟩ := Machine.of_guard hs
    obtain ⟨t', hcreate, hhead, hsplits⟩ := createSubreq_spec htiled (hmember req hreq) le_rfl
    rw [hcreate] at hs
    cases hs
    exact ⟨hhead, _, hsplits.1, fun loop hloop => by cases hloop⟩
  | begin req =>
    simp only [step] at hs
    obtain ⟨hreq, rfl⟩ := Machine.of_guard_some hs
    refine ⟨rfl, tail, htiled, fun loop hloop => ?_⟩
    cases hloop
    exact .self (hmember req hreq)
  | iterate answers =>
    obtain ⟨loop, hloop, hs⟩ := Option.bind_eq_some_iff.mp hs
    obtain ⟨t', tail', hiterate, hhead, hsplits⟩ := iterate_spec hfits htiled (hworking loop hloop) answers
    rw [hiterate] at hs
    cases hs
    exact ⟨hhead, tail', hsplits⟩

theorem splits_exec {events : List SplitEvent} (h : Splits whole s tail) (hrun : Machine.exec step s events = some t) :
    t.head = s.head ∧ ∃ tail', Splits whole t tail' := by
  refine Machine.exec_invariant (I := fun t => t.head = s.head ∧ ∃ tail', Splits whole t tail') ?_ ⟨rfl, tail, h⟩ hrun
  rintro u e v ⟨hhead, tail', hu⟩ hstep
  obtain ⟨hhead', htail⟩ := splits_step hfits hu hstep
  exact ⟨hhead'.trans hhead, htail⟩

end

/-- A request alone, split again and again: its group covers what it covered, at one distance of file and memory,
    `nfs_join_page_group` gives it back, and a call under way is never stuck. -/
theorem joinPageGroup_restores (mem : GroupMem) (head : Nat) (hlt : head < mem.fresh) (hthis : mem.next head = head)
    (hhead : (mem.req head).wbHead = head)
    (hfits : (mem.req head).wbPgbase.toNat + (mem.req head).wbBytes.toNat < 2 ^ 32) (events : List SplitEvent)
    (s : SplitGroup) (hrun : Machine.exec step { mem, head } events = some s) :
    ∃ tail, Ring s.mem.next head tail ∧ (∀ x, s.mem.CoveredBy (head :: tail) x ↔ (mem.req head).Covers x) ∧
      (∀ p ∈ head :: tail, (s.mem.req p).wbOffset - (s.mem.req p).wbPgbase =
        (mem.req head).wbOffset - (mem.req head).wbPgbase) ∧
      (∃ rounds, ∀ fuel, rounds ≤ fuel → ∃ joined, s.mem.nfsJoinPageGroup fuel head = some joined ∧
        joined.req head = mem.req head ∧ Ring joined.next head []) ∧
      ∀ answers, s.loop.isSome → (s.step (.iterate answers)).isSome := by
  have hmem : ∀ p, p ∈ [head] → p = head := fun p => mem_singleton.mp
  have hstart : Splits (mem.req head) { mem, head } [] := by
    refine ⟨⟨.single hthis, fun p hp => ?_, fun p hp => ?_, fun p hp => ?_, fun x hx => ?_⟩, fun loop hloop => ?_⟩
    · rw [hmem p hp, hhead]
    · rwa [hmem p hp]
    · rw [hmem p hp]
      exact .refl _
    · exact ⟨head, mem_singleton.mpr rfl, hx⟩
    · cases hloop
  obtain ⟨hsame, tail, htiled, hworking⟩ := splits_exec hfits hstart hrun
  have hgroup : Tiled (mem.req head) s.mem head tail := by
    rw [show s.head = head from hsame] at htiled
    exact htiled
  refine ⟨tail, hgroup.ring, fun x => ⟨?_, hgroup.covered x⟩, fun p hp => (hgroup.within p hp).offset, ?_,
    fun answers hloop => ?_⟩
  · rintro ⟨p, hp, hcovers⟩
    exact (hgroup.within p hp).covers hcovers
  · refine ⟨tail.length + 1, fun fuel hfuel => ?_⟩
    obtain ⟨joined, hjoin, hrestored⟩ := nfsJoinPageGroup_spec hgroup.ring hfits hgroup.within hgroup.covered hfuel
    have hback : joined.req head = mem.req head := by
      rw [hrestored]
      have hself : (mem.req head).wbThisPage = head := hthis
      have hheadreq : (s.mem.req head).wbHead = head := hgroup.head_eq head mem_cons_self
      generalize mem.req head = whole at hself hhead
      cases whole
      simp only at hself hhead
      simp only [hself, hhead, hheadreq]
    refine ⟨joined, hjoin, hback, .single ?_⟩
    show (joined.req head).wbThisPage = head
    rw [hback]
    exact hthis
  · obtain ⟨loop, hloop⟩ := Option.isSome_iff_exists.mp hloop
    obtain ⟨t, -, hiterate, -⟩ := iterate_spec hfits htiled (hworking loop hloop) answers
    simp only [step, hloop, Option.bind_some, hiterate, Option.isSome_some]

def hundredBytes : GroupMem := { req := fun _ => ⟨0, 0, 16, 16, 100⟩, fresh := 1 }

def inTwoParts : List SplitEvent :=
  [.mirror 0, .begin 0, .iterate { size := 40 }, .iterate { size := 40 }, .iterate { size := 60 }]

theorem joinPageGroup_restores_inTwoParts :
    ∃ s, Machine.exec step { mem := hundredBytes, head := 0 } inTwoParts = some s ∧
      (s.mem.req 0).wbPgbase = 56 ∧ ∃ rounds, ∀ fuel, rounds ≤ fuel → ∃ joined, s.mem.nfsJoinPageGroup fuel 0 = some joined ∧
        joined.req 0 = ⟨0, 0, 16, 16, 100⟩ := by
  refine Machine.exists_exec (P := fun s => (s.mem.req 0).wbPgbase = 56) (by decide) fun s hrun hpgbase => ?_
  obtain ⟨tail, -, -, -, ⟨rounds, hjoin⟩, -⟩ :=
    joinPageGroup_restores hundredBytes 0 (by decide) rfl rfl (by decide) inTwoParts s hrun
  refine ⟨hpgbase, rounds, fun fuel hfuel => ?_⟩
  obtain ⟨joined, hjoined, hback, -⟩ := hjoin fuel hfuel
  exact ⟨joined, hjoined, hback⟩

end SplitGroup

end Mynfs
