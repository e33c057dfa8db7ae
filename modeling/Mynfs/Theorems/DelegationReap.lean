import Mathlib.Data.List.Nodup
import Mynfs.Delegation.Reap

/-! The scans for expired and for unclaimed delegations end, and what they leave on the list. -/

namespace Mynfs

open List
open Prod (fst mk snd)
variable {l l' : List ReapDeleg} {p : ReapDeleg → Bool} {i gen : Nat} {tests : Nat → ExpiredTest} {s : ExpiredScan}

theorem map_grabFirst {β : Type} {f : ReapDeleg → β} (hf : ∀ d, f { d with inodeFreeing := true } = f d) :
    ∀ l : List ReapDeleg, (grabFirst p l).1.map f = l.map f
  | [] => rfl
  | d :: l => by
    unfold grabFirst
    split
    · split
      · rfl
      · rw [map_cons, map_cons, hf, map_grabFirst hf l]
    · rw [map_cons, map_cons, map_grabFirst hf l]

theorem grabFirst_some : ∀ {l : List ReapDeleg}, (grabFirst p l).2 = some i → ∃ d ∈ (grabFirst p l).1, d.id = i ∧ p d
  | [], h => nomatch h
  | d :: l, h => by
    unfold grabFirst at h ⊢
    split at h
    next hdue =>
      rw [if_pos hdue]
      split at h
      next hgrab =>
        rw [if_pos hgrab]
        exact ⟨d, mem_cons_self, Option.some.inj h, hdue⟩
      next hgrab =>
        rw [if_neg hgrab]
        obtain ⟨d', hd', heq⟩ := grabFirst_some h
        exact ⟨d', mem_cons_of_mem _ hd', heq⟩
    next hdue =>
      rw [if_neg hdue]
      obtain ⟨d', hd', heq⟩ := grabFirst_some h
      exact ⟨d', mem_cons_of_mem _ hd', heq⟩

theorem grabFirst_none (hfreeing : ∀ d : ReapDeleg, p { d with inodeFreeing := true } = false) :
    ∀ {l : List ReapDeleg}, (grabFirst p l).2 = none → ∀ d ∈ (grabFirst p l).1, p d = false
  | [], _, _, hd => nomatch hd
  | d :: l, h, d', hd' => by
    unfold grabFirst at h hd'
    split at h
    next hdue =>
      rw [if_pos hdue] at hd'
      split at h
      · cases h
      next hgrab =>
        rw [if_neg hgrab] at hd'
        rcases mem_cons.mp hd' with rfl | hd'
        · exact hfreeing d
        · exact grabFirst_none hfreeing h d' hd'
    next hdue =>
      rw [if_neg hdue] at hd'
      rcases mem_cons.mp hd' with rfl | hd'
      · exact Bool.eq_false_iff.mpr hdue
      · exact grabFirst_none hfreeing h d' hd'

namespace ReapDeleg

def stamp (d : ReapDeleg) : Nat × Nat := (d.id, d.testGen)

theorem stamp_markByOthers (d : ReapDeleg) (t : ExpiredTest) : (d.markByOthers t).stamp = d.stamp := by
  unfold markByOthers nfsMarkTestExpiredDelegation
  split
  · split <;> rfl
  · rfl

theorem stamp_removeBadDelegation {d d' : ReapDeleg} {t : ExpiredTest} (h : d.removeBadDelegation t = some d') :
    d'.stamp = d.stamp := by
  unfold removeBadDelegation nfsDelegationMarkReturned nfsRevokeDelegation at h
  split at h
  · split at h <;> cases h
    rfl
  · cases h
    split <;> rfl

/-- What is left of a delegation keeps its stamp, or has got the one of the run. -/
theorem stamp_tested {d d' : ReapDeleg} {t : ExpiredTest} (h : d.tested gen i t = some d') :
    d'.stamp = if d.id = i then (i, gen) else d.stamp := by
  unfold tested at h
  split at h
  next heq =>
    have hstamp : ((d.test gen).markByOthers t).stamp = (i, gen) := by
      rw [stamp_markByOthers, ← heq]
      rfl
    rw [if_pos heq]
    unfold testFreeExpired at h
    split at h
    · rw [stamp_removeBadDelegation h, hstamp]
    · cases h
      exact hstamp
  next hne =>
    cases h
    rw [if_neg hne, stamp_markByOthers]

end ReapDeleg

/-- Of the delegations on the list, those that were tested have the stamp of the run. -/
structure Stamped (gen : Nat) (s : ExpiredScan) : Prop where
  once : s.log.Nodup
  stamped : ∀ p ∈ s.delegations.map ReapDeleg.stamp, p.1 ∈ s.log ↔ p.2 = gen

/-- How many delegations can still be tested in the run. -/
def untested (gen : Nat) (l : List ReapDeleg) : Nat := (l.map ReapDeleg.stamp).countP (·.2 ≠ gen)

theorem Stamped.congr (h : Stamped gen s) (hl : l.map ReapDeleg.stamp = s.delegations.map ReapDeleg.stamp) :
    Stamped gen { s with delegations := l } :=
  ⟨h.once, hl ▸ h.stamped⟩

theorem Stamped.test (h : Stamped gen s) {d : ReapDeleg} (hd : d ∈ s.delegations) (hdue : d.testGen ≠ gen) (t : ExpiredTest) :
    Stamped gen { s with delegations := s.delegations.filterMap (·.tested gen d.id t), log := s.log ++ [d.id] } := by
  have hnew : d.id ∉ s.log := fun hmem => hdue ((h.stamped d.stamp (mem_map_of_mem hd)).mp hmem)
  refine ⟨nodup_append.mpr ⟨h.once, nodup_singleton _, fun a ha b hb heq => ?_⟩, fun p hp => ?_⟩
  · rw [mem_singleton.mp hb] at heq
    exact hnew (heq ▸ ha)
  · obtain ⟨x', hx', rfl⟩ := mem_map.mp hp
    obtain ⟨x, hx, htested⟩ := mem_filterMap.mp hx'
    rw [ReapDeleg.stamp_tested htested, mem_append]
    split
    · exact iff_of_true (.inr mem_cons_self) rfl
    next hne => exact (or_iff_left fun hmem => hne (mem_singleton.mp hmem)).trans (h.stamped _ (mem_map_of_mem hx))

theorem untested_tested_lt {d : ReapDeleg} (hd : d ∈ l) (hdue : d.testGen ≠ gen) (t : ExpiredTest) :
    untested gen (l.filterMap (·.tested gen d.id t)) < untested gen l := by
  have hleft : ∀ x : ReapDeleg, (((x.tested gen d.id t).map fun x' => decide (x'.stamp.2 ≠ gen)).getD false) →
      x.testGen ≠ gen ∧ x.id ≠ d.id := by
    intro x hx
    cases htested : x.tested gen d.id t with
    | none => simp [htested] at hx
    | some x' =>
      have hgen : x'.stamp.2 ≠ gen := by simpa [htested] using hx
      have hstamp := congrArg snd (ReapDeleg.stamp_tested htested)
      split at hstamp
      · exact absurd hstamp hgen
      next hne => exact ⟨fun heq => hgen (hstamp.trans heq), hne⟩
  obtain ⟨l₁, l₂, rfl⟩ := append_of_mem hd
  unfold untested
  rw [countP_map, countP_map, countP_filterMap, countP_append, countP_append, countP_cons_of_neg, countP_cons_of_pos]
  · have h₁ := countP_mono_left (l := l₁) fun x _ hx => decide_eq_true (hleft x hx).1
    have h₂ := countP_mono_left (l := l₂) fun x _ hx => decide_eq_true (hleft x hx).1
    exact Nat.lt_succ_of_le (Nat.add_le_add h₁ h₂)
  · exact decide_eq_true hdue
  · exact fun hx => (hleft d hx).2 rfl

/-- A mark is left on a delegation being returned or whose inode is freed, or it was set again after the test. -/
structure Reaped (s : ExpiredScan) : Prop where
  once : s.log.Nodup
  marked : s.ret = 0 → ∀ d ∈ s.delegations, d.testExpired → d.inodeFreeing ∨ d.returning ∨ d.id ∈ s.log

theorem reapExpiredBody_spec (tests : Nat → ExpiredTest) (h : Stamped gen s) :
    (∃ r, reapExpiredBody gen tests s = .done r ∧ Reaped r) ∨
      ∃ s', reapExpiredBody gen tests s = .again s' ∧ Stamped gen s' ∧ untested gen s'.delegations < untested gen s.delegations := by
  have hmap := map_grabFirst (p := (·.dueExpired gen)) (f := ReapDeleg.stamp) (fun _ => rfl) s.delegations
  have hgrab := h.congr hmap
  unfold reapExpiredBody
  rcases hfound : grabFirst (·.dueExpired gen) s.delegations with ⟨l, _ | i⟩
  · rw [hfound] at hgrab
    refine .inl ⟨_, rfl, h.once, fun _ d hd hmark => ?_⟩
    have hdue : d.dueExpired gen = false :=
      grabFirst_none (fun d => by simp [ReapDeleg.dueExpired]) (congrArg snd hfound) d (by rwa [hfound])
    cases hfreeing : d.inodeFreeing with
    | true => exact .inl rfl
    | false =>
      refine .inr ((Bool.eq_false_or_eq_true d.returning).imp id fun hreturning => ?_)
      have hgen : d.testGen = gen := by simpa [ReapDeleg.dueExpired, hmark, hfreeing, hreturning] using hdue
      exact (hgrab.stamped d.stamp (mem_map_of_mem hd)).mpr hgen
  · obtain ⟨d, hd, rfl, hdue⟩ := grabFirst_some (congrArg snd hfound)
    rw [hfound] at hgrab hd hmap
    have hgen : d.testGen ≠ gen := by simpa [ReapDeleg.dueExpired] using (Bool.and_eq_true_iff.mp hdue).2
    have htest := hgrab.test hd hgen (tests s.log.length)
    dsimp only
    split
    · exact .inl ⟨_, rfl, htest.once, nofun⟩
    · refine .inr ⟨_, rfl, htest, (untested_tested_lt hd hgen _).trans_eq ?_⟩
      exact congrArg (countP _) hmap

theorem stamped_start (server : ReapServer) : Stamped (server.delegationGen + 1) { delegations := server.delegations } where
  once := .nil
  stamped p hp := by
    obtain ⟨d, hd, rfl⟩ := mem_map.mp hp
    exact iff_of_false nofun (Nat.lt_succ_of_le (server.stamped d hd)).ne

theorem reapUnclaimedBody_spec (l : List ReapDeleg) :
    (∃ r, reapUnclaimedBody l = .done r ∧ ∀ d ∈ r, d.needReclaim → d.inodeFreeing ∨ d.returning) ∨
      ∃ l', reapUnclaimedBody l = .again l' ∧ True ∧ l'.length < l.length := by
  have hmap := map_grabFirst (p := ReapDeleg.dueUnclaimed) (f := ReapDeleg.stamp) (fun _ => rfl) l
  unfold reapUnclaimedBody
  rcases hfound : grabFirst ReapDeleg.dueUnclaimed l with ⟨l', _ | i⟩
  · refine .inl ⟨l', rfl, fun d hd hneed => ?_⟩
    have hdue : d.dueUnclaimed = false :=
      grabFirst_none (fun d => by simp [ReapDeleg.dueUnclaimed]) (congrArg snd hfound) d (by rwa [hfound])
    simpa [ReapDeleg.dueUnclaimed, hneed, or_iff_not_imp_left] using hdue
  · obtain ⟨d, hd, rfl, -⟩ := grabFirst_some (congrArg snd hfound)
    rw [hfound] at hd hmap
    refine .inr ⟨_, rfl, trivial, ?_⟩
    have hlen : l'.length = l.length := by simpa using congrArg length hmap
    rw [← hlen]
    exact length_filter_lt_length_iff_exists.mpr ⟨d, hd, by simp⟩

/-- Both scans end, none is tested twice, and marks are left only on those being returned or whose inode is freed. -/
theorem reap_scans_complete (server : ReapServer) (tests : Nat → ExpiredTest) {fuel : Nat} (hfuel : server.delegations.length < fuel) :
    (∃ r, nfsServerReapExpiredDelegations server tests fuel = some r ∧ r.log.Nodup ∧
      (server.expired → r.ret = 0 → ∀ d ∈ r.delegations, d.testExpired → d.inodeFreeing ∨ d.returning ∨ d.id ∈ r.log)) ∧
    ∃ l, nfsServerReapUnclaimedDelegations server fuel = some l ∧
      ∀ d ∈ l, d.needReclaim → d.inodeFreeing ∨ d.returning := by
  constructor
  · unfold nfsServerReapExpiredDelegations
    split
    · have hle : untested (server.delegationGen + 1) server.delegations ≤ server.delegations.length :=
        countP_le_length.trans_eq (length_map _)
      obtain ⟨r, hr, hreaped⟩ :=
        Loop.run_of_measure (fun s => reapExpiredBody_spec tests) (stamped_start server) (hle.trans_lt hfuel)
      exact ⟨r, hr, hreaped.once, fun _ => hreaped.marked⟩
    next hexpired => exact ⟨_, rfl, .nil, fun h => absurd h hexpired⟩
  · exact Loop.run_of_measure (I := fun _ => True) (fun l _ => reapUnclaimedBody_spec l) trivial hfuel

/-- A delegation that is marked, one that is being returned, and one whose inode is gone. -/
def reapServer : ReapServer where
  delegations :=
    [{ id := 0, returning := true, testExpired := true, needReclaim := true }, { id := 1, testExpired := true },
     { id := 2, needReclaim := true }, { id := 3, grabbable := false, testExpired := true, needReclaim := true }]
  distinct := by decide
  stamped := by decide

theorem reap_scans_complete_four : ∃ r l, nfsServerReapExpiredDelegations reapServer (fun _ => { marked := [1] }) 5 = some r ∧
    nfsServerReapUnclaimedDelegations reapServer 5 = some l ∧ r.log = [1] ∧ r.ret = 0 ∧
    (∀ d ∈ r.delegations, d.testExpired → d.inodeFreeing ∨ d.returning ∨ d.id ∈ r.log) ∧
    ∀ d ∈ l, d.needReclaim → d.inodeFreeing ∨ d.returning := by
  have hlen : reapServer.delegations.length < 5 := by decide
  obtain ⟨⟨r, hr, -, hmarked⟩, l, hl, hneed⟩ := reap_scans_complete reapServer (fun _ => { marked := [1] }) hlen
  have hval : (nfsServerReapExpiredDelegations reapServer (fun _ => { marked := [1] }) 5).map (fun r => (r.log, r.ret)) =
      some ([1], 0) := by decide
  rw [hr] at hval
  obtain ⟨hlog, hret⟩ := mk.inj (Option.some.inj hval)
  exact ⟨r, l, hr, hl, hlog, hret, hmarked rfl hret, hneed⟩

/-- The marks on the delegation that is being returned are still there when the scans are done. -/
theorem reap_scans_leave_returning : (nfsServerReapExpiredDelegations reapServer (fun _ => {}) 5).map
        (fun r => (r.ret, r.delegations.map fun d => (d.id, d.inodeFreeing, d.testExpired))) =
      some (0, [(0, false, true), (1, false, false), (2, false, false), (3, true, true)]) ∧
    (nfsServerReapUnclaimedDelegations reapServer 5).map (·.map fun d => (d.id, d.inodeFreeing, d.needReclaim)) =
      some [(0, false, true), (1, false, false), (3, true, true)] := by
  decide

end Mynfs
