import Mynfs.Io.Sections

/-! Buffered and direct I/O on one inode exclude each other: the flag only changes under the exclusive lock. -/

namespace Mynfs

open RwSem List Option Machine
open Bool (noConfusion)

namespace IoInode
variable {s t : IoInode} {i : Nat} {p q : IoPhase}

/-- What the flag stands for while nobody has the semaphore exclusively. -/
structure Settled (s : IoInode) : Prop where
  clear : s.odirect = false → s.dreqs = []
  set : s.odirect → s.syncPending = false

def Ok (s : IoInode) : IoPhase → Prop
  | .readBlock | .writeBlock | .directBlock => s.Settled
  | .readWait | .writeWait => s.odirect = false
  | .readDowngrade | .read | .write => s.odirect = false ∧ s.dreqs = []
  | .directSync => s.odirect
  | .directDowngrade | .direct _ => s.odirect ∧ s.syncPending = false
  | .idle | .readTest | .readSlow | .directTest | .directSlow => True

/-- The invariant of the sections. -/
structure Excluded (s : IoInode) : Prop where
  guards : Guards s.rwsem (s.tasks.map IoPhase.hold)
  count : s.dioCount = s.dreqs.length
  ok : ∀ (j : Nat) r, s.tasks[j]? = some r → s.Ok r
  settled : .exclusive ∉ s.tasks.map IoPhase.hold → s.Settled

theorem ok_of_none (h : p.hold = .none) : s.Ok p := by
  cases p <;> trivial

theorem Excluded.hold_get (hget : s.tasks[i]? = some p) : (s.tasks.map IoPhase.hold)[i]? = some p.hold := by
  rw [getElem?_map, hget]
  rfl

theorem Excluded.settled_of_shared (h : s.Excluded) (hget : s.tasks[i]? = some p) (hp : p.hold = .shared) : s.Settled :=
  h.settled (h.guards.not_exclusive (hp ▸ Excluded.hold_get hget))

theorem excluded_of_move (htasks : t.tasks = s.tasks.set i q)
    (hguards : Guards t.rwsem ((s.tasks.map IoPhase.hold).set i q.hold)) (hcount : t.dioCount = t.dreqs.length) (hq : t.Ok q)
    (hothers : ∀ (j : Nat) r, j ≠ i → s.tasks[j]? = some r → t.Ok r)
    (hst : .exclusive ∉ t.tasks.map IoPhase.hold → t.Settled) : t.Excluded := by
  refine ⟨?_, hcount, fun j r hr => ?_, hst⟩
  · rwa [htasks, map_set]
  · rw [htasks, getElem?_set] at hr
    split at hr
    · obtain ⟨-, hr⟩ := of_guard hr
      exact some.inj hr ▸ hq
    next hne => exact hothers j r (Ne.symm hne) hr

theorem ok_congr (h : s.Ok p) (hflag : t.odirect = s.odirect) (hdreqs : t.dreqs = s.dreqs)
    (hsync : t.syncPending = s.syncPending) : t.Ok p := by
  have hst : s.Settled → t.Settled := fun hs => by
    refine ⟨?_, ?_⟩
    · rw [hflag, hdreqs]
      exact hs.clear
    · rw [hflag, hsync]
      exact hs.set
  cases p <;> simp only [Ok, hflag, hdreqs, hsync] at h ⊢ <;> first | exact h | exact hst h

theorem Excluded.relock (h : s.Excluded) {l : Sem} (hguards : Guards l ((s.tasks.map IoPhase.hold).set i q.hold))
    (hlt : i < s.tasks.length) (hq : s.Ok q) (hst : q.hold = .exclusive ∨ s.Settled) :
    ({ s with rwsem := l }.put i q).Excluded := by
  refine excluded_of_move rfl hguards h.count (ok_congr hq rfl rfl rfl) (fun j r _ hr => ?_) fun hnone => ?_
  · exact ok_congr (h.ok j r hr) rfl rfl rfl
  rcases hst with hexcl | hst
  · refine absurd (List.mem_map.mpr ⟨q, ?_, hexcl⟩) hnone
    exact mem_set hlt q
  · exact ⟨hst.clear, hst.set⟩

theorem Excluded.change (h : s.Excluded) (hget : s.tasks[i]? = some p) (hp : p.hold = .exclusive) (hsem : t.rwsem = s.rwsem)
    (htasks : t.tasks = s.tasks.set i q) (hq : q.hold = .exclusive) (hcount : t.dioCount = t.dreqs.length) (hok : t.Ok q) :
    t.Excluded := by
  have hsame : (s.tasks.map IoPhase.hold).set i q.hold = s.tasks.map IoPhase.hold := by
    rw [hq, ← hp]
    obtain ⟨hlt, heq⟩ := List.getElem?_eq_some_iff.mp (Excluded.hold_get hget)
    rw [← heq]
    exact set_getElem_self hlt
  refine excluded_of_move htasks (by rw [hsame, hsem]; exact h.guards) hcount hok (fun j r hne hr => ?_) fun hnone => ?_
  · exact ok_of_none (h.guards.alone (hp ▸ Excluded.hold_get hget) (Excluded.hold_get hr) hne)
  · rw [htasks, map_set, hsame] at hnone
    exact absurd (mem_of_getElem? (Excluded.hold_get hget)) (hp ▸ hnone)

theorem lt_tasks (hget : s.tasks[i]? = some p) : i < s.tasks.length := lt_of_getElem? hget

section
variable (h : s.Excluded) (hget : s.tasks[i]? = some p)
include h hget

theorem Excluded.downRead (hp : p.hold = .none) (hq : q.hold = .shared) (hok : s.Ok q) {l : Sem} (hl : s.rwsem.downRead = some l) :
    ({ s with rwsem := l }.put i q).Excluded := by
  obtain ⟨hguards, hnone⟩ := h.guards.downRead (hp ▸ Excluded.hold_get hget) hl
  exact h.relock (hq ▸ hguards) (lt_tasks hget) hok (.inr (h.settled hnone))

theorem Excluded.downWrite (hp : p.hold = .none) (hq : q.hold = .exclusive) (hok : s.Settled → s.Ok q) {l : Sem}
    (hl : s.rwsem.downWrite = some l) : ({ s with rwsem := l }.put i q).Excluded := by
  obtain ⟨hguards, hnone⟩ := h.guards.downWrite (hp ▸ Excluded.hold_get hget) hl
  exact h.relock (hq ▸ hguards) (lt_tasks hget) (hok (h.settled hnone)) (.inl hq)

theorem Excluded.upRead (hp : p.hold = .shared) (hq : q.hold = .none) (hok : s.Ok q) :
    ({ s with rwsem := s.rwsem.upRead }.put i q).Excluded :=
  h.relock (hq ▸ h.guards.upRead (hp ▸ Excluded.hold_get hget)) (lt_tasks hget) hok (.inr (h.settled_of_shared hget hp))

theorem Excluded.downgradeWrite (hp : p.hold = .exclusive) (hq : q.hold = .shared) (hok : s.Ok q) (hst : s.Settled) :
    ({ s with rwsem := s.rwsem.downgradeWrite }.put i q).Excluded :=
  h.relock (hq ▸ h.guards.downgradeWrite (hp ▸ Excluded.hold_get hget)) (lt_tasks hget) hok (.inr hst)

theorem Excluded.proceed (hq : q.hold = p.hold) (hok : s.Ok q) (hst : q.hold = .exclusive ∨ s.Settled) : (s.put i q).Excluded := by
  refine h.relock (l := s.rwsem) ?_ (lt_tasks hget) hok hst
  obtain ⟨hlt, heq⟩ := List.getElem?_eq_some_iff.mp (Excluded.hold_get hget)
  rw [hq, ← heq, set_getElem_self hlt]
  exact h.guards

theorem Excluded.nfsFileBlockODirect {wait : IoPhase} (hp : p.hold = .exclusive) (hst : s.Settled)
    (hwait : wait = .readWait ∨ wait = .writeWait) (hq : q = .readDowngrade ∨ q = .write) :
    (s.nfsFileBlockODirect i wait q).Excluded := by
  have hqhold : q.hold = .exclusive := by rcases hq with rfl | rfl <;> rfl
  unfold IoInode.nfsFileBlockODirect
  split
  · refine h.change hget hp rfl rfl ?_ h.count ?_ <;> rcases hwait with rfl | rfl <;> rfl
  next hflag =>
    refine h.proceed hget (hqhold.trans hp.symm) ?_ (.inl hqhold)
    have hclear : s.odirect = false := Bool.eq_false_iff.mpr hflag
    rcases hq with rfl | rfl <;> exact ⟨hclear, hst.clear hclear⟩

theorem Excluded.inodeDioWait (hp : p.hold = .exclusive) (hflag : s.odirect = false) (hq : q = .readDowngrade ∨ q = .write)
    (hs : s.inodeDioWait i q = some t) : t.Excluded := by
  have hqhold : q.hold = .exclusive := by rcases hq with rfl | rfl <;> rfl
  obtain ⟨hzero, rfl⟩ := of_guard_some hs
  have hnil : s.dreqs = [] := length_eq_zero_iff.mp (h.count.symm.trans hzero)
  refine h.proceed hget (hqhold.trans hp.symm) ?_ (.inl hqhold)
  rcases hq with rfl | rfl <;> exact ⟨hflag, hnil⟩

theorem Excluded.nfsStartIoRead (hs : s.nfsStartIoRead i p = some t) : t.Excluded := by
  have hok := h.ok i p hget
  unfold IoInode.nfsStartIoRead at hs
  split at hs
  · obtain ⟨l, hl, rfl⟩ := map_eq_some_iff.mp hs
    refine h.downRead hget rfl rfl ?_ hl
    trivial
  · cases hs
    split
    · exact h.upRead hget rfl rfl trivial
    next hflag =>
      have hst := h.settled_of_shared hget rfl
      have hclear : s.odirect = false := Bool.eq_false_iff.mpr hflag
      exact h.proceed hget rfl ⟨hclear, hst.clear hclear⟩ (.inr hst)
  · obtain ⟨l, hl, rfl⟩ := map_eq_some_iff.mp hs
    exact h.downWrite hget rfl rfl id hl
  · cases hs
    exact h.nfsFileBlockODirect hget rfl hok (.inl rfl) (.inl rfl)
  · exact h.inodeDioWait hget rfl hok (.inl rfl) hs
  · cases hs
    obtain ⟨hclear, hnil⟩ : s.odirect = false ∧ s.dreqs = [] := hok
    exact h.downgradeWrite hget rfl rfl ⟨hclear, hnil⟩ ⟨fun _ => hnil, fun hset => absurd (hclear.symm.trans hset) noConfusion⟩
  · cases hs

theorem Excluded.nfsStartIoWrite (hs : s.nfsStartIoWrite i p = some t) : t.Excluded := by
  have hok := h.ok i p hget
  unfold IoInode.nfsStartIoWrite at hs
  split at hs
  · obtain ⟨l, hl, rfl⟩ := map_eq_some_iff.mp hs
    exact h.downWrite hget rfl rfl id hl
  · cases hs
    exact h.nfsFileBlockODirect hget rfl hok (.inr rfl) (.inr rfl)
  · exact h.inodeDioWait hget rfl hok (.inr rfl) hs
  · cases hs

theorem Excluded.nfsStartIoDirect (hs : s.nfsStartIoDirect i p = some t) : t.Excluded := by
  have hok := h.ok i p hget
  unfold IoInode.nfsStartIoDirect at hs
  split at hs
  · obtain ⟨l, hl, rfl⟩ := map_eq_some_iff.mp hs
    refine h.downRead hget rfl rfl ?_ hl
    trivial
  · cases hs
    split
    next hflag =>
      have hst := h.settled_of_shared hget rfl
      exact h.proceed hget rfl ⟨hflag, hst.set hflag⟩ (.inr hst)
    · exact h.upRead hget rfl rfl trivial
  · obtain ⟨l, hl, rfl⟩ := map_eq_some_iff.mp hs
    exact h.downWrite hget rfl rfl id hl
  · cases hs
    unfold nfsBlockBuffered
    split
    · exact h.change hget rfl rfl rfl rfl h.count rfl
    next hflag =>
      have hset : s.odirect := by simpa using hflag
      have hst : s.Settled := hok
      exact h.proceed hget rfl ⟨hset, hst.set hset⟩ (.inl rfl)
  · cases hs
    exact h.change hget rfl rfl rfl rfl h.count ⟨hok, rfl⟩
  · cases hs
    obtain ⟨hset, hsync⟩ : s.odirect ∧ s.syncPending = false := hok
    exact h.downgradeWrite hget rfl rfl ⟨hset, hsync⟩ ⟨fun hclear => absurd (hclear.symm.trans hset) noConfusion, fun _ => hsync⟩
  · cases hs

theorem Excluded.dioBegin (hp : p = .direct false) :
    ({ s with dioCount := s.dioCount + 1, dreqs := s.dreqs ++ [1] }.put i (.direct true)).Excluded := by
  subst hp
  obtain ⟨hset, hsync⟩ : s.odirect ∧ s.syncPending = false := h.ok i _ hget
  have hst : ({ s with dioCount := s.dioCount + 1, dreqs := s.dreqs ++ [1] }.put i (.direct true)).Settled :=
    ⟨fun hclear => absurd (hclear.symm.trans hset) noConfusion, fun _ => hsync⟩
  have hguards : Guards s.rwsem ((s.tasks.map IoPhase.hold).set i .shared) := by
    obtain ⟨hlt, heq⟩ := List.getElem?_eq_some_iff.mp (Excluded.hold_get hget)
    rw [← show IoPhase.hold (.direct false) = .shared from rfl, ← heq, set_getElem_self hlt]
    exact h.guards
  refine excluded_of_move rfl hguards ?_ ⟨hset, hsync⟩ (fun j r _ hr => ?_) fun _ => hst
  · change s.dioCount + 1 = (s.dreqs ++ [1]).length
    rw [length_append, h.count]
    rfl
  · have hok := h.ok j r hr
    cases r with
    | readBlock | writeBlock | directBlock => exact hst
    | readDowngrade | read | write => exact absurd (hok.1.symm.trans hset) noConfusion
    | idle | readTest | readSlow | readWait | writeWait | directTest | directSlow | directSync | directDowngrade | direct _ =>
      exact hok

end

theorem Excluded.endBuffered (h : s.Excluded) (hclear : s.odirect = false) (hnil : s.dreqs = []) {l : Sem}
    (hguards : Guards l ((s.tasks.map IoPhase.hold).set i .none)) :
    ({ s with rwsem := l, syncPending := true }.put i .idle).Excluded := by
  have hst : ({ s with rwsem := l, syncPending := true }.put i .idle).Settled :=
    ⟨fun _ => hnil, fun hset => absurd (hclear.symm.trans hset) noConfusion⟩
  refine excluded_of_move rfl hguards h.count trivial (fun j r _ hr => ?_) fun _ => hst
  have hok := h.ok j r hr
  cases r with
  | readBlock | writeBlock | directBlock => exact hst
  | directDowngrade | direct _ => exact absurd (hclear.symm.trans hok.1) noConfusion
  | idle | readTest | readSlow | readWait | readDowngrade | read | writeWait | write | directTest | directSlow | directSync =>
    exact hok

theorem Excluded.withDreqs (h : s.Excluded) {dioCount : Nat} {dreqs : List Nat} (hcount : dioCount = dreqs.length)
    (hnil : s.dreqs = [] → dreqs = []) : ({ s with dioCount := dioCount, dreqs := dreqs } : IoInode).Excluded := by
  have hst : s.Settled → ({ s with dioCount := dioCount, dreqs := dreqs } : IoInode).Settled :=
    fun hs => ⟨fun hclear => hnil (hs.clear hclear), hs.set⟩
  refine ⟨h.guards, hcount, fun j r hr => ?_, fun hnone => hst (h.settled hnone)⟩
  have hok := h.ok j r hr
  cases r with
  | readBlock | writeBlock | directBlock => exact hst hok
  | readDowngrade | read | write => exact ⟨hok.1, hnil hok.2⟩
  | idle | readTest | readSlow | readWait | writeWait | directTest | directSlow | directSync | directDowngrade | direct _ =>
    exact hok

theorem Excluded.step (h : s.Excluded) {e : IoEvent} (hs : s.step e = some t) : t.Excluded := by
  cases e with
  | startRead i =>
    obtain ⟨p, hget, hs⟩ := bind_eq_some_iff.mp hs
    exact h.nfsStartIoRead hget hs
  | startWrite i =>
    obtain ⟨p, hget, hs⟩ := bind_eq_some_iff.mp hs
    exact h.nfsStartIoWrite hget hs
  | startDirect i =>
    obtain ⟨p, hget, hs⟩ := bind_eq_some_iff.mp hs
    exact h.nfsStartIoDirect hget hs
  | endRead i =>
    obtain ⟨hget, rfl⟩ := of_guard_some hs
    obtain ⟨hclear, hnil⟩ := h.ok i _ hget
    exact h.endBuffered hclear hnil (h.guards.upRead (Excluded.hold_get hget))
  | endWrite i =>
    obtain ⟨hget, rfl⟩ := of_guard_some hs
    obtain ⟨hclear, hnil⟩ := h.ok i _ hget
    exact h.endBuffered hclear hnil (h.guards.upWrite (Excluded.hold_get hget))
  | endDirect i =>
    simp only [IoInode.step] at hs
    split at hs
    next begun hget =>
      cases hs
      exact h.upRead hget rfl rfl trivial
    · cases hs
  | dioBegin i =>
    obtain ⟨hget, rfl⟩ := of_guard_some hs
    exact h.dioBegin hget rfl
  | getDreq k =>
    obtain ⟨n, hget, rfl⟩ := map_eq_some_iff.mp hs
    refine h.withDreqs (h.count.trans (length_set ..).symm) fun hnil => ?_
    rw [hnil] at hget
    cases hget
  | putDreq k =>
    obtain ⟨n, hget, rfl⟩ := map_eq_some_iff.mp hs
    have hlt := lt_of_getElem? hget
    have hnil : s.dreqs ≠ [] := fun hnil => by
      rw [hnil] at hget
      cases hget
    split
    · refine h.withDreqs ?_ fun hnil' => absurd hnil' hnil
      rw [length_eraseIdx_of_lt hlt, h.count]
    · exact h.withDreqs (h.count.trans (length_set ..).symm) fun hnil' => absurd hnil' hnil

theorem excluded_init (n : Nat) : (init n).Excluded := by
  refine ⟨?_, rfl, fun j r hr => ?_, fun _ => ⟨fun _ => rfl, nofun⟩⟩
  · change Guards {} ((replicate n IoPhase.idle).map IoPhase.hold)
    rw [map_replicate]
    exact guards_init n
  · obtain rfl := eq_of_mem_replicate (mem_of_getElem? hr)
    trivial

/-- Beside a buffered section no direct request is under way and the flag is clear; beside a direct one the flag is set,
    no section is buffered, and the mapping was synced since the last one. -/
theorem excluded_of_run (n : Nat) (events : List IoEvent) (s : IoInode) (hrun : exec step (init n) events = some s) :
    (∀ p ∈ s.tasks, p = .read ∨ p = .write → s.odirect = false ∧ s.dreqs = [] ∧ ∀ begun, .direct begun ∉ s.tasks) ∧
    ∀ begun, .direct begun ∈ s.tasks → s.odirect ∧ .read ∉ s.tasks ∧ .write ∉ s.tasks ∧ s.syncPending = false := by
  have h : s.Excluded := exec_invariant (fun _ _ _ hi hs => hi.step hs) (excluded_init n) hrun
  have hall : ∀ p ∈ s.tasks, s.Ok p := fun p hp => by
    obtain ⟨j, hj⟩ := mem_iff_getElem?.mp hp
    exact h.ok j p hj
  have hbuffered : ∀ p ∈ s.tasks, p = .read ∨ p = .write → s.odirect = false ∧ s.dreqs = [] := by
    rintro p hp (rfl | rfl) <;> exact hall _ hp
  have hdirect : ∀ begun, .direct begun ∈ s.tasks → s.odirect ∧ s.syncPending = false := fun begun hp => hall _ hp
  refine ⟨fun p hp hkind => ?_, fun begun hp => ?_⟩
  · obtain ⟨hclear, hnil⟩ := hbuffered p hp hkind
    exact ⟨hclear, hnil, fun begun hd => absurd (hclear.symm.trans (hdirect begun hd).1) noConfusion⟩
  · obtain ⟨hset, hsync⟩ := hdirect begun hp
    refine ⟨hset, fun hr => ?_, fun hw => ?_, hsync⟩
    · exact absurd ((hbuffered _ hr (.inl rfl)).1.symm.trans hset) noConfusion
    · exact absurd ((hbuffered _ hw (.inr rfl)).1.symm.trans hset) noConfusion

def directThenRead : List IoEvent :=
  [.startWrite 0, .startWrite 0, .endWrite 0, .startDirect 0, .startDirect 0, .startDirect 0, .startDirect 0, .startDirect 0,
    .startDirect 0, .dioBegin 0, .getDreq 0, .putDreq 0, .startRead 1, .startRead 1, .endDirect 0, .startRead 1, .startRead 1,
    .putDreq 0, .startRead 1, .startRead 1]

theorem excluded_of_run_directThenRead : ∃ s, exec step (init 2) directThenRead = some s ∧ .read ∈ s.tasks ∧
    s.odirect = false ∧ s.dreqs = [] ∧ ∀ begun, .direct begun ∉ s.tasks := by
  refine exists_exec (P := fun s => .read ∈ s.tasks) (by decide) fun s hrun hread => ?_
  exact ⟨hread, (excluded_of_run 2 directThenRead s hrun).1 .read hread (.inl rfl)⟩

/-! ### No deadlock -/

/-- What has begun goes on: no task begins a section, and no direct request sends more. -/
def Continues (s : IoInode) : IoEvent → Prop
  | .startRead i | .startWrite i | .startDirect i => s.tasks[i]? ≠ some .idle
  | .getDreq _ => False
  | .endRead _ | .endWrite _ | .endDirect _ | .dioBegin _ | .putDreq _ => True

theorem holder_continues (hget : s.tasks[i]? = some p) (hp : p.hold ≠ .none) (hcount : s.dioCount = 0) :
    ∃ e, s.Continues e ∧ (s.step e).isSome := by
  cases p with
  | idle | readSlow | directSlow => exact absurd rfl hp
  | readTest | readBlock | readWait | readDowngrade =>
    exact ⟨.startRead i, by simp [Continues, hget], by simp [step, hget, nfsStartIoRead, inodeDioWait, hcount]⟩
  | writeBlock | writeWait =>
    exact ⟨.startWrite i, by simp [Continues, hget], by simp [step, hget, nfsStartIoWrite, inodeDioWait, hcount]⟩
  | directTest | directBlock | directSync | directDowngrade =>
    exact ⟨.startDirect i, by simp [Continues, hget], by simp [step, hget, nfsStartIoDirect]⟩
  | read => exact ⟨.endRead i, trivial, by simp [step, hget]⟩
  | write => exact ⟨.endWrite i, trivial, by simp [step, hget]⟩
  | direct begun => exact ⟨.endDirect i, trivial, by simp [step, hget]⟩

/-- Who waits for the semaphore gets it when nobody has it. -/
theorem waiter_continues (h : s.Excluded) (hfree : ∀ r ∈ s.tasks, r.hold = .none) (hget : s.tasks[i]? = some p) (hp : p ≠ .idle) :
    ∃ e, s.Continues e ∧ (s.step e).isSome := by
  have hnone : ∀ a ≠ Hold.none, a ∉ s.tasks.map IoPhase.hold := by
    intro a ha hmem
    obtain ⟨r, hr, rfl⟩ := List.mem_map.mp hmem
    exact ha (hfree r hr)
  have hreaders : s.rwsem.readers = 0 := h.guards.shared.trans (count_eq_zero.mpr (hnone _ (by decide)))
  have hwriter : s.rwsem.writer = false := by
    simpa [count_eq_zero.mpr (hnone .exclusive (by decide))] using h.guards.exclusive
  have hhold := hfree p (mem_of_getElem? hget)
  cases p with
  | idle => exact absurd rfl hp
  | readSlow =>
    exact ⟨.startRead i, by simp [Continues, hget], by simp [step, hget, nfsStartIoRead, Sem.downWrite, hreaders, hwriter]⟩
  | directSlow =>
    exact ⟨.startDirect i, by simp [Continues, hget], by simp [step, hget, nfsStartIoDirect, Sem.downWrite, hreaders, hwriter]⟩
  | _ => cases hhold

/-- In every reachable state with a section or a direct request under way, one of these can go on. -/
theorem io_goes_on (n : Nat) (events : List IoEvent) (s : IoInode) (hrun : exec step (init n) events = some s)
    (hbusy : s.dreqs ≠ [] ∨ ∃ p ∈ s.tasks, p ≠ .idle) : ∃ e, s.Continues e ∧ (s.step e).isSome := by
  have h : s.Excluded := exec_invariant (fun _ _ _ hi hs => hi.step hs) (excluded_init n) hrun
  cases hdreqs : s.dreqs with
  | cons k rest => exact ⟨.putDreq 0, trivial, by simp [step, hdreqs]⟩
  | nil =>
    have hcount : s.dioCount = 0 := h.count.trans (by rw [hdreqs]; rfl)
    obtain ⟨p, hp, hidle⟩ := hbusy.resolve_left (not_not.mpr hdreqs)
    by_cases hfree : ∀ r ∈ s.tasks, r.hold = .none
    · obtain ⟨i, hget⟩ := mem_iff_getElem?.mp hp
      exact waiter_continues h hfree hget hidle
    · obtain ⟨r, hr, hheld⟩ : ∃ r ∈ s.tasks, r.hold ≠ .none := by simpa using hfree
      obtain ⟨i, hget⟩ := mem_iff_getElem?.mp hr
      exact holder_continues hget hheld hcount

/-- A direct request and a reader that waits for it: the request can be completed. -/
theorem io_goes_on_directThenRead : ∃ s, exec step (init 2) (directThenRead.take 17) = some s ∧
    ∃ e, s.Continues e ∧ (s.step e).isSome := by
  exact exists_exec (P := fun s => s.dreqs ≠ []) (by decide) fun s hrun hdreqs => io_goes_on 2 _ s hrun (.inl hdreqs)

end IoInode

end Mynfs
