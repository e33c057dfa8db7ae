import Mynfs.Lib.Count
import Mynfs.Write.Fsync

/-! A request on no list of the inode is with a task that commits, or with a COMMIT; `rpcs_out` counts these. -/

namespace Mynfs

open List Option Machine

theorem WriteReq.listed_iff {shift : Nat} {r : WriteReq shift} : r.listed = true ↔ ∃ b, r.place = .listed b := by
  unfold WriteReq.listed
  split
  next b hb => exact iff_of_true rfl ⟨b, hb⟩
  next hne => exact iff_of_false Bool.noConfusion fun ⟨b, hb⟩ => hne b hb

/-- Data of the task that is not sent yet may be there. -/
def CommitPc.builds : CommitPc → Bool
  | .buckets .. | .initiate _ => true
  | .idle | .scan | .generic _ | .finish _ | .wait => false

/-- A task at this point has still to look at the list `committing` of the bucket. -/
def CommitPc.Covers : CommitPc → Bucket → Prop
  | .generic _, _ => True
  | .buckets _ array idx, b => array < b.array ∨ array = b.array ∧ idx ≤ b.idx
  | .idle, _ | .scan, _ | .initiate _, _ | .finish _, _ | .wait, _ => False

theorem CommitPc.Covers.active {pc : CommitPc} {b : Bucket} (h : pc.Covers b) : pc.active := by
  cases pc with
  | generic _ | buckets _ _ _ => rfl
  | idle | scan | initiate _ | finish _ | wait => exact h.elim

/-- The last scan of the task left nothing that it could have taken. -/
def CommitPc.Scanned : CommitPc → Prop
  | .generic nscan | .buckets nscan _ _ | .initiate nscan => nscan < intMax
  | .finish ret => ret = 0
  | .wait => True
  | .idle | .scan => False

namespace WriteInode
variable {shift : Nat} {s t : WriteInode shift} {r : WriteReq shift} {c i k nscan array idx redirtied : Nat}
  {m m' : Committer} {p : WritePlace} {pc : CommitPc} {new : List NfsCommitData} {wbErr : Int}

/-- What the place of a request refers to is there. -/
def Housed (s : WriteInode shift) : WritePlace → Prop
  | .head c => ∃ m n, s.committers[c]? = some m ∧ m.pc = .generic n
  | .pages k => ∃ d, s.data[k]? = some d ∧ d.phase ≠ .released
  | .listed (some b) | .committing b => s.HasBucket b
  | .dirty | .writeback | .listed none | .removed _ => True

/-- `rpcs_out` is exact, and every request is at a place that some task or COMMIT looks after. -/
structure Tended (s : WriteInode shift) : Prop where
  counted : s.rpcsOut = s.committers.countP (·.pc.active) + s.data.countP (·.phase.out)
  housed : ∀ r ∈ s.reqs, s.Housed r.place
  locked : ∀ r ∈ s.reqs, r.locked → r.listed
  built : ∀ d ∈ s.data, d.phase = .built → ∃ m, s.committers[d.owner]? = some m ∧ m.pc.builds
  own : ∃ m, s.committers[0]? = some m ∧ m.mayWait ∧ (m.pc = .idle ↔ s.fsync.phase ≠ .commit)

/-- Once `rpcs_out` is zero, no request is in the hands of a task or with a COMMIT. -/
theorem Tended.idle (h : s.Tended) (hzero : s.rpcsOut = 0) :
    (∀ m ∈ s.committers, m.pc.active = false) ∧ ∀ r ∈ s.reqs, (∀ c, r.place ≠ .head c) ∧ ∀ k, r.place ≠ .pages k := by
  have hcount := h.counted
  have hcs : ∀ m ∈ s.committers, m.pc.active = false := by
    have hnone : s.committers.countP (·.pc.active) = 0 := by omega
    intro m hm
    simpa using countP_eq_zero.mp hnone m hm
  have hdata : ∀ d ∈ s.data, d.phase.out = false := by
    have hnone : s.data.countP (·.phase.out) = 0 := by omega
    intro d hd
    simpa using countP_eq_zero.mp hnone d hd
  refine ⟨hcs, fun r hr => ⟨fun c hplace => ?_, fun k hplace => ?_⟩⟩
  · have hhoused := h.housed r hr
    rw [hplace] at hhoused
    obtain ⟨m, n, hm, hpc⟩ := hhoused
    have hidle := hcs m (mem_of_getElem? hm)
    rw [hpc] at hidle
    cases hidle
  · have hhoused := h.housed r hr
    rw [hplace] at hhoused
    obtain ⟨d, hd, hphase⟩ := hhoused
    have hout := hdata d (mem_of_getElem? hd)
    cases hd' : d.phase with
    | built =>
      obtain ⟨m, hm, hpc⟩ := h.built d (mem_of_getElem? hd) hd'
      have hidle := hcs m (mem_of_getElem? hm)
      revert hpc hidle
      cases m.pc <;> simp [CommitPc.builds, CommitPc.active]
    | sent | replied _ _ =>
      rw [hd'] at hout
      cases hout
    | released => exact hphase hd'

theorem Tended.unlocked (h : s.Tended) (hr : r ∈ s.reqs) (hplace : ∀ b, r.place ≠ .listed b) : r.locked = false := by
  refine Bool.eq_false_iff.mpr fun hlock => ?_
  obtain ⟨b, hb⟩ := WriteReq.listed_iff.mp (h.locked r hr hlock)
  exact hplace b hb

/-! ### Changes -/

theorem Housed.congr (h : s.Housed p) (hcs : t.committers = s.committers) (hdata : t.data = s.data)
    (harrays : t.arrays = s.arrays) : t.Housed p := by
  cases p with
  | head c => rwa [Housed, hcs]
  | pages k => rwa [Housed, hdata]
  | listed b =>
    cases b with
    | none => trivial
    | some b => rwa [Housed, HasBucket, harrays]
  | committing b => rwa [Housed, HasBucket, harrays]
  | dirty | writeback | removed _ => trivial

/-- A step on requests, none of which goes to a place that is not there. -/
theorem Tended.moveReqs (h : s.Tended) (hcs : t.committers = s.committers) (hdata : t.data = s.data)
    (harrays : t.arrays = s.arrays) (hrpcs : t.rpcsOut = s.rpcsOut) (hphase : t.fsync.phase ≠ .commit ↔ s.fsync.phase ≠ .commit)
    (hreqs : ∀ r ∈ t.reqs, r ∈ s.reqs ∨ s.Housed r.place ∧ (r.locked → r.listed)) : t.Tended where
  counted := by rw [hrpcs, hcs, hdata, h.counted]
  housed r hr := by
    have hhoused : s.Housed r.place := (hreqs r hr).elim (h.housed r) And.left
    exact hhoused.congr hcs hdata harrays
  locked r hr := (hreqs r hr).elim (h.locked r) And.right
  built := by
    rw [hdata, hcs]
    exact h.built
  own := by
    rw [hcs, hphase]
    exact h.own

theorem Tended.putReq (h : s.Tended) (hhoused : s.Housed r.place) (hlocked : r.locked → r.listed) :
    ({ s with redirtied := redirtied, wbErr := wbErr }.putReq i r).Tended := by
  refine h.moveReqs rfl rfl rfl rfl Iff.rfl fun q hq => ?_
  rcases mem_or_eq_of_mem_set hq with hq | rfl
  · exact .inl hq
  · exact .inr ⟨hhoused, hlocked⟩

theorem Tended.putUnlocked (h : s.Tended) (hhoused : s.Housed r.place) (hunl : r.locked = false) :
    ({ s with redirtied := redirtied, wbErr := wbErr }.putReq i r).Tended :=
  h.putReq hhoused fun hlock => absurd (hunl.symm.trans hlock) Bool.noConfusion

theorem Housed.move (h : s.Housed p)
    (hcs : t.committers = s.committers.set c m') (hdata : t.data = s.data ++ new) (harrays : t.arrays = s.arrays)
    (hhead : p = .head c → ∃ n, m'.pc = .generic n) : t.Housed p := by
  cases p with
  | head c' =>
    obtain ⟨m, n, hm, hpc⟩ := h
    rw [Housed, hcs, getElem?_set]
    by_cases hc : c = c'
    · subst hc
      obtain ⟨n', hpc'⟩ := hhead rfl
      rw [if_pos rfl, if_pos (lt_of_getElem? hm)]
      exact ⟨m', n', rfl, hpc'⟩
    · rw [if_neg hc]
      exact ⟨m, n, hm, hpc⟩
  | pages k =>
    obtain ⟨d, hd, hphase⟩ := h
    refine ⟨d, ?_, hphase⟩
    rw [hdata, getElem?_append_left (lt_of_getElem? hd), hd]
  | listed b =>
    cases b with
    | none => trivial
    | some b => rwa [Housed, HasBucket, harrays]
  | committing b => rwa [Housed, HasBucket, harrays]
  | dirty | writeback | removed _ => trivial

theorem Tended.not_built (h : s.Tended) (hget : s.committers[c]? = some m) (hpc : m.pc.builds = false) :
    ∀ d ∈ s.data, d.phase = .built → d.owner ≠ c := by
  rintro d hd hphase rfl
  obtain ⟨m', hget', hpc'⟩ := h.built d hd hphase
  cases hget.symm.trans hget'
  rw [hpc] at hpc'
  cases hpc'

/-- A step of the task `c`, with the COMMITs `new`. -/
theorem Tended.move (h : s.Tended) (hget : s.committers[c]? = some m) (hcs : t.committers = s.committers.set c m')
    (hdata : t.data = s.data ++ new)
    (hcnt : t.rpcsOut + m.pc.active.toNat = s.rpcsOut + m'.pc.active.toNat + new.countP (·.phase.out))
    (hreqs : ∀ r ∈ t.reqs, t.Housed r.place ∧ (r.locked → r.listed)) (hnew : ∀ d ∈ new, d.phase = .built → d.owner = c)
    (hbuilt : m'.pc.builds ∨ ∀ d ∈ t.data, d.phase = .built → d.owner ≠ c)
    (hown : c = 0 → m'.mayWait ∧ (m'.pc = .idle ↔ t.fsync.phase ≠ .commit))
    (hother : c ≠ 0 → (t.fsync.phase ≠ .commit ↔ s.fsync.phase ≠ .commit)) : t.Tended := by
  have hlt := lt_of_getElem? hget
  refine ⟨?_, fun r hr => (hreqs r hr).1, fun r hr => (hreqs r hr).2, fun d hd hphase => ?_, ?_⟩
  · have hset := countP_set_add (·.pc.active) hget m'
    have hcount := h.counted
    rw [hcs, hdata, countP_append]
    omega
  · rw [hcs, getElem?_set]
    by_cases howner : c = d.owner
    · rw [if_pos howner, if_pos hlt]
      exact hbuilt.elim (fun hpc => ⟨m', rfl, hpc⟩) fun hne => absurd howner.symm (hne d hd hphase)
    · rw [if_neg howner]
      rw [hdata] at hd
      rcases mem_append.mp hd with hd | hd
      · exact h.built d hd hphase
      · exact absurd (hnew d hd hphase).symm howner
  · rw [hcs, getElem?_set]
    by_cases hc : c = 0
    · rw [if_pos hc, if_pos hlt]
      exact ⟨m', rfl, hown hc⟩
    · rw [if_neg hc, hother hc]
      exact h.own

theorem Tended.not_head (h : s.Tended) (hget : s.committers[c]? = some m) (hpc : ∀ n, m.pc ≠ .generic n) :
    ∀ r ∈ s.reqs, r.place ≠ .head c := by
  intro r hr hplace
  have hhoused := h.housed r hr
  rw [hplace] at hhoused
  obtain ⟨m', n, hget', hpc'⟩ := hhoused
  cases hget.symm.trans hget'
  exact hpc n hpc'

theorem not_occupied (h : s.occupied p = false) : ∀ r ∈ s.reqs, r.place ≠ p := by
  simpa [occupied] using h

theorem Tended.proceed (h : s.Tended) (hget : s.committers[c]? = some m)
    (hcs : t.committers = s.committers.set c { m with pc := pc }) (hpc : m.pc ≠ .idle) (hpc' : pc ≠ .idle)
    (hdata : t.data = s.data ++ new) (hfsync : t.fsync = s.fsync)
    (hcnt : t.rpcsOut + m.pc.active.toNat = s.rpcsOut + pc.active.toNat + new.countP (·.phase.out))
    (hreqs : ∀ r ∈ t.reqs, t.Housed r.place ∧ (r.locked → r.listed))
    (hnew : ∀ d ∈ new, d.phase = .built → d.owner = c)
    (hbuilt : pc.builds ∨ ∀ d ∈ t.data, d.phase = .built → d.owner ≠ c) : t.Tended := by
  refine h.move hget hcs hdata hcnt hreqs hnew hbuilt (fun hc => ?_) fun _ => by rw [hfsync]
  subst hc
  obtain ⟨m', hget', hwait, hidle⟩ := h.own
  cases hget.symm.trans hget'
  rw [hfsync, ← hidle]
  exact ⟨hwait, iff_of_false hpc' hpc⟩

/-- From one point to the next, not at the end of the scan. -/
def Leads (pc pc' : CommitPc) : Prop := pc.active ∧ pc'.active ∧ (pc'.Scanned → pc.Scanned) ∧ ∀ ret, pc ≠ .finish ret

theorem ne_idle_of_active (h : pc.active) : pc ≠ .idle := by
  rintro rfl
  cases h

/-- A task goes on. It takes requests with it to a new COMMIT, and passes no list `committing` that has one. -/
structure Carries (s : WriteInode shift) (c : Nat) (m : Committer) (pc : CommitPc) (new : List NfsCommitData)
    (t : WriteInode shift) : Prop where
  get : s.committers[c]? = some m
  leads : Leads m.pc pc
  committers : t.committers = s.committers.set c { m with pc := pc }
  data : t.data = s.data ++ new
  rpcs : t.rpcsOut = s.rpcsOut + new.countP (·.phase.out)
  arrays : t.arrays = s.arrays
  fsync : t.fsync = s.fsync
  redirtied : t.redirtied = s.redirtied
  wbErr : t.wbErr = s.wbErr
  reqs : ∃ f, t.reqs = s.reqs.map f ∧ ∀ r ∈ s.reqs,
    f r = r ∧ r.place ≠ .head c ∧ (∀ b, r.place = .committing b → m.pc.Covers b → pc.Covers b) ∨
      ((∃ c, r.place = .head c) ∨ ∃ b, r.place = .committing b) ∧ new ≠ [] ∧ f r = { r with place := .pages s.data.length }
  new : ∀ d ∈ new, d.owner = c ∧ d.phase ≠ .released
  built : pc.builds ∨ ∀ d ∈ t.data, d.phase = .built → d.owner ≠ c

theorem carries_pass (hget : s.committers[c]? = some m) (hleads : Leads m.pc pc)
    (hbuilt : pc.builds ∨ ∀ d ∈ s.data, d.phase = .built → d.owner ≠ c)
    (hreqs : ∀ r ∈ s.reqs, r.place ≠ .head c ∧ ∀ b, r.place = .committing b → m.pc.Covers b → pc.Covers b) :
    Carries s c m pc [] (s.setPc c m pc) :=
  ⟨hget, hleads, rfl, (append_nil _).symm, rfl, rfl, rfl, rfl, rfl,
    ⟨id, (map_id _).symm, fun r hr => .inl ⟨rfl, (hreqs r hr).1, (hreqs r hr).2⟩⟩, nofun, hbuilt⟩

theorem carries_take {phase : CommitDataPhase} (hget : s.committers[c]? = some m) (hp : p = .head c ∨ ∃ b, p = .committing b)
    (hleads : Leads m.pc pc) (hphase : phase ≠ .released)
    (hbuilt : pc.builds ∨ ∀ d ∈ s.data ++ [(⟨c, phase⟩ : NfsCommitData)], d.phase = .built → d.owner ≠ c)
    (hreqs : ∀ r ∈ s.reqs, r.place ≠ p → r.place ≠ .head c ∧ ∀ b, r.place = .committing b → m.pc.Covers b → pc.Covers b) :
    Carries s c m pc [⟨c, phase⟩] ({ s.addData c phase p with rpcsOut := s.rpcsOut + phase.out.toNat }.setPc c m pc) := by
  refine ⟨hget, hleads, rfl, rfl, ?_, rfl, rfl, rfl, rfl, ⟨_, rfl, fun r hr => ?_⟩, fun d hd => ?_, hbuilt⟩
  · cases phase <;> rfl
  · split
    next hplace =>
      refine .inr ⟨?_, nofun, rfl⟩
      rw [hplace]
      exact hp.imp_left fun h => ⟨c, h⟩
    next hplace => exact .inl ⟨rfl, (hreqs r hr hplace).1, (hreqs r hr hplace).2⟩
  · obtain rfl := mem_singleton.mp hd
    exact ⟨rfl, hphase⟩

theorem leads_nextScan (nscan : Nat) (hactive : pc.active) (hscan : nscan < intMax → pc.Scanned)
    (hret : ∀ ret, pc ≠ .finish ret) : Leads pc (nextScan nscan) := by
  unfold nextScan
  split
  next hlt => exact ⟨hactive, rfl, fun _ => hscan hlt, hret⟩
  · exact ⟨hactive, rfl, nofun, hret⟩

/-! ### The steps of a task -/

theorem lockable_iff : s.lockable i = true ↔ ∃ r b, s.reqs[i]? = some r ∧ r.place = .listed b ∧ r.locked = false := by
  unfold lockable
  cases hr : s.reqs[i]? with
  | none => simp
  | some r => simp [WriteReq.listed_iff]

theorem Tended.scan (h : s.Tended) (hget : s.committers[c]? = some m) (hpc : m.pc = .scan) {got : List Nat} (hgot : s.Scans got) :
    ((s.scan c got).setPc c m (if got.length = 0 then .finish 0 else .generic got.length)).Tended := by
  have hdata : s.data = s.data ++ [] := (append_nil _).symm
  have hactive : (if got.length = 0 then CommitPc.finish 0 else .generic got.length).active = m.pc.active := by
    rw [hpc]
    split <;> rfl
  refine h.proceed hget rfl ?_ ?_ hdata rfl ?_ (fun r' hr' => ?_) nofun ?_
  · rw [hpc]
    nofun
  · split <;> nofun
  · rw [hactive]
    rfl
  · obtain ⟨j, hj, rfl⟩ := mem_mapIdx.mp hr'
    have hmem := s.reqs.getElem_mem hj
    have hhoused := h.housed _ hmem
    by_cases hjgot : j ∈ got
    · rw [if_pos hjgot]
      obtain ⟨r, b, hr, hplace, hunl⟩ := lockable_iff.mp (hgot.lockable j hjgot)
      obtain rfl : s.reqs[j] = r := some.inj ((getElem?_eq_getElem hj).symm.trans hr)
      refine ⟨?_, fun hlock => absurd (hunl.symm.trans hlock) Bool.noConfusion⟩
      have hpos : got.length ≠ 0 := fun hnil => by
        rw [length_eq_zero_iff.mp hnil] at hjgot
        cases hjgot
      rw [hplace] at hhoused ⊢
      cases b with
      | none =>
        refine ⟨_, got.length, getElem?_set_self (lt_of_getElem? hget), ?_⟩
        exact if_neg hpos
      | some b => exact hhoused
    · rw [if_neg hjgot]
      refine ⟨hhoused.move rfl hdata rfl fun hc => absurd hc ?_, h.locked _ hmem⟩
      exact h.not_head hget (fun n hn => by rw [hpc] at hn; cases hn) _ hmem
  · refine .inr (h.not_built hget ?_)
    rw [hpc]
    rfl

theorem Tended.retryHead (h : s.Tended) (hget : s.committers[c]? = some m) (hpc : m.pc = .generic nscan) :
    ((s.retryHead c).setPc c m (.finish (negErrno .enomem))).Tended := by
  obtain ⟨mayWait, pc⟩ := m
  obtain rfl : pc = .generic nscan := hpc
  have hdata : s.data = s.data ++ [] := (append_nil _).symm
  refine h.proceed hget rfl nofun nofun hdata rfl rfl (fun r' hr' => ?_) nofun (.inr (h.not_built hget rfl))
  obtain ⟨r, hr, rfl⟩ := mem_map.mp hr'
  split
  next hplace =>
    have hunl := h.unlocked hr (hplace ▸ nofun)
    exact ⟨trivial, fun hlock => absurd (hunl.symm.trans hlock) Bool.noConfusion⟩
  next hplace => exact ⟨(h.housed r hr).move rfl hdata rfl fun hc => absurd hc hplace, h.locked r hr⟩

theorem Tended.carries (h : s.Tended) (hc : Carries s c m pc new t) : t.Tended := by
  obtain ⟨hpc, hpc', -, -⟩ := hc.leads
  refine h.proceed hc.get hc.committers (ne_idle_of_active hpc) (ne_idle_of_active hpc') hc.data hc.fsync ?_ (fun r' hr' => ?_)
    (fun d hd _ => (hc.new d hd).1) hc.built
  · rw [hpc, hpc', hc.rpcs]
    omega
  obtain ⟨f, hmap, hf⟩ := hc.reqs
  rw [hmap] at hr'
  obtain ⟨r, hr, rfl⟩ := mem_map.mp hr'
  rcases hf r hr with ⟨hsame, hhead, -⟩ | ⟨hhands, hnew, hpages⟩
  · rw [hsame]
    exact ⟨(h.housed r hr).move hc.committers hc.data hc.arrays fun hc => absurd hc hhead, h.locked r hr⟩
  · rw [hpages]
    obtain ⟨d, rest, rfl⟩ := exists_cons_of_ne_nil hnew
    refine ⟨⟨d, ?_, (hc.new d mem_cons_self).2⟩, fun hlock => ?_⟩
    · rw [hc.data, getElem?_append_right le_rfl, Nat.sub_self]
      rfl
    · have hunl := h.unlocked hr fun b hb => by
        rcases hhands with ⟨c, hplace⟩ | ⟨b, hplace⟩ <;> cases hplace.symm.trans hb
      exact absurd (hunl.symm.trans hlock) Bool.noConfusion

/-- There is memory for the COMMIT, or the requests go back to their list. -/
theorem genericCommitList_cases (h : s.Tended) {alloc : Bool} (hs : s.step (.genericCommitList c alloc) = some t) :
    (∃ m pc new, Carries s c m pc new t) ∨ alloc = false ∧ ∃ m nscan, s.committers[c]? = some m ∧ m.pc = .generic nscan ∧
      t = (s.retryHead c).setPc c m (.finish (negErrno .enomem)) := by
  obtain ⟨⟨mayWait, pc⟩, hget, hs⟩ := bind_eq_some_iff.mp hs
  split at hs
  next nscan hpc =>
    obtain rfl : pc = .generic nscan := hpc
    cases hs
    have hfirst : ∀ b, (CommitPc.buckets nscan 0 0).Covers b := fun b =>
      (Nat.eq_zero_or_pos b.array).elim (fun hzero => .inr ⟨hzero.symm, Nat.zero_le _⟩) .inl
    have hbuilt := h.not_built hget rfl
    unfold nfsGenericCommitList
    split
    · unfold mypnfsGenericCommitPagelist
      split
      next hempty =>
        exact .inl ⟨_, _, _, carries_pass hget ⟨rfl, rfl, id, nofun⟩ (.inl rfl) fun r hr =>
          ⟨not_occupied (by simpa using hempty) r hr, fun b _ _ => hfirst b⟩⟩
      split
      next hfail => exact .inr ⟨by simpa using hfail, _, nscan, hget, rfl, rfl⟩
      · exact .inl ⟨_, _, _, carries_take hget (.inl rfl) ⟨rfl, rfl, id, nofun⟩ nofun (.inl rfl) fun r _ hne =>
          ⟨hne, fun b _ _ => hfirst b⟩⟩
    next hany =>
      have hvoid : ∀ r ∈ s.reqs, ∀ b, r.place ≠ .committing b := by
        intro r hr b hb
        have := any_eq_false.mp (Bool.eq_false_iff.mpr hany) r hr
        rw [hb] at this
        exact this rfl
      unfold nfsCommitList
      split
      next hempty =>
        exact .inl ⟨_, _, _, carries_pass hget (leads_nextScan nscan rfl id nofun) (.inr hbuilt) fun r hr =>
          ⟨not_occupied (by simpa using hempty) r hr, fun b hb => absurd hb (hvoid r hr b)⟩⟩
      split
      next hfail => exact .inr ⟨by simpa using hfail, _, nscan, hget, rfl, rfl⟩
      · refine .inl ⟨_, _, _, carries_take hget (.inl rfl) (leads_nextScan nscan rfl id nofun) nofun (.inr fun d hd hphase => ?_)
          fun r hr hne => ⟨hne, fun b hb => absurd hb (hvoid r hr b)⟩⟩
        rcases mem_append.mp hd with hd | hd
        · exact hbuilt d hd hphase
        · obtain rfl := mem_singleton.mp hd
          cases hphase
  · cases hs

theorem Tended.pnfsGenericRetryCommit {nbuckets : Nat} (h : s.Tended) (hget : s.committers[c]? = some m) (hpc : m.pc.builds)
    (hpc' : pc.builds) (harray : s.arrays[array]? = some nbuckets) (valid : Bool) :
    ((s.pnfsGenericRetryCommit array nbuckets idx valid).setPc c m pc).Tended := by
  have hactive : ∀ {pc : CommitPc}, pc.builds → pc.active ∧ pc ≠ .idle ∧ ∀ n, pc ≠ .generic n := by
    intro pc
    cases pc <;> simp [CommitPc.builds, CommitPc.active]
  have hdata : s.data = s.data ++ [] := (append_nil _).symm
  refine h.proceed hget rfl (hactive hpc).2.1 (hactive hpc').2.1 hdata rfl ?_ (fun r' hr' => ?_) nofun (.inl hpc')
  · rw [(hactive hpc).1, (hactive hpc').1]
    rfl
  obtain ⟨r, hr, rfl⟩ := mem_map.mp hr'
  have hkeep : ((s.pnfsGenericRetryCommit array nbuckets idx valid).setPc c m pc).Housed r.place :=
    (h.housed r hr).move rfl hdata rfl fun hc => absurd hc (h.not_head hget (hactive hpc).2.2 r hr)
  split
  next b hplace =>
    have hunl := h.unlocked hr (by rw [hplace]; nofun)
    split
    next hbucket =>
      refine ⟨?_, fun hlock => absurd (hunl.symm.trans hlock) Bool.noConfusion⟩
      cases valid with
      | false => trivial
      | true => exact ⟨nbuckets, harray, hbucket.2⟩
    · exact ⟨hkeep, h.locked r hr⟩
  · exact ⟨hkeep, h.locked r hr⟩

/-- The bucket is passed, or there is no memory for its COMMIT. -/
theorem bucketAllocDsCommits_cases (h : s.Tended) {alloc valid : Bool} (hs : s.step (.allocDsCommits c alloc valid) = some t) :
    (∃ m pc new, Carries s c m pc new t) ∨ alloc = false ∧ ∃ m nscan array idx nbuckets, s.committers[c]? = some m ∧
      m.pc = .buckets nscan array idx ∧ s.arrays[array]? = some nbuckets ∧
      t = (s.pnfsGenericRetryCommit array nbuckets idx valid).setPc c m (.buckets nscan (array + 1) 0) := by
  obtain ⟨⟨mayWait, pc⟩, hget, hs⟩ := bind_eq_some_iff.mp hs
  split at hs
  next nscan array idx hpc =>
    obtain rfl : pc = .buckets nscan array idx := hpc
    cases hs
    have hhead := h.not_head hget nofun
    have hbucket : ∀ r ∈ s.reqs, ∀ b, r.place = .committing b → s.HasBucket b := fun r hr b hb => by
      have hhoused := h.housed r hr
      rwa [hb] at hhoused
    -- a bucket that nothing is left in can be passed
    have hpass : ∀ {b : Bucket}, b ≠ ⟨array, idx⟩ → (CommitPc.buckets nscan array idx).Covers b →
        (CommitPc.buckets nscan array (idx + 1)).Covers b := by
      rintro b hne (hlt | ⟨heq, hle⟩)
      · exact .inl hlt
      · refine .inr ⟨heq, Nat.lt_of_le_of_ne hle fun hidx => hne ?_⟩
        rw [heq, hidx]
    unfold pnfsBucketAllocDsCommits
    split
    next harray =>
      refine .inl ⟨_, _, _, carries_pass hget ⟨rfl, rfl, id, nofun⟩ (.inl rfl) fun r hr => ⟨hhead r hr, fun b hb hcov => ?_⟩⟩
      obtain ⟨n, hn, -⟩ := hbucket r hr b hb
      have hlt := lt_of_getElem? hn
      have hlen := getElem?_eq_none_iff.mp harray
      rcases hcov with hcov | hcov <;> omega
    next nbuckets harray =>
      split
      next hend =>
        refine .inl ⟨_, _, _, carries_pass hget ⟨rfl, rfl, id, nofun⟩ (.inl rfl) fun r hr => ⟨hhead r hr, fun b hb hcov => ?_⟩⟩
        obtain ⟨n, hn, hidx⟩ := hbucket r hr b hb
        rcases hcov with hlt | ⟨heq, hle⟩
        · exact (Nat.lt_or_eq_of_le hlt).imp id fun heq => ⟨heq, Nat.zero_le _⟩
        · rw [← heq, harray] at hn
          cases hn
          omega
      split
      next hempty =>
        refine .inl ⟨_, _, _, carries_pass hget ⟨rfl, rfl, id, nofun⟩ (.inl rfl) fun r hr =>
          ⟨hhead r hr, fun b hb => hpass fun hbucket => ?_⟩⟩
        exact not_occupied (by simpa using hempty) r hr (hbucket ▸ hb)
      split
      · refine .inl ⟨_, _, _, carries_take hget (.inr ⟨_, rfl⟩) ⟨rfl, rfl, id, nofun⟩ nofun (.inl rfl) fun r hr hne =>
          ⟨hhead r hr, fun b hb => hpass fun hbucket => ?_⟩⟩
        exact hne (hbucket ▸ hb)
      next hfail => exact .inr ⟨by simpa using hfail, _, nscan, array, idx, nbuckets, hget, rfl, harray, rfl⟩
  · cases hs

theorem initiated_carries (h : s.Tended) (hs : s.step (.initiated c) = some t) : ∃ m pc, Carries s c m pc [] t := by
  obtain ⟨⟨mayWait, pc⟩, hget, hs⟩ := bind_eq_some_iff.mp hs
  split at hs
  next nscan hpc =>
    obtain rfl : pc = .initiate nscan := hpc
    obtain ⟨hnone, rfl⟩ := of_unless_some hs
    refine ⟨_, _, carries_pass hget (leads_nextScan nscan rfl id nofun) (.inr ?_) fun r hr => ⟨h.not_head hget nofun r hr, nofun⟩⟩
    rintro ⟨owner, phase⟩ hd rfl rfl
    exact hnone hd
  · cases hs

/-- A task that has nothing in its hands begins, ends or waits. -/
theorem Tended.call (h : s.Tended) (hget : s.committers[c]? = some m) (hpc : m.pc.builds = false ∧ ∀ n, m.pc ≠ .generic n)
    (hcs : t.committers = s.committers.set c m') (hdata : t.data = s.data) (harrays : t.arrays = s.arrays)
    (hreqs : t.reqs = s.reqs) (hcnt : t.rpcsOut + m.pc.active.toNat = s.rpcsOut + m'.pc.active.toNat)
    (hown : c = 0 → m'.mayWait ∧ (m'.pc = .idle ↔ t.fsync.phase ≠ .commit))
    (hother : c ≠ 0 → (t.fsync.phase ≠ .commit ↔ s.fsync.phase ≠ .commit)) : t.Tended := by
  have happend : t.data = s.data ++ [] := hdata.trans (append_nil _).symm
  refine h.move hget hcs happend hcnt (fun r hr => ?_) nofun (.inr ?_) hown hother
  · rw [hreqs] at hr
    exact ⟨(h.housed r hr).move hcs happend harrays fun hc => absurd hc (h.not_head hget hpc.2 r hr), h.locked r hr⟩
  · rw [hdata]
    exact h.not_built hget hpc.1

theorem Tended.commitReturn {rpcsOut : Nat} (h : s.Tended) (hget : s.committers[c]? = some m)
    (hpc : m.pc.builds = false ∧ ∀ n, m.pc ≠ .generic n) (hcnt : rpcsOut + m.pc.active.toNat = s.rpcsOut) (ret : Int) :
    ({ s with rpcsOut := rpcsOut }.commitReturn c m ret).Tended := by
  unfold WriteInode.commitReturn
  split
  next hc =>
    subst hc
    refine h.call hget hpc rfl rfl rfl rfl ?_ (fun _ => ⟨?_, iff_of_true rfl nofun⟩) fun hne => absurd rfl hne
    · exact hcnt
    · obtain ⟨m', hget', hwait, -⟩ := h.own
      cases hget.symm.trans hget'
      exact hwait
  next hc =>
    refine h.call hget hpc rfl rfl rfl rfl ?_ (fun h0 => absurd h0 hc) fun _ => Iff.rfl
    exact hcnt

theorem commitEnd_cases (hs : s.step (.commitEnd c) = some t) :
    ∃ m ret, s.committers[c]? = some m ∧ m.pc = .finish ret ∧ t = s.commitEnd c m ret := by
  obtain ⟨m, hget, hs⟩ := bind_eq_some_iff.mp hs
  split at hs
  next ret hpc =>
    cases hs
    exact ⟨m, ret, hget, hpc, rfl⟩
  · cases hs

theorem Tended.commitEnd {ret : Int} (h : s.Tended) (hget : s.committers[c]? = some m) (hpc : m.pc = .finish ret) :
    (s.commitEnd c m ret).Tended := by
  have hcnt : s.rpcsOut - 1 + m.pc.active.toNat = s.rpcsOut := by
    have hpos : 0 < s.committers.countP (·.pc.active) := countP_pos_iff.mpr ⟨m, mem_of_getElem? hget, by rw [hpc]; rfl⟩
    have hactive : m.pc.active.toNat = 1 := by rw [hpc]; rfl
    have := h.counted
    omega
  have hplain : m.pc.builds = false ∧ ∀ n, m.pc ≠ .generic n := by
    rw [hpc]
    exact ⟨rfl, nofun⟩
  unfold WriteInode.commitEnd
  split
  · exact h.commitReturn hget hplain hcnt ret
  · have hdata : s.data = s.data ++ [] := (append_nil _).symm
    refine h.proceed hget rfl (by rw [hpc]; nofun) nofun hdata rfl hcnt (fun r hr => ?_) nofun (.inr (h.not_built hget hplain.1))
    exact ⟨(h.housed r hr).move rfl hdata rfl fun hc => absurd hc (h.not_head hget hplain.2 r hr), h.locked r hr⟩

/-- A wait that was not interrupted ends when `rpcs_out` is zero. -/
theorem waitOnCommit_cases {killed : Bool} (hs : s.step (.waitOnCommit c killed) = some t) :
    ∃ m ret, s.committers[c]? = some m ∧ m.pc = .wait ∧ t = s.commitReturn c m ret ∧ (ret = 0 → s.rpcsOut = 0) := by
  obtain ⟨m, hget, hs⟩ := bind_eq_some_iff.mp hs
  obtain ⟨hpc, hs⟩ := of_guard hs
  split at hs
  · cases hs
    exact ⟨m, _, hget, hpc, rfl, fun hret => absurd hret (by decide)⟩
  · obtain ⟨hzero, rfl⟩ := of_guard_some hs
    exact ⟨m, 0, hget, hpc, rfl, fun _ => hzero⟩

theorem Tended.waitOnCommit (h : s.Tended) {killed : Bool} (hs : s.step (.waitOnCommit c killed) = some t) : t.Tended := by
  obtain ⟨m, ret, hget, hpc, rfl, -⟩ := waitOnCommit_cases hs
  refine h.commitReturn hget ?_ ?_ ret
  · rw [hpc]
    exact ⟨rfl, nofun⟩
  · rw [hpc]
    rfl

/-! ### The other steps -/

/-- A COMMIT goes on. -/
theorem Tended.setData {d : NfsCommitData} (h : s.Tended) (hd : s.data[k]? = some d) {phase : CommitDataPhase}
    {rpcsOut : Nat} (hphase : phase ≠ .built) (hcnt : rpcsOut + d.phase.out.toNat = s.rpcsOut + phase.out.toNat)
    (hreleased : phase = .released → ∀ r ∈ s.reqs, r.place ≠ .pages k) :
    ({ s with data := s.data.set k { d with phase := phase }, rpcsOut := rpcsOut } : WriteInode shift).Tended := by
  refine ⟨?_, fun r hr => ?_, h.locked, fun d' hd' hbuilt => ?_, h.own⟩
  · have hset := countP_set_add (·.phase.out) hd { d with phase := phase }
    have := h.counted
    dsimp only at hset ⊢
    omega
  · have hhoused := h.housed r hr
    have hrel := fun hp => hreleased hp r hr
    revert hhoused hrel
    cases r.place with
    | pages k' =>
      rintro ⟨d', hd', hphase'⟩ hrel
      by_cases hk : k = k'
      · subst hk
        refine ⟨_, getElem?_set_self (lt_of_getElem? hd), fun hp => ?_⟩
        exact hrel hp rfl
      · exact ⟨d', (getElem?_set_ne hk).trans hd', hphase'⟩
    | listed b => cases b <;> exact fun hhoused _ => hhoused
    | dirty | writeback | head _ | committing _ | removed _ => exact fun hhoused _ => hhoused
  · rcases mem_or_eq_of_mem_set hd' with hd' | rfl
    · exact h.built d' hd' hbuilt
    · exact absurd hbuilt hphase

theorem Tended.commitRelease (h : s.Tended) (hs : s.step (.commitRelease k) = some t) : t.Tended := by
  obtain ⟨d, hd, hs⟩ := bind_eq_some_iff.mp hs
  split at hs
  next status verf hphase =>
    obtain ⟨hempty, rfl⟩ := of_unless_some hs
    refine h.setData hd nofun ?_ fun _ => not_occupied (by simpa using hempty)
    have hpos : 0 < s.data.countP (·.phase.out) := countP_pos_iff.mpr ⟨d, mem_of_getElem? hd, by rw [hphase]; rfl⟩
    have hout : d.phase.out.toNat = 1 := by
      rw [hphase]
      rfl
    have hcount := h.counted
    change s.rpcsOut - 1 + d.phase.out.toNat = s.rpcsOut
    omega
  · cases hs

theorem Tended.setPhase {phase : FsyncPhase} (h : s.Tended) (hphase : phase ≠ .commit) (hs : s.fsync.phase ≠ .commit) :
    ({ s with wbErr := wbErr }.setPhase phase).Tended :=
  h.moveReqs rfl rfl rfl rfl (iff_of_true hphase hs) fun _ hr => .inl hr

theorem Tended.fsyncLoop (h : s.Tended) (hs : s.fsync.phase ≠ .commit) (f : Fsync) : (s.fsyncLoop f).Tended := by
  refine h.moveReqs rfl rfl rfl rfl (iff_of_true nofun hs) fun r' hr' => .inr ?_
  obtain ⟨r, hr, rfl⟩ := mem_map.mp hr'
  exact ⟨h.housed r hr, h.locked r hr⟩

theorem Tended.fsyncCommit (h : s.Tended) (hs : s.fsync.phase ≠ .commit) :
    (({ s with rpcsOut := s.rpcsOut + 1 }.setPc 0 ⟨true, .idle⟩ .scan).setPhase .commit).Tended := by
  obtain ⟨m, hget, hwait, hidle⟩ := h.own
  have hpc : m.pc = .idle := hidle.mpr hs
  refine h.call hget ?_ rfl rfl rfl rfl ?_ (fun _ => ⟨rfl, iff_of_false nofun fun hne => hne rfl⟩) fun hne => absurd rfl hne
  · rw [hpc]
    exact ⟨rfl, nofun⟩
  · rw [hpc]
    rfl

theorem checkWbErr_cases (hs : s.step .checkWbErr = some t) :
    ∃ ret, s.fsync.phase = .check ret ∧ t = s.checkWbErr ret fun s => s.setPhase .sync := by
  simp only [WriteInode.step] at hs
  split at hs
  next ret hphase =>
    cases hs
    exact ⟨ret, hphase, rfl⟩
  · cases hs

theorem Tended.checkWbErr (h : s.Tended) (hs : s.fsync.phase ≠ .commit) (ret : Int)
    {next : WriteInode shift → WriteInode shift} (hnext : (next s).Tended) : (s.checkWbErr ret next).Tended := by
  unfold WriteInode.checkWbErr
  split
  · exact h.setPhase nofun hs
  split
  · exact h.setPhase nofun hs
  · exact hnext

theorem housed_markRequestCommit {lseg : Option DsWrite} {verf : WriteVerf} (h : s.Fits (.reply verf lseg)) :
    s.Housed (nfsMarkRequestCommit lseg) := by
  cases lseg with
  | none => trivial
  | some ds =>
    simp only [nfsMarkRequestCommit]
    split
    · exact h
    · trivial

theorem Tended.writeDone (h : s.Tended) (hr : s.reqs[i]? = some r) (hplace : r.place = .writeback)
    {how : WriteEnd} (hfits : s.Fits how) : (s.writeDone i r how).Tended := by
  have hunl := h.unlocked (mem_of_getElem? hr) (by rw [hplace]; nofun)
  cases how with
  | redirty => exact h.putUnlocked trivial hunl
  | fail error => exact h.putUnlocked trivial hunl
  | reply verf lseg =>
    simp only [WriteInode.writeDone]
    split
    · exact h.putUnlocked (housed_markRequestCommit hfits) hunl
    · exact h.putUnlocked trivial hunl

theorem commitReleasePage_cases (hs : s.step (.commitReleasePage i) = some t) :
    ∃ r k status verf, s.reqs[i]? = some r ∧ r.place = .pages k ∧ t = s.commitReleasePage i r status verf := by
  obtain ⟨r, hr, hs⟩ := bind_eq_some_iff.mp hs
  split at hs
  next k hplace =>
    obtain ⟨d, hd, hs⟩ := bind_eq_some_iff.mp hs
    split at hs
    next status verf hphase =>
      cases hs
      exact ⟨r, k, status, verf, hr, hplace, rfl⟩
    · cases hs
  · cases hs

theorem Tended.commitReleasePage (h : s.Tended) (hr : s.reqs[i]? = some r) (hplace : r.place = .pages k) (status : Int)
    (verf : WriteVerf) : (s.commitReleasePage i r status verf).Tended := by
  have hunl := h.unlocked (mem_of_getElem? hr) (by rw [hplace]; nofun)
  unfold WriteInode.commitReleasePage
  split
  · exact h.putUnlocked trivial hunl
  split
  · exact h.putUnlocked trivial hunl
  · exact h.putUnlocked trivial hunl

/-- Every step keeps track of the requests. -/
theorem Tended.step (h : s.Tended) {e : WriteEvent shift} (hs : s.step e = some t) : t.Tended := by
  cases e with
  | newRequest page =>
    cases hs
    refine h.moveReqs rfl rfl rfl rfl Iff.rfl fun r hr => ?_
    rcases mem_append.mp hr with hr | hr
    · exact .inl hr
    · obtain rfl := mem_singleton.mp hr
      exact .inr ⟨trivial, nofun⟩
  | lock i =>
    obtain ⟨r, hr, hguard, rfl⟩ := of_bind_guard hs
    exact h.putReq (h.housed r (mem_of_getElem? hr)) fun _ => hguard.1
  | unlock i =>
    obtain ⟨r, hr, -, rfl⟩ := of_bind_guard hs
    exact h.putReq (h.housed r (mem_of_getElem? hr)) nofun
  | join i =>
    obtain ⟨r, hr, -, rfl⟩ := of_bind_guard hs
    exact h.putReq trivial nofun
  | flush i =>
    obtain ⟨r, hr, hplace, rfl⟩ := of_bind_guard hs
    have hunl := h.unlocked (mem_of_getElem? hr) (by rw [hplace]; nofun)
    exact h.putUnlocked trivial hunl
  | writeDone i how =>
    obtain ⟨r, hr, hguard, rfl⟩ := of_bind_guard hs
    exact h.writeDone hr hguard.1 hguard.2
  | commitInode c mayWait =>
    obtain ⟨m, hget, hguard, rfl⟩ := of_bind_guard hs
    refine h.call hget ?_ rfl rfl rfl rfl ?_ (fun hc => absurd hc hguard.1) fun _ => Iff.rfl
    · rw [hguard.2]
      exact ⟨rfl, nofun⟩
    · rw [hguard.2]
      rfl
  | scan c got =>
    obtain ⟨m, hget, hguard, rfl⟩ := of_bind_guard hs
    exact h.scan hget hguard.1 hguard.2
  | genericCommitList c alloc =>
    rcases genericCommitList_cases h hs with ⟨m, pc, new, hc⟩ | ⟨-, m, nscan, hget, hpc, rfl⟩
    · exact h.carries hc
    · exact h.retryHead hget hpc
  | allocDsCommits c alloc valid =>
    rcases bucketAllocDsCommits_cases h hs with ⟨m, pc, new, hc⟩ | ⟨-, m, nscan, array, idx, nbuckets, hget, hpc, harray, rfl⟩
    · exact h.carries hc
    · exact h.pnfsGenericRetryCommit hget (by rw [hpc]; rfl) rfl harray valid
  | initiateCommit c k =>
    obtain ⟨m, hget, hs⟩ := bind_eq_some_iff.mp hs
    split at hs
    · obtain ⟨hd, rfl⟩ := of_guard_some hs
      exact h.setData hd nofun rfl nofun
    · cases hs
  | initiated c =>
    obtain ⟨m, pc, hc⟩ := initiated_carries h hs
    exact h.carries hc
  | commitEnd c =>
    obtain ⟨m, ret, hget, hpc, rfl⟩ := commitEnd_cases hs
    exact h.commitEnd hget hpc
  | waitOnCommit c killed => exact h.waitOnCommit hs
  | commitDone k status verf =>
    obtain ⟨d, hd, hphase, rfl⟩ := of_bind_guard hs
    refine h.setData hd nofun ?_ nofun
    rw [hphase]
    rfl
  | commitReleasePage i =>
    obtain ⟨r, k, status, verf, hr, hplace, rfl⟩ := commitReleasePage_cases hs
    exact h.commitReleasePage hr hplace status verf
  | commitRelease k => exact h.commitRelease hs
  | takeWbErr =>
    cases hs
    exact h.moveReqs rfl rfl rfl rfl Iff.rfl fun _ hr => .inl hr
  | fsync start stop =>
    obtain ⟨hidle, rfl⟩ := of_unless_some hs
    exact h.fsyncLoop (fun hc => hidle (by rw [hc]; rfl)) _
  | writeAndWait ret =>
    obtain ⟨hguard, rfl⟩ := of_guard_some hs
    have hne : s.fsync.phase ≠ .commit := by rw [hguard.1]; nofun
    exact h.checkWbErr hne ret (h.fsyncCommit hne)
  | checkWbErr =>
    obtain ⟨ret, hphase, rfl⟩ := checkWbErr_cases hs
    have hne : s.fsync.phase ≠ .commit := by rw [hphase]; nofun
    exact h.checkWbErr hne ret (h.setPhase nofun hne)
  | syncInode ret =>
    obtain ⟨hphase, rfl⟩ := of_guard_some hs
    exact h.setPhase (by split <;> nofun) (by rw [hphase]; nofun)
  | compare =>
    obtain ⟨hphase, rfl⟩ := of_guard_some hs
    have hne : s.fsync.phase ≠ .commit := by rw [hphase]; nofun
    split
    · exact h.setPhase nofun hne
    · exact h.fsyncLoop hne _

theorem tended_of_run {arrays : List Nat} {n : Nat} {events : List (WriteEvent shift)}
    (hrun : exec step (init shift arrays n) events = some s) : s.Tended := by
  refine exec_invariant (fun _ _ _ hi hs => Tended.step hi hs) ?_ hrun
  refine ⟨?_, nofun, nofun, nofun, ⟨_, rfl, rfl, iff_of_true rfl nofun⟩⟩
  change 0 = countP _ (_ :: replicate n _) + 0
  rw [countP_cons, countP_replicate]
  rfl

end WriteInode

end Mynfs
