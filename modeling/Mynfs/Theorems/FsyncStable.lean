import Mynfs.Theorems.CommitPlaces

/-! What a successful `mynfs_file_fsync` says of requests that were dirty: one was redirtied, or its writeback ends, the
    scan takes it, and it is answered for before `rpcs_out` drops to zero (`Settles`). -/

namespace Mynfs

open List Option Machine

/-- The request is on stable storage: a WRITE said so, or a COMMIT. -/
def WriteReq.Stable {shift : Nat} (r : WriteReq shift) : Prop :=
  r.place = .removed .fileSync ∨ r.place = .removed .commit

namespace WriteInode
variable {shift : Nat} {s t u v : WriteInode shift} {r r' : WriteReq shift} {c i k : Nat} {m m' : Committer}
  {pc : CommitPc} {called : List Nat} {ret : Int}

section
variable (s : WriteInode shift)

/-- The commit of the call has failed, so that the call returns an error. -/
def Doomed : Prop :=
  match s.fsync.phase with
  | .commit => ∃ m ret, s.committers[0]? = some m ∧ m.pc = .finish ret ∧ ret ≠ 0
  | .check ret => ret ≠ 0
  | .idle | .writeAndWait | .sync | .compare | .returned _ => False

/-- Some task has still to look at what is on `committing` of the bucket, or the call fails. -/
def Covered (b : Bucket) : Prop :=
  (∃ (c : Nat) (m : Committer), s.committers[c]? = some m ∧ m.pc.Covers b) ∨ s.Doomed

/-- The call has scanned the commit lists to their end. -/
def OwnScanned : Prop := ∃ m, s.committers[0]? = some m ∧ m.pc.Scanned

/-- How far a request is at a point of the loop if it was not redirtied since the count was taken. -/
def Settles (r : WriteReq shift) : Prop :=
  match s.fsync.phase with
  | .writeAndWait => r.place = .dirty ∨ r.place = .writeback → r.awaited
  | .commit => r.place ≠ .dirty ∧ r.place ≠ .writeback ∧ (s.OwnScanned → r.listed = false)
  | .check ret => ret = 0 → ∃ ack, r.place = .removed ack
  | .sync | .compare => r.Stable
  | .idle | .returned _ => True

/-- A request that the call has to make stable. -/
structure Watched (r : WriteReq shift) : Prop where
  meets : r.Meets s.fsync.start s.fsync.stop
  unlocked : r.locked = false
  error : r.place = .removed .error → s.wbErr ≠ 0
  ack : r.place ≠ .removed .dataSync
  covered : ∀ b, r.place = .committing b → s.Covered b
  settles : s.fsync.saved < s.redirtied ∨ s.Settles r

/-- The requests that were dirty at the call are watched. -/
structure Sound (called : List Nat) (s : WriteInode shift) : Prop where
  saved_le : s.fsync.saved ≤ s.redirtied
  watched : ∀ i ∈ called, ∃ r, s.reqs[i]? = some r ∧ s.Watched r

end

/-- Not: an allocation that fails without the call failing; a writer that takes one of the requests; an answer for one
    through a segment that is no longer valid, or at `NFS_DATA_SYNC` only; and another caller that gets the file's
    error. -/
def Spares (called : List Nat) : WriteEvent shift → Prop
  | .genericCommitList c alloc => alloc ∨ c = 0
  | .allocDsCommits _ alloc _ => alloc
  | .lock i => i ∉ called
  | .writeDone i (.reply verf (some ds)) => i ∈ called → ds.valid ∧ verf.committed ≠ nfsDataSync
  | .takeWbErr => False
  | _ => True

instance (called : List Nat) (e : WriteEvent shift) : Decidable (Spares called e) :=
  match e with
  | .genericCommitList c alloc => inferInstanceAs (Decidable (alloc ∨ c = 0))
  | .allocDsCommits _ alloc _ => inferInstanceAs (Decidable (alloc))
  | .lock i => inferInstanceAs (Decidable (i ∉ called))
  | .writeDone i (.reply verf (some ds)) =>
    inferInstanceAs (Decidable (i ∈ called → ds.valid ∧ verf.committed ≠ nfsDataSync))
  | .takeWbErr => inferInstanceAs (Decidable False)
  | .writeDone _ (.reply _ none) | .writeDone _ .redirty | .writeDone _ (.fail _) | .newRequest _ | .unlock _ | .join _ | .flush _
  | .commitInode _ _ | .scan _ _ | .initiateCommit _ _ | .initiated _ | .commitEnd _ | .waitOnCommit _ _ | .commitDone _ _ _
  | .commitReleasePage _ | .commitRelease _ | .fsync _ _ | .writeAndWait _ | .checkWbErr | .syncInode _ | .compare =>
    inferInstanceAs (Decidable True)

/-! ### Frames -/

theorem Settles.frame (h : s.Settles r) (hphase : t.fsync.phase = s.fsync.phase)
    (hown : t.OwnScanned → s.OwnScanned ∨ r.listed = false) : t.Settles r := by
  unfold Settles at h ⊢
  rw [hphase]
  cases hp : s.fsync.phase with
  | commit =>
    rw [hp] at h
    exact ⟨h.1, h.2.1, fun ht => (hown ht).elim h.2.2 id⟩
  | idle | writeAndWait | check _ | sync | compare | returned _ =>
    rw [hp] at h
    exact h

theorem Watched.frame (h : s.Watched r) (hfsync : t.fsync = s.fsync) (hred : s.redirtied ≤ t.redirtied)
    (herr : s.wbErr ≠ 0 → t.wbErr ≠ 0) (hcovered : ∀ b, r.place = .committing b → s.Covered b → t.Covered b)
    (hown : t.OwnScanned → s.OwnScanned ∨ r.listed = false) : t.Watched r where
  meets := by
    rw [hfsync]
    exact h.meets
  unlocked := h.unlocked
  error hp := herr (h.error hp)
  ack := h.ack
  covered b hb := hcovered b hb (h.covered b hb)
  settles := by
    rw [hfsync]
    exact h.settles.imp (fun hlt => lt_of_lt_of_le hlt hred) fun hs => hs.frame (by rw [hfsync]) hown

theorem Settles.move (h : s.Settles r) (hr : ∀ ack, r.place ≠ .removed ack)
    (hwait : (r.place = .dirty ∨ r.place = .writeback → r.awaited) →
      r'.place = .dirty ∨ r'.place = .writeback → r'.awaited) (hcommit : r.place ≠ .dirty → r.place ≠ .writeback →
      r'.place ≠ .dirty ∧ r'.place ≠ .writeback ∧ (s.OwnScanned → r.listed = false → r'.listed = false)) : s.Settles r' := by
  unfold Settles at h ⊢
  cases hp : s.fsync.phase with
  | writeAndWait =>
    rw [hp] at h
    exact hwait h
  | commit =>
    rw [hp] at h
    obtain ⟨hdirty, hwb, hlisted⟩ := hcommit h.1 h.2.1
    exact ⟨hdirty, hwb, fun hown => hlisted hown (h.2.2 hown)⟩
  | check ret =>
    rw [hp] at h
    intro hret
    obtain ⟨ack, hack⟩ := h hret
    exact absurd hack (hr ack)
  | sync | compare =>
    rw [hp] at h
    rcases h with hack | hack <;> exact absurd hack (hr _)
  | idle | returned _ => trivial

theorem Sound.of_watched (h : Sound called s) (hle : t.fsync.saved ≤ t.redirtied) (hreqs : t.reqs = s.reqs)
    (hwat : ∀ r ∈ s.reqs, s.Watched r → t.Watched r) : Sound called t := by
  refine ⟨hle, fun i hi => ?_⟩
  obtain ⟨r, hr, hw⟩ := h.watched i hi
  exact ⟨r, hreqs ▸ hr, hwat r (mem_of_getElem? hr) hw⟩

/-! ### Steps on a request -/

theorem Sound.putReq {redirtied : Nat} {wbErr : Int} (h : Sound called s) (hr : s.reqs[i]? = some r)
    (hred : s.redirtied ≤ redirtied) (herr : s.wbErr ≠ 0 → wbErr ≠ 0)
    (hnew : i ∈ called → s.Watched r → ({ s with redirtied := redirtied, wbErr := wbErr }.putReq i r').Watched r') :
    Sound called ({ s with redirtied := redirtied, wbErr := wbErr }.putReq i r') := by
  refine ⟨h.saved_le.trans hred, fun j hj => ?_⟩
  obtain ⟨q, hq, hwat⟩ := h.watched j hj
  by_cases hij : i = j
  · subst hij
    cases hr.symm.trans hq
    exact ⟨r', getElem?_set_self (lt_of_getElem? hr), hnew hj hwat⟩
  · exact ⟨q, (getElem?_set_ne hij).trans hq, hwat.frame rfl hred herr (fun _ _ hb => hb) .inl⟩

theorem Sound.putOther (h : Sound called s) (hr : s.reqs[i]? = some r) (hi : i ∈ called → r.locked) :
    Sound called (s.putReq i r') := by
  refine h.putReq hr le_rfl id fun hcalled hwat => ?_
  exact absurd (hwat.unlocked.symm.trans (hi hcalled)) Bool.noConfusion

theorem Sound.flush (h : Sound called s) (hr : s.reqs[i]? = some r) (hplace : r.place = .dirty) :
    Sound called (s.putReq i { r with place := .writeback }) := by
  refine h.putReq hr le_rfl id fun _ hwat => ?_
  refine ⟨hwat.meets, hwat.unlocked, nofun, nofun, nofun, hwat.settles.imp_right fun hset => ?_⟩
  refine hset.move (by rw [hplace]; nofun) (fun hwait _ => hwait (.inl hplace)) fun hdirty => absurd hplace hdirty

theorem Settles.written (h : s.Settles r) (hplace : r.place = .writeback) (hdirty : r'.place ≠ .dirty)
    (hwb : r'.place ≠ .writeback) : s.Settles r' := by
  exact h.move (by rw [hplace]; nofun) (fun _ hp => (hp.elim hdirty hwb).elim) fun _ hne => absurd hplace hne

theorem Sound.writeDone (h : Sound called s) (hr : s.reqs[i]? = some r) (hplace : r.place = .writeback) {how : WriteEnd}
    (hspares : Spares called (.writeDone i how : WriteEvent shift)) : Sound called (s.writeDone i r how) := by
  cases how with
  | redirty =>
    refine h.putReq hr (Nat.le_succ _) id fun _ hwat => ?_
    exact ⟨hwat.meets, hwat.unlocked, by simp, by simp, by simp, .inl (Nat.lt_succ_of_le h.saved_le)⟩
  | fail error =>
    have herr : error.1 ≠ 0 := error.2.ne
    refine h.putReq hr le_rfl (fun _ => herr) fun _ hwat => ?_
    refine ⟨hwat.meets, hwat.unlocked, fun _ => herr, by simp, by simp, hwat.settles.imp_right fun hset => ?_⟩
    exact hset.written hplace (by simp) (by simp)
  | reply verf lseg =>
    simp only [WriteInode.writeDone]
    split
    · refine h.putReq hr le_rfl id fun hcalled hwat => ?_
      obtain ⟨b, hb⟩ : ∃ b, nfsMarkRequestCommit lseg = .listed b := by
        cases lseg with
        | none => exact ⟨none, rfl⟩
        | some ds => exact ⟨some ds.bucket, if_pos (hspares hcalled).1⟩
      rw [hb]
      refine ⟨hwat.meets, hwat.unlocked, by simp, by simp, by simp, hwat.settles.imp_right fun hset => ?_⟩
      exact hset.written hplace (by simp) (by simp)
    next hneed =>
      refine h.putReq hr le_rfl id fun hcalled hwat => ?_
      have hsync : verf.committed = nfsFileSync := by
        unfold nfsWriteNeedCommit at hneed
        split at hneed
        next hdata =>
          cases lseg with
          | none => exact absurd rfl hneed
          | some ds => exact absurd hdata (hspares hcalled).2
        · simpa using hneed
      rw [if_pos hsync]
      refine ⟨hwat.meets, hwat.unlocked, by simp, by simp, by simp, hwat.settles.imp_right fun hset => ?_⟩
      exact hset.written hplace (by simp) (by simp)

theorem Settles.carried (h : s.Settles r) (hr : ∀ ack, r.place ≠ .removed ack) (hdirty : r'.place ≠ .dirty)
    (hwb : r'.place ≠ .writeback) (hlisted : r'.listed = false) : s.Settles r' := by
  exact h.move hr (fun _ hp => (hp.elim hdirty hwb).elim) fun _ _ => ⟨hdirty, hwb, fun _ _ => hlisted⟩

theorem Sound.commitReleasePage (h : Sound called s) (hr : s.reqs[i]? = some r) (hplace : r.place = .pages k) (status : Int)
    (verf : WriteVerf) : Sound called (s.commitReleasePage i r status verf) := by
  have hopen : ∀ ack, r.place ≠ .removed ack := by
    rw [hplace]
    nofun
  unfold WriteInode.commitReleasePage
  split
  next hstat =>
    refine h.putReq hr le_rfl (fun _ => hstat.ne) fun _ hwat => ?_
    refine ⟨hwat.meets, hwat.unlocked, fun _ => hstat.ne, nofun, nofun, hwat.settles.imp_right fun hset => ?_⟩
    exact hset.carried hopen nofun nofun rfl
  split
  · refine h.putReq hr le_rfl id fun _ hwat => ?_
    refine ⟨hwat.meets, hwat.unlocked, nofun, nofun, nofun, hwat.settles.imp_right fun hset => ?_⟩
    exact hset.carried hopen nofun nofun rfl
  · refine h.putReq hr (Nat.le_succ _) id fun _ hwat => ?_
    exact ⟨hwat.meets, hwat.unlocked, nofun, nofun, nofun, .inl (Nat.lt_succ_of_le h.saved_le)⟩

/-! ### Steps of a task -/

theorem Covered.move {b : Bucket} (h : s.Covered b) (hget : s.committers[c]? = some m)
    (hcs : t.committers = s.committers.set c m') (hfsync : t.fsync = s.fsync) (hcovers : m.pc.Covers b → m'.pc.Covers b)
    (hret : c = 0 → ∀ ret, m.pc = .finish ret → ret = 0) : t.Covered b := by
  have hlt := lt_of_getElem? hget
  rcases h with ⟨c', m'', hget', hcov⟩ | hdoomed
  · left
    by_cases hc : c = c'
    · subst hc
      cases hget.symm.trans hget'
      refine ⟨c, m', ?_, hcovers hcov⟩
      rw [hcs, getElem?_set_self hlt]
    · refine ⟨c', m'', ?_, hcov⟩
      rw [hcs, getElem?_set_ne hc, hget']
  · right
    unfold Doomed at hdoomed ⊢
    rw [hfsync]
    split at hdoomed
    · obtain ⟨m'', ret, hget', hpc, hne⟩ := hdoomed
      by_cases hc : c = 0
      · subst hc
        cases hget.symm.trans hget'
        exact absurd (hret rfl ret hpc) hne
      · refine ⟨m'', ret, ?_, hpc, hne⟩
        rw [hcs, getElem?_set_ne hc, hget']
    all_goals exact hdoomed

theorem OwnScanned.move (h : t.OwnScanned) (hget : s.committers[c]? = some m) (hcs : t.committers = s.committers.set c m')
    (hscan : c = 0 → m'.pc.Scanned → m.pc.Scanned ∨ r.listed = false) : s.OwnScanned ∨ r.listed = false := by
  obtain ⟨m'', hget', hpc⟩ := h
  rw [hcs] at hget'
  by_cases hc : c = 0
  · subst hc
    rw [getElem?_set_self (lt_of_getElem? hget)] at hget'
    cases hget'
    exact (hscan rfl hpc).imp_left fun hs => ⟨m, hget, hs⟩
  · rw [getElem?_set_ne hc] at hget'
    exact .inl ⟨m'', hget', hpc⟩

theorem Watched.goOn (h : s.Watched r) (hget : s.committers[c]? = some m) (hcs : t.committers = s.committers.set c m')
    (hfsync : t.fsync = s.fsync) (hred : t.redirtied = s.redirtied) (hwbErr : t.wbErr = s.wbErr)
    (hcovers : ∀ b, r.place = .committing b → m.pc.Covers b → m'.pc.Covers b) (hscan : c = 0 → m'.pc.Scanned → m.pc.Scanned)
    (hret : c = 0 → ∀ ret, m.pc = .finish ret → ret = 0) : t.Watched r := by
  refine h.frame hfsync hred.ge (fun hne => by rwa [hwbErr]) (fun b hb hcov => ?_) fun hown => ?_
  · exact hcov.move hget hcs hfsync (hcovers b hb) hret
  · exact hown.move hget hcs fun hc hsc => .inl (hscan hc hsc)

/-- A task goes on that leaves no list `committing` behind. -/
theorem Sound.goOn (h : Sound called s) (hget : s.committers[c]? = some m) (hcs : t.committers = s.committers.set c m')
    (hfsync : t.fsync = s.fsync) (hred : t.redirtied = s.redirtied) (hwbErr : t.wbErr = s.wbErr) (hreqs : t.reqs = s.reqs)
    (hcovers : ∀ b, ¬m.pc.Covers b) (hscan : c = 0 → m'.pc.Scanned → m.pc.Scanned)
    (hret : c = 0 → ∀ ret, m.pc = .finish ret → ret = 0) : Sound called t := by
  refine h.of_watched (by rw [hfsync, hred]; exact h.saved_le) hreqs fun r _ hwat => ?_
  exact hwat.goOn hget hcs hfsync hred hwbErr (fun b _ hcov => absurd hcov (hcovers b)) hscan hret

theorem Sound.carries {new : List NfsCommitData} (h : Sound called s) (hc : Carries s c m pc new t) : Sound called t := by
  obtain ⟨-, -, hscan, hret⟩ := hc.leads
  refine ⟨by rw [hc.fsync, hc.redirtied]; exact h.saved_le, fun i hi => ?_⟩
  obtain ⟨r, hr, hwat⟩ := h.watched i hi
  obtain ⟨f, hmap, hf⟩ := hc.reqs
  refine ⟨f r, ?_, ?_⟩
  · rw [hmap, getElem?_map, hr]
    rfl
  have hgo : ∀ {q : WriteReq shift}, s.Watched q → (∀ b, q.place = .committing b → m.pc.Covers b → pc.Covers b) → t.Watched q :=
    fun hq hcovers => hq.goOn hc.get hc.committers hc.fsync hc.redirtied hc.wbErr hcovers (fun _ => hscan)
      fun _ ret hp => absurd hp (hret ret)
  rcases hf r (mem_of_getElem? hr) with ⟨hsame, -, hcovers⟩ | ⟨hhands, -, hpages⟩
  · rw [hsame]
    exact hgo hwat hcovers
  · rw [hpages]
    refine hgo ⟨hwat.meets, hwat.unlocked, nofun, nofun, nofun, hwat.settles.imp_right fun hset => ?_⟩ nofun
    refine hset.carried (fun ack hack => ?_) nofun nofun rfl
    rw [hack] at hhands
    rcases hhands with ⟨c, hc⟩ | ⟨b, hb⟩
    · cases hc
    · cases hb

theorem Tended.commit_phase (h : s.Tended) (hget : s.committers[0]? = some m) (hpc : m.pc ≠ .idle) : s.fsync.phase = .commit := by
  obtain ⟨m', hget', -, hidle⟩ := h.own
  cases hget.symm.trans hget'
  by_contra hphase
  exact hpc (hidle.mpr hphase)

/-- The call itself has no memory for a COMMIT: it will fail. -/
theorem Sound.retryHead (h : Sound called s) (hget : s.committers[0]? = some m) (hphase : s.fsync.phase = .commit)
    (hret : ret ≠ 0) (hcs : t.committers = s.committers.set 0 { m with pc := .finish ret }) (hfsync : t.fsync = s.fsync)
    (hred : t.redirtied = s.redirtied) (hwbErr : t.wbErr = s.wbErr) (hreqs : t.reqs = (s.retryHead 0).reqs) : Sound called t := by
  have hown : t.committers[0]? = some { m with pc := .finish ret } := by
    rw [hcs, getElem?_set_self (lt_of_getElem? hget)]
  have hnot : ¬t.OwnScanned := fun ⟨m', hm', hpc⟩ => by
    cases hown.symm.trans hm'
    exact hret hpc
  have hdoomed : t.Doomed := by
    unfold Doomed
    rw [hfsync, hphase]
    exact ⟨_, ret, hown, rfl, hret⟩
  refine ⟨by rw [hfsync, hred]; exact h.saved_le, fun i hi => ?_⟩
  obtain ⟨r, hr, hwat⟩ := h.watched i hi
  have hgo : t.Watched r :=
    hwat.frame hfsync hred.ge (fun hne => by rwa [hwbErr]) (fun _ _ _ => .inr hdoomed) fun hsc => absurd hsc hnot
  by_cases hplace : r.place = .head 0
  · refine ⟨{ r with place := .listed none }, ?_, hgo.meets, hgo.unlocked, nofun, nofun, nofun, hgo.settles.imp_right fun _ => ?_⟩
    · rw [hreqs]
      exact getElem?_map.trans ((congrArg _ hr).trans (congrArg some (if_pos hplace)))
    · unfold Settles
      rw [hfsync, hphase]
      exact ⟨nofun, nofun, fun hsc => absurd hsc hnot⟩
  · refine ⟨r, ?_, hgo⟩
    rw [hreqs]
    exact getElem?_map.trans ((congrArg _ hr).trans (congrArg some (if_neg hplace)))

theorem Sound.scan (h : Sound called s) (hget : s.committers[c]? = some m) (hpc : m.pc = .scan) {got : List Nat}
    (hgot : s.Scans got) (hcons : got.length ≠ 0 → pc = .generic got.length) : Sound called ((s.scan c got).setPc c m pc) := by
  have hmax : pc.Scanned → got.length < intMax := fun hsc => by
    by_cases hlen : got.length = 0
    · rw [hlen]
      decide
    · rw [hcons hlen] at hsc
      exact hsc
  have hret : c = 0 → ∀ ret, m.pc = .finish ret → ret = 0 := by
    rw [hpc]
    nofun
  have hcs : ((s.scan c got).setPc c m pc).committers = s.committers.set c { m with pc := pc } := rfl
  refine ⟨h.saved_le, fun i hi => ?_⟩
  obtain ⟨r, hr, hwat⟩ := h.watched i hi
  refine ⟨_, getElem?_mapIdx.trans (congrArg _ hr), ?_⟩
  beta_reduce
  by_cases hi' : i ∈ got
  · rw [if_pos hi']
    obtain ⟨r', b, hr', hplace, -⟩ := lockable_iff.mp (hgot.lockable i hi')
    cases hr.symm.trans hr'
    have hpos : got.length ≠ 0 := length_pos_iff.mpr (ne_nil_of_mem hi') |>.ne'
    have hset : ∀ {q : WriteReq shift}, q.place ≠ .dirty → q.place ≠ .writeback → q.listed = false →
        s.fsync.saved < s.redirtied ∨ ((s.scan c got).setPc c m pc).Settles q := fun hdirty hwb hlisted => by
      refine hwat.settles.imp_right fun hs => (hs.carried ?_ hdirty hwb hlisted).frame rfl fun _ => .inr hlisted
      rw [hplace]
      nofun
    rw [hplace]
    cases b with
    | none => exact ⟨hwat.meets, hwat.unlocked, nofun, nofun, nofun, hset nofun nofun rfl⟩
    | some b =>
      refine ⟨hwat.meets, hwat.unlocked, nofun, nofun, fun b' _ => .inl ⟨c, { m with pc := pc }, ?_, ?_⟩, hset nofun nofun rfl⟩
      · exact getElem?_set_self (lt_of_getElem? hget)
      · rw [hcons hpos]
        trivial
  · rw [if_neg hi']
    refine hwat.frame rfl le_rfl id (fun b _ hcov => ?_) fun hown => ?_
    · refine hcov.move hget hcs rfl (fun hc => ?_) hret
      rw [hpc] at hc
      exact hc.elim
    · refine hown.move hget hcs fun _ hsc => .inr ?_
      -- the scan went to the end, so that it would have taken the request
      by_contra hlisted
      obtain ⟨b, hb⟩ := WriteReq.listed_iff.mp (Bool.eq_true_of_not_eq_false hlisted)
      refine hi' (hgot.all (hmax hsc) i (lt_of_getElem? hr) (lockable_iff.mpr ?_))
      exact ⟨r, b, hr, hb, hwat.unlocked⟩

theorem Sound.returnFail {rpcsOut : Nat} (h : Sound called s) (hret : ret ≠ 0) :
    Sound called (({ s with rpcsOut := rpcsOut }.setPc 0 m .idle).setPhase (.check ret)) := by
  refine h.of_watched h.saved_le rfl fun r _ hwat => ?_
  exact { hwat with covered := fun _ _ => .inr hret, settles := hwat.settles.imp_right fun _ hzero => absurd hzero hret }

/-- When the wait ends with `rpcs_out` at zero, every request was answered for. -/
theorem Sound.returnZero (h : Sound called s) (htended : s.Tended) (hget : s.committers[0]? = some m) (hpc : m.pc = .wait)
    (hzero : s.rpcsOut = 0) : Sound called ((s.setPc 0 m .idle).setPhase (.check 0)) := by
  have hphase := htended.commit_phase hget (by rw [hpc]; nofun)
  obtain ⟨hidle, hnobody⟩ := htended.idle hzero
  have hcovered : ∀ b, ¬s.Covered b := by
    rintro b (⟨c, m', hget', hcov⟩ | hdoomed)
    · have hactive := hidle m' (mem_of_getElem? hget')
      rw [hcov.active] at hactive
      cases hactive
    · unfold Doomed at hdoomed
      rw [hphase] at hdoomed
      obtain ⟨m', ret, hget', hpc', -⟩ := hdoomed
      cases hget.symm.trans hget'
      rw [hpc] at hpc'
      cases hpc'
  refine h.of_watched h.saved_le rfl fun r hr hwat => ?_
  have hnone := fun b hb => hcovered b (hwat.covered b hb)
  refine { hwat with covered := fun b hb => absurd hb (hnone b), settles := hwat.settles.imp_right fun hset _ => ?_ }
  unfold Settles at hset
  rw [hphase] at hset
  obtain ⟨hdirty, hwb, hlisted⟩ := hset
  have hlisted' := hlisted ⟨m, hget, by rw [hpc]; trivial⟩
  obtain ⟨hhead, hpages⟩ := hnobody r hr
  cases hplace : r.place with
  | dirty => exact absurd hplace hdirty
  | writeback => exact absurd hplace hwb
  | listed b =>
    rw [WriteReq.listed_iff.mpr ⟨b, hplace⟩] at hlisted'
    cases hlisted'
  | head c => exact absurd hplace (hhead c)
  | committing b => exact absurd hplace (hnone b)
  | pages k => exact absurd hplace (hpages k)
  | removed ack => exact ⟨ack, rfl⟩

theorem Sound.commitEnd (h : Sound called s) (htended : s.Tended) (hget : s.committers[c]? = some m)
    (hpc : m.pc = .finish ret) : Sound called (s.commitEnd c m ret) := by
  have hvoid : ∀ b, ¬m.pc.Covers b := by
    rw [hpc]
    exact fun _ hcov => hcov
  unfold WriteInode.commitEnd WriteInode.commitReturn
  by_cases hc : c = 0
  · subst hc
    have hwait : m.mayWait := by
      obtain ⟨m', hget', hwait, -⟩ := htended.own
      cases hget.symm.trans hget'
      exact hwait
    split
    next hret => exact h.returnFail (hret.resolve_right (by rw [hwait]; nofun))
    next hret =>
      obtain rfl : ret = 0 := not_not.mp fun hne => hret (.inl hne)
      refine h.goOn hget rfl rfl rfl rfl rfl hvoid ?_ ?_
      · rw [hpc]
        exact fun _ _ => rfl
      · rw [hpc]
        rintro - ret' hret'
        exact (CommitPc.finish.inj hret').symm
  · split <;>
      exact h.goOn hget rfl rfl rfl rfl rfl hvoid (fun h0 => absurd h0 hc) fun h0 => absurd h0 hc

theorem Sound.waitOnCommit (h : Sound called s) (htended : s.Tended) {killed : Bool}
    (hs : s.step (.waitOnCommit c killed) = some t) : Sound called t := by
  obtain ⟨m, ret, hget, hpc, rfl, hzero⟩ := waitOnCommit_cases hs
  unfold WriteInode.commitReturn
  split
  next hc =>
    subst hc
    by_cases hret : ret = 0
    · subst hret
      exact h.returnZero htended hget hpc (hzero rfl)
    · exact h.returnFail hret
  next hc =>
    refine h.goOn hget rfl rfl rfl rfl rfl ?_ (fun h0 => absurd h0 hc) fun h0 => absurd h0 hc
    rw [hpc]
    exact fun _ hcov => hcov

/-! ### Steps of `mynfs_file_fsync` -/

theorem Sound.setPhase {phase : FsyncPhase} (h : Sound called s) (hdoomed : ¬s.Doomed)
    (hset : ∀ r, s.Watched r → s.Settles r → (s.setPhase phase).Settles r) : Sound called (s.setPhase phase) := by
  refine h.of_watched h.saved_le rfl fun r _ hwat => ?_
  exact { hwat with
    covered := fun b hb => .inl ((hwat.covered b hb).resolve_right hdoomed)
    settles := hwat.settles.imp_right (hset r hwat) }

theorem Sound.fsyncCommit (h : Sound called s) (htended : s.Tended) (hphase : s.fsync.phase = .writeAndWait)
    (hawaited : ∀ r ∈ s.reqs, r.awaited = false) :
    Sound called (({ s with rpcsOut := s.rpcsOut + 1 }.setPc 0 ⟨true, .idle⟩ .scan).setPhase .commit) := by
  obtain ⟨m, hget, -, hidle⟩ := htended.own
  have hpc : m.pc = .idle := hidle.mpr (by rw [hphase]; nofun)
  have hlt := lt_of_getElem? hget
  refine h.of_watched h.saved_le rfl fun r hr hwat => ?_
  refine { hwat with covered := fun b hb => ?_, settles := ?_ }
  · rcases hwat.covered b hb with ⟨c, m', hget', hcov⟩ | hdoomed
    · refine .inl ⟨c, m', (getElem?_set_ne fun hc => ?_).trans hget', hcov⟩
      subst hc
      cases hget.symm.trans hget'
      rw [hpc] at hcov
      exact hcov
    · unfold Doomed at hdoomed
      rw [hphase] at hdoomed
      exact hdoomed.elim
  · refine hwat.settles.imp_right fun hset => ?_
    unfold Settles at hset
    rw [hphase] at hset
    have hnot : ¬(r.place = .dirty ∨ r.place = .writeback) := fun hp =>
      absurd ((hawaited r hr).symm.trans (hset hp)) Bool.noConfusion
    refine ⟨fun hp => hnot (.inl hp), fun hp => hnot (.inr hp), fun ⟨m', hm', hsc⟩ => ?_⟩
    cases (getElem?_set_self hlt).symm.trans hm'
    exact hsc.elim

theorem Sound.fsyncLoop (h : Sound called s) (hphase : s.fsync.phase = .compare) : Sound called (s.fsyncLoop s.fsync) := by
  refine ⟨le_rfl, fun i hi => ?_⟩
  obtain ⟨r, hr, hwat⟩ := h.watched i hi
  refine ⟨_, getElem?_map.trans (congrArg _ hr), ?_⟩
  refine ⟨hwat.meets, hwat.unlocked, hwat.error, hwat.ack, fun b hb => .inl ?_, .inr fun hp => ?_⟩
  · refine (hwat.covered b hb).resolve_right fun hdoomed => ?_
    unfold Doomed at hdoomed
    rw [hphase] at hdoomed
    exact hdoomed
  · exact decide_eq_true ⟨hp, hwat.meets⟩

theorem checkWbErr_of_running {next : WriteInode shift → WriteInode shift}
    (h : (s.checkWbErr ret next).fsync.phase.running) : s.wbErr = 0 ∧ ret = 0 ∧ s.checkWbErr ret next = next s := by
  unfold checkWbErr at h ⊢
  split at h
  · cases h
  next herr =>
    split at h
    · cases h
    next hret => exact ⟨not_not.mp herr, not_not.mp hret, (if_neg herr).trans (if_neg hret)⟩

/-- The errors and the acknowledgements that `check` passes leave only stable requests. -/
theorem Sound.checkWbErr (h : Sound called s) (hs : s.step .checkWbErr = some t) (hrunning : t.fsync.phase.running) :
    Sound called t := by
  obtain ⟨ret, hphase, rfl⟩ := checkWbErr_cases hs
  obtain ⟨herr, hret, heq⟩ := checkWbErr_of_running hrunning
  rw [heq]
  refine h.setPhase ?_ fun r hwat hset => ?_
  · unfold Doomed
    rw [hphase]
    exact not_not.mpr hret
  · unfold Settles at hset
    rw [hphase] at hset
    obtain ⟨ack, hack⟩ := hset hret
    cases ack with
    | fileSync => exact .inl hack
    | dataSync => exact absurd hack hwat.ack
    | commit => exact .inr hack
    | error => exact absurd herr (hwat.error hack)

/-- While the call runs, every step keeps the watch on the requests that it is about. -/
theorem Sound.step (h : Sound called s) (htended : s.Tended) (hrunning : s.fsync.phase.running) {e : WriteEvent shift}
    (hspares : Spares called e) (hs : s.step e = some t) (hrunning' : t.fsync.phase.running) : Sound called t := by
  -- what concerns neither the requests nor the call
  have hkeep : ∀ {data : List NfsCommitData} {rpcsOut : Nat},
      Sound called ({ s with data := data, rpcsOut := rpcsOut } : WriteInode shift) :=
    h.of_watched h.saved_le rfl fun r _ hwat => hwat.frame rfl le_rfl id (fun _ _ hb => hb) .inl
  cases e with
  | newRequest page =>
    cases hs
    refine ⟨h.saved_le, fun i hi => ?_⟩
    obtain ⟨r, hr, hwat⟩ := h.watched i hi
    refine ⟨r, ?_, hwat.frame rfl le_rfl id (fun _ _ hb => hb) .inl⟩
    exact (getElem?_append_left (lt_of_getElem? hr)).trans hr
  | lock i =>
    obtain ⟨r, hr, -, rfl⟩ := of_bind_guard hs
    exact h.putOther hr fun hi => absurd hi hspares
  | unlock i =>
    obtain ⟨r, hr, hlocked, rfl⟩ := of_bind_guard hs
    exact h.putOther hr fun _ => hlocked
  | join i =>
    obtain ⟨r, hr, hlocked, rfl⟩ := of_bind_guard hs
    exact h.putOther hr fun _ => hlocked
  | flush i =>
    obtain ⟨r, hr, hplace, rfl⟩ := of_bind_guard hs
    exact h.flush hr hplace
  | writeDone i how =>
    obtain ⟨r, hr, hguard, rfl⟩ := of_bind_guard hs
    exact h.writeDone hr hguard.1 hspares
  | commitInode c mayWait =>
    obtain ⟨m, hget, hguard, rfl⟩ := of_bind_guard hs
    refine h.goOn hget rfl rfl rfl rfl rfl ?_ (fun hc => absurd hc hguard.1) fun hc => absurd hc hguard.1
    rw [hguard.2]
    exact fun _ hcov => hcov
  | scan c got =>
    obtain ⟨m, hget, hguard, rfl⟩ := of_bind_guard hs
    exact h.scan hget hguard.1 hguard.2 fun hne => if_neg hne
  | genericCommitList c alloc =>
    rcases genericCommitList_cases htended hs with ⟨m, pc, new, hc⟩ | ⟨hfail, m, nscan, hget, hpc, rfl⟩
    · exact h.carries hc
    · obtain rfl : c = 0 := hspares.resolve_left (by rw [hfail]; nofun)
      exact h.retryHead hget (htended.commit_phase hget (by rw [hpc]; nofun)) (by decide) rfl rfl rfl rfl rfl
  | allocDsCommits c alloc valid =>
    rcases bucketAllocDsCommits_cases htended hs with ⟨m, pc, new, hc⟩ | ⟨hfail, -⟩
    · exact h.carries hc
    · cases hfail.symm.trans hspares
  | initiateCommit c k =>
    obtain ⟨m, hget, hs⟩ := bind_eq_some_iff.mp hs
    split at hs
    · obtain ⟨-, rfl⟩ := of_guard_some hs
      exact hkeep
    · cases hs
  | initiated c =>
    obtain ⟨m, pc, hc⟩ := initiated_carries htended hs
    exact h.carries hc
  | commitEnd c =>
    obtain ⟨m, ret, hget, hpc, rfl⟩ := commitEnd_cases hs
    exact h.commitEnd htended hget hpc
  | waitOnCommit c killed => exact h.waitOnCommit htended hs
  | commitDone k status verf =>
    obtain ⟨d, hd, -, rfl⟩ := of_bind_guard hs
    exact hkeep
  | commitReleasePage i =>
    obtain ⟨r, k, status, verf, hr, hplace, rfl⟩ := commitReleasePage_cases hs
    exact h.commitReleasePage hr hplace status verf
  | commitRelease k =>
    obtain ⟨d, hd, hs⟩ := bind_eq_some_iff.mp hs
    split at hs
    · obtain ⟨-, hs⟩ := of_unless hs
      cases hs
      exact hkeep
    · cases hs
  | takeWbErr => exact hspares.elim
  | fsync start stop =>
    simp only [WriteInode.step, hrunning, if_true] at hs
    cases hs
  | writeAndWait ret =>
    obtain ⟨hguard, rfl⟩ := of_guard_some hs
    rw [(checkWbErr_of_running hrunning').2.2]
    exact h.fsyncCommit htended hguard.1 (by simpa using hguard.2)
  | checkWbErr => exact h.checkWbErr hs hrunning'
  | syncInode ret =>
    obtain ⟨hphase, rfl⟩ := of_guard_some hs
    split at hrunning'
    · cases hrunning'
    next hret =>
      rw [if_neg hret]
      refine h.setPhase ?_ fun r _ hset => ?_
      · unfold Doomed
        rw [hphase]
        exact id
      · unfold Settles at hset
        rw [hphase] at hset
        exact hset
  | compare =>
    obtain ⟨hphase, rfl⟩ := of_guard_some hs
    split at hrunning'
    · cases hrunning'
    next hne =>
      rw [if_neg hne]
      exact h.fsyncLoop hphase

theorem Sound.stable (h : Sound called s) (hs : s.step .compare = some t) (hzero : t.fsync.phase = .returned 0) :
    ∀ i ∈ called, ∃ r, t.reqs[i]? = some r ∧ r.Stable := by
  intro i hi
  obtain ⟨r, hr, hwat⟩ := h.watched i hi
  obtain ⟨hphase, rfl⟩ := of_guard_some hs
  split at hzero
  next heq =>
    rw [if_pos heq]
    refine ⟨r, hr, ?_⟩
    have hset := hwat.settles.resolve_left (by rw [heq]; exact lt_irrefl _)
    unfold Settles at hset
    rw [hphase] at hset
    exact hset
  · cases hzero

def smallPage : NfsPage 12 := .create (.folio ⟨0, 1⟩) 0 0 0 100 0 0 (by decide) (by decide)

def restarted : List (WriteEvent 12) :=
  [.flush 0, .writeDone 0 (.reply { verifier := 1 } none), .writeAndWait 0, .commitInode 1 false, .scan 1 [0], .scan 0 [],
    .genericCommitList 1 true, .commitEnd 0, .commitEnd 1, .commitDone 0 0 { verifier := 2, committed := nfsFileSync },
    .commitReleasePage 0, .commitRelease 0, .waitOnCommit 0 false, .checkWbErr, .syncInode 0, .compare,
    .flush 0, .writeDone 0 (.reply { verifier := 2 } (some ⟨⟨0, 0⟩, true⟩)), .writeAndWait 0, .scan 0 [0],
    .genericCommitList 0 true, .allocDsCommits 0 true true, .allocDsCommits 0 true true, .allocDsCommits 0 true true,
    .initiateCommit 0 1, .initiated 0, .commitEnd 0, .commitDone 1 0 { verifier := 2, committed := nfsFileSync },
    .commitReleasePage 0, .commitRelease 1, .waitOnCommit 0 false, .checkWbErr, .syncInode 0]

/-- The call's own commit takes the request off its bucket, and there is no memory for a `struct nfs_commit_data`. -/
def dsAllocFails : List (WriteEvent 12) :=
  [.newRequest smallPage, .fsync 0 99, .flush 0, .writeDone 0 (.reply {} (some ⟨⟨0, 0⟩, true⟩)), .writeAndWait 0, .scan 0 [0],
    .genericCommitList 0 true, .allocDsCommits 0 false true, .allocDsCommits 0 true true, .initiated 0, .commitEnd 0,
    .waitOnCommit 0 false, .checkWbErr, .syncInode 0, .compare]

/-- `rpcs_out` counts the tasks that commit and the COMMITs not released; at zero a commit can find every request. -/
theorem rpcsOut_exact {arrays : List Nat} {n : Nat} {events : List (WriteEvent shift)}
    (hrun : exec step (init shift arrays n) events = some s) :
    s.rpcsOut = s.committers.countP (·.pc.active) + s.data.countP (·.phase.out) ∧
    (s.rpcsOut = 0 → ∀ r ∈ s.reqs, (∀ c, r.place ≠ .head c) ∧ ∀ k, r.place ≠ .pages k) :=
  have htended := tended_of_run hrun
  ⟨htended.counted, fun hzero => (htended.idle hzero).2⟩

theorem rpcsOut_exact_dsAllocFails : ∃ s, exec step (init 12 [1] 0) dsAllocFails = some s ∧
    ∀ r ∈ s.reqs, (∀ c, r.place ≠ .head c) ∧ ∀ k, r.place ≠ .pages k := by
  refine exists_exec (P := fun s => s.rpcsOut = 0) (by decide +kernel) fun s hrun hzero => ?_
  exact (rpcsOut_exact hrun).2 hzero

/-- Another task has taken the request when the call scans for it, and puts it back. -/
example : (exec step (init 12 [] 1)
      [.newRequest smallPage, .fsync 0 99, .flush 0, .writeDone 0 (.reply {} none), .writeAndWait 0, .commitInode 1 false,
        .scan 1 [0], .scan 0 [], .commitEnd 0, .genericCommitList 1 false, .commitEnd 1, .waitOnCommit 0 false, .checkWbErr,
        .syncInode 0, .compare]).map (fun s => (s.fsync.phase, s.reqs.map (·.place))) =
    some (.returned 0, [.listed none]) := by
  decide +kernel

end WriteInode

end Mynfs
