import Mynfs.Open.System
import Mynfs.Theorems.OpenStateid

/-! Closing gives up no mode still open: no OPEN is applied between a close and its reply but for a new open at the
    server. -/

namespace Mynfs

open Option Machine
open Nfs4State
open scoped List
open Bool (and_eq_true and_eq_true_iff)

/-! ### Numbers and sequence ids -/

theorem seqOf_toNat (n : Nat) : (seqOf n).toNat = (n - 1) % (2 ^ 32 - 1) + 1 := by
  exact Nat.mod_eq_of_lt (by omega)

variable {a b : Nat} {s₁ s₂ : Stateid}

/-- Numbers less than a cycle apart have different sequence ids. -/
theorem seqOf_inj (ha : 1 ≤ a) (hab : a ≤ b) (hb : b < a + (2 ^ 32 - 1)) (h : seqOf a = seqOf b) : a = b := by
  have hmod := congrArg BitVec.toNat h
  rw [seqOf_toNat, seqOf_toNat] at hmod
  omega

theorem isNext_seqOf (h₁ : s₁.seqid = seqOf a) (h₂ : s₂.seqid = seqOf (a + 1)) (ha : 1 ≤ a) : s₁.nfs4StateidIsNext s₂ := by
  refine decide_eq_true ?_
  rw [h₁, h₂]
  have hnext := seqOf_toNat (a + 1)
  have hthis := seqOf_toNat a
  by_cases hwrap : (a - 1) % (2 ^ 32 - 1) = 2 ^ 32 - 2
  · right
    constructor <;> apply BitVec.eq_of_toNat_eq
    · show _ = 1
      omega
    · show _ = 2 ^ 32 - 1
      omega
  · left
    apply BitVec.eq_of_toNat_eq
    show _ = (_ + 1) % 2 ^ 32
    omega

theorem eq_succ_of_isNext (h₁ : s₁.seqid = seqOf a) (h₂ : s₂.seqid = seqOf b) (ha : 1 ≤ a)
    (hab : a < b) (hb : b < a + (2 ^ 32 - 1)) (h : s₁.nfs4StateidIsNext s₂) : b = a + 1 := by
  have hthis := seqOf_toNat a
  have hnext := seqOf_toNat b
  rcases of_decide_eq_true h with h | ⟨h, h'⟩
  · have hsucc := congrArg BitVec.toNat h
    rw [h₁, h₂, BitVec.toNat_add, hthis, hnext] at hsucc
    change _ = (_ + 1) % 2 ^ 32 at hsucc
    omega
  · have hone := congrArg BitVec.toNat h
    have hmax := congrArg BitVec.toNat h'
    rw [h₂, hnext] at hone
    rw [h₁, hthis] at hmax
    change _ = 1 at hone
    change _ = 2 ^ 32 - 1 at hmax
    omega

theorem eq_one_of_seqOf (hb : 1 ≤ b) (hlt : b < 1 + (2 ^ 32 - 1)) (h : seqOf b = 1) : b = 1 := by
  have hone := congrArg BitVec.toNat h
  rw [seqOf_toNat] at hone
  change _ = 1 at hone
  omega

/-! ### Counts and flags by mode -/

namespace Nfs4State
variable (st : Nfs4State) (fmode m : Fmode)

theorem count_updateOpenStateflags : (st.updateOpenStateflags fmode).count m =
    st.count m + if m = fmode ∧ m ≠ ⟨false, false⟩ then 1 else 0 := by
  obtain ⟨_ | _, _ | _⟩ := fmode <;> obtain ⟨_ | _, _ | _⟩ := m <;> rfl

theorem flag_updateOpenStateflags : (st.updateOpenStateflags fmode).flag m = st.flag m := by
  obtain ⟨_ | _, _ | _⟩ := fmode <;> obtain ⟨_ | _, _ | _⟩ := m <;> rfl

theorem flag_setOpenMode : (st.setOpenMode fmode).flag m = (st.flag m || decide (m = fmode ∧ m ≠ ⟨false, false⟩)) := by
  obtain ⟨_ | _, _ | _⟩ := fmode <;> obtain ⟨_ | _, _ | _⟩ := m <;> simp [setOpenMode, flag]

theorem count_setOpenMode : (st.setOpenMode fmode).count m = st.count m := by
  obtain ⟨_ | _, _ | _⟩ := fmode <;> obtain ⟨_ | _, _ | _⟩ := m <;> rfl

def gaveUp : Bool := decide (m = ⟨true, true⟩) || (decide (m = ⟨true, false⟩) && !fmode.read) ||
  (decide (m = ⟨false, true⟩) && !fmode.write)

theorem gaveUp_none {m : Fmode} (hm : m ≠ ⟨false, false⟩) : gaveUp ⟨false, false⟩ m := by
  obtain ⟨_ | _, _ | _⟩ := m
  · exact absurd rfl hm
  all_goals rfl

theorem flag_clearOpenMode : (st.clearOpenMode fmode).flag m = (st.flag m && !gaveUp fmode m) := by
  obtain ⟨_ | _, _ | _⟩ := fmode <;> obtain ⟨_ | _, _ | _⟩ := m <;> simp [clearOpenMode, flag, gaveUp]

theorem count_clearOpenMode : (st.clearOpenMode fmode).count m = st.count m := by
  obtain ⟨_ | _, _ | _⟩ := fmode <;> obtain ⟨_ | _, _ | _⟩ := m <;> rfl

theorem openState_clearOpenMode : (st.clearOpenMode fmode).openState = (st.openState && decide (fmode ≠ ⟨false, false⟩)) := by
  obtain ⟨_ | _, _ | _⟩ := fmode <;> simp [clearOpenMode]

theorem updateOpenStateidFinish_cases (deleg : Option OpenDelegation) (hasOpen : Bool) (delegation : Option Stateid) :
    (st.updateOpenStateidFinish deleg hasOpen delegation fmode).2.flag m = st.flag m ∧
    ((st.updateOpenStateidFinish deleg hasOpen delegation fmode).2.count m ≠ 0 → st.count m ≠ 0 ∨
      m = fmode ∧ (hasOpen ∨ ∃ d, deleg = some d ∧ d.returning = false ∧ d.type.covers fmode)) := by
  have hcount : ∀ st' : Nfs4State, st'.count m = st.count m → (st'.updateOpenStateflags fmode).count m ≠ 0 →
      st.count m ≠ 0 ∨ m = fmode := fun st' h hne => by
    rw [count_updateOpenStateflags, h] at hne
    split at hne
    next hm => exact .inr hm.1
    · exact .inl hne
  have hset : ∀ sid, (st.nfsStateSetDelegation sid).count m = st.count m ∧
      (st.nfsStateSetDelegation sid).flag m = st.flag m := fun sid => by
    obtain ⟨_ | _, _ | _⟩ := m <;> exact ⟨rfl, rfl⟩
  have hplain : ∀ b : Bool, (if b = true then st.updateOpenStateflags fmode else st).flag m = st.flag m ∧
      ((if b = true then st.updateOpenStateflags fmode else st).count m ≠ 0 → st.count m ≠ 0 ∨ m = fmode ∧ b) := by
    intro b
    cases b with
    | true => exact ⟨flag_updateOpenStateflags .., fun h => (hcount st rfl h).imp_right fun h => ⟨h, rfl⟩⟩
    | false => exact ⟨rfl, .inl⟩
  unfold updateOpenStateidFinish
  cases deleg with
  | none =>
    refine ⟨(hplain hasOpen).1, fun h => ((hplain hasOpen).2 h).imp_right fun h => ⟨h.1, .inl h.2⟩⟩
  | some d =>
    dsimp only
    split
    next hsuits =>
      simp only [OpenDelegation.suits, and_eq_true, Bool.not_eq_true'] at hsuits
      refine ⟨(flag_updateOpenStateflags ..).trans (hset _).2, fun h => (hcount _ (hset _).1 h).imp_right fun h => ?_⟩
      exact ⟨h, .inr ⟨d, rfl, hsuits.1.1, hsuits.1.2⟩⟩
    · exact ⟨(hplain hasOpen).1, fun h => ((hplain hasOpen).2 h).imp_right fun h => ⟨h.1, .inl h.2⟩⟩

theorem closeCount_cases : (st.closeCount fmode).flag m = st.flag m ∧ (st.closeCount fmode).count m ≤ st.count m := by
  obtain ⟨_ | _, _ | _⟩ := fmode <;> obtain ⟨_ | _, _ | _⟩ := m <;> simp [closeCount, flag, count]

theorem nfs4Close_cases : (st.nfs4Close fmode).2.flag m = st.flag m ∧ ((st.nfs4Close fmode).2.count m ≠ 0 → st.count m ≠ 0) := by
  obtain ⟨hflag, hcount⟩ := closeCount_cases st fmode m
  have hsame : (st.nfs4Close fmode).2.flag m = (st.closeCount fmode).flag m ∧
      (st.nfs4Close fmode).2.count m = (st.closeCount fmode).count m := by
    unfold nfs4Close
    dsimp only
    repeat' split
    all_goals obtain ⟨_ | _, _ | _⟩ := m <;> exact ⟨rfl, rfl⟩
  exact ⟨hsame.1.trans hflag, fun h => by omega⟩

theorem closeMode_gaveUp (h : st.closeMode.2) (hm : gaveUp st.closeMode.1 m) (hcount : st.count m ≠ 0) :
    st.flag m = false := by
  unfold closeMode at h hm
  split at h
  next hrdwr =>
    obtain ⟨_ | _, _ | _⟩ := m <;> simp_all [gaveUp, count, flag]
  · cases h

theorem exists_flag_of_closeMode (h : st.closeMode.2) : ∃ m, st.flag m := by
  unfold closeMode at h
  split at h
  · simp only [Bool.or_eq_true, and_eq_true] at h
    obtain (⟨-, h⟩ | ⟨-, h⟩) | ⟨-, h⟩ := h
    · exact ⟨⟨true, false⟩, h⟩
    · exact ⟨⟨false, true⟩, h⟩
    · exact ⟨⟨true, true⟩, h⟩
  · cases h

theorem nfs4ClosePrepare_cases {sid arg : Stateid} (h : st.nfs4ClosePrepare sid = some (arg, fmode)) :
    st.closeMode.2 ∧ fmode = st.closeMode.1 ∧ arg.other = st.openStateid.other ∧
    (arg.seqid = st.openStateid.seqid ∨ st.nfs4StateMatchOpenStateidOther sid ∧ arg = sid) := by
  obtain ⟨hcall, h⟩ := of_guard h
  obtain ⟨hcall, hvalid⟩ := and_eq_true_iff.mp hcall
  cases some.inj h
  refine ⟨hcall, rfl, ?_⟩
  unfold nfs4SyncOpenStateid
  rw [if_neg (by simpa using hvalid)]
  split
  next hmatch =>
    have hother : st.openStateid.other = sid.other := Stateid.matchOther_iff.mp (and_eq_true_iff.mp hmatch).2
    split
    · exact ⟨hother.symm, .inl rfl⟩
    · exact ⟨hother.symm, .inr ⟨hmatch, rfl⟩⟩
  · exact ⟨rfl, .inl rfl⟩

end Nfs4State

/-! ### The invariant -/

namespace OpenNet
variable (s : OpenNet) {st : Nfs4State} {opener : Option Fmode} {closers i : Nat} {fmode : Fmode} {calls : List CloseCall}
  {stateid : Stateid} {k : OpenNumber} {openReplies : List OpenReply} {closeReplies : List (CloseCall × OpenNumber)}
  {t : OpenNet} {call : CloseCall} {r : CloseCall × OpenNumber}

def At (other : BitVec 96) : Prop := s.st.openState ∧ s.st.openStateid.other = other

def Deleg (m : Fmode) : Prop := ∃ d, s.deleg = some d ∧ d.returning = false ∧ d.type.covers m

/-- The file is open with the mode, or about to be counted as such. -/
def Uses (m : Fmode) : Prop := m ≠ ⟨false, false⟩ ∧ (s.st.count m ≠ 0 ∨ s.opener = some m)

/-- Nothing but the delegation is lost if the flags are cleared for `fmode`. -/
def Idle (fmode : Fmode) : Prop := ∀ m, gaveUp fmode m → s.Uses m → s.Deleg m

def numbers : List OpenNumber :=
  s.openReplies.map (·.number) ++ (s.closeReplies.filter fun r => decide (r.1.fmode ≠ ⟨false, false⟩)).map (·.2)

/-- The client knows the stateid as number `q`. -/
structure Known (stateid : Stateid) (q : Nat) : Prop where
  used : stateid.other ∈ s.used
  live : ∀ k, s.server = some k → k.other = stateid.other → s.At stateid.other
  old : s.At stateid.other → 1 ≤ q ∧ q ≤ s.rank ∧ stateid.seqid = seqOf q

/-- The invariant of client and server. -/
structure Sound : Prop where
  used_ne : ∀ o ∈ s.used, o ≠ 0
  server : ∀ k, s.server = some k → k.other ∈ s.used ∧ 1 ≤ k.n
  current : ∀ o, s.At o → o ∈ s.used ∧ 1 ≤ s.rank ∧ s.st.openStateid.seqid = seqOf s.rank
  behind : ∀ k, s.server = some k → s.At k.other → s.rank ≤ k.n
  number : ∀ k ∈ s.numbers, ∃ n, s.server = some ⟨k.other, n⟩ ∧ 1 ≤ k.n ∧ k.n ≤ n ∧ (s.At k.other → s.rank < k.n)
  distinct : s.numbers.Nodup
  tasks : ∀ t ∈ s.tasks, s.Known t.1 t.2
  calls : ∀ c ∈ s.calls, s.Known c.argStateid c.sentAt ∧ (s.At c.argStateid.other → s.rank = c.sentAt → s.Idle c.fmode)
  downgrades : ∀ r ∈ s.closeReplies, r.1.fmode ≠ ⟨false, false⟩ →
    r.2.other = r.1.argStateid.other ∧ s.At r.2.other ∧ r.2.n = s.rank + 1 ∧ s.Idle r.1.fmode
  closes : ∀ r ∈ s.closeReplies, r.1.fmode = ⟨false, false⟩ → r.1.argStateid.other ∈ s.used ∧
    (∀ k, s.server = some k → k.other ≠ r.1.argStateid.other) ∧ (s.At r.1.argStateid.other → s.Idle ⟨false, false⟩)
  closing : ∀ o, s.At o → (∀ k, s.server = some k → k.other ≠ o) →
    ∃ r ∈ s.closeReplies, r.1.fmode = ⟨false, false⟩ ∧ r.1.argStateid.other = o
  flags : ∀ m, s.st.flag m → s.st.openState
  covered : ∀ m, s.Uses m → s.st.flag m ∨ s.Deleg m

variable {s}

theorem Uses.count {m : Fmode} (h : s.Uses m) (hnone : s.opener = none) : s.st.count m ≠ 0 := h.2.resolve_right (by simp [hnone])

theorem sound_fresh : Sound {} where
  used_ne _ h := by cases h
  server _ h := by cases h
  current _ h := by cases h.1
  behind _ h := by cases h
  number _ h := by cases h
  distinct := List.nodup_nil
  tasks _ h := by cases h
  calls _ h := by cases h
  downgrades _ h := by cases h
  closes _ h := by cases h
  closing _ h := by cases h.1
  flags m h := by
    obtain ⟨_ | _, _ | _⟩ := m <;> cases h
  covered m h := by
    obtain ⟨_, hcount | hopener⟩ := h
    · obtain ⟨_ | _, _ | _⟩ := m <;> exact absurd rfl hcount
    · cases hopener

/-! ### Steps of the client that do not touch the stateid -/

theorem Sound.client (h : s.Sound) {deleg : Option OpenDelegation}
    (hopen : st.openState = s.st.openState) (hid : st.openStateid = s.st.openStateid) (hflag : ∀ m, st.flag m = s.st.flag m)
    (huses : ∀ m, OpenNet.Uses { s with st, deleg, opener, closers } m →
      s.Uses m ∨ OpenNet.Deleg { s with st, deleg, opener, closers } m)
    (hdeleg : ∀ m, s.Deleg m → OpenNet.Deleg { s with st, deleg, opener, closers } m) :
    OpenNet.Sound { s with st, deleg, opener, closers } := by
  have hat : ∀ o, OpenNet.At { s with st, deleg, opener, closers } o ↔ s.At o := fun o => by
    simp only [At, hopen, hid]
  have hidle : ∀ fm, s.Idle fm → OpenNet.Idle { s with st, deleg, opener, closers } fm := fun fm hi m hm hu =>
    (huses m hu).elim (fun hs => hdeleg m (hi m hm hs)) id
  have hknown : ∀ sid q, s.Known sid q → OpenNet.Known { s with st, deleg, opener, closers } sid q := fun sid q hk =>
    ⟨hk.used, fun k hs ho => (hat _).mpr (hk.live k hs ho), fun ha => hk.old ((hat _).mp ha)⟩
  refine ⟨h.used_ne, h.server, fun o ha => ?_, fun k hs ha => h.behind k hs ((hat _).mp ha), fun k hk => ?_, h.distinct,
    fun t ht => hknown _ _ (h.tasks t ht), fun c hc => ?_, fun r hr hf => ?_, fun r hr hf => ?_,
    fun o ha hs => h.closing o ((hat o).mp ha) hs, fun m hm => ?_, fun m hm => ?_⟩
  · obtain ⟨h₁, h₂, h₃⟩ := h.current o ((hat o).mp ha)
    exact ⟨h₁, h₂, hid ▸ h₃⟩
  · obtain ⟨n, h₁, h₂, h₃, h₄⟩ := h.number k hk
    exact ⟨n, h₁, h₂, h₃, fun ha => h₄ ((hat _).mp ha)⟩
  · obtain ⟨hk, hi⟩ := h.calls c hc
    exact ⟨hknown _ _ hk, fun ha hr => hidle _ (hi ((hat _).mp ha) hr)⟩
  · obtain ⟨h₁, h₂, h₃, h₄⟩ := h.downgrades r hr hf
    exact ⟨h₁, (hat _).mpr h₂, h₃, hidle _ h₄⟩
  · obtain ⟨h₁, h₂, h₃⟩ := h.closes r hr hf
    exact ⟨h₁, h₂, fun ha => hidle _ (h₃ ((hat _).mp ha))⟩
  · exact hopen.trans (h.flags m (hflag m ▸ hm))
  · rcases huses m hm with hs | hd
    · rcases h.covered m hs with hf | hd
      · exact .inl ((hflag m).trans hf)
      · exact .inr (hdeleg m hd)
    · exact .inr hd

variable (h : s.Sound)
include h

theorem Sound.finishOpen (hopener : s.opener = some fmode) :
    OpenNet.Sound { s with st := (s.st.updateOpenStateidFinish s.deleg true none fmode).2, opener := none } := by
  obtain ⟨hid, hopen⟩ := openStateid_updateOpenStateidFinish s.st s.deleg true none fmode
  refine h.client hopen hid (fun m => (updateOpenStateidFinish_cases ..).1) (fun m hm => .inl ⟨hm.1, ?_⟩) fun m => id
  rcases (updateOpenStateidFinish_cases ..).2 (hm.count rfl) with hold | ⟨rfl, -⟩
  · exact .inl hold
  · exact .inr hopener

theorem Sound.cachedOpen {truncates : Bool} {claim : OpenClaim} (hnone : s.opener = none)
    (hcached : s.st.canOpenCached fmode truncates claim) :
    OpenNet.Sound { s with st := s.st.updateOpenStateflags fmode } := by
  obtain ⟨hid, hopen⟩ := openStateid_updateOpenStateflags s.st fmode
  refine h.client hopen hid (fun m => flag_updateOpenStateflags ..) (fun m hm => .inl ⟨hm.1, .inl ?_⟩) fun m => id
  have hcount := hm.count hnone
  rw [count_updateOpenStateflags] at hcount
  split at hcount
  next hsame =>
    -- a cached open needs an open with the same mode
    obtain ⟨rfl, -⟩ := hsame
    unfold canOpenCached at hcached
    obtain ⟨_ | _, _ | _⟩ := m <;> cases truncates <;> cases claim <;> simp_all [count]
  · exact hcount

theorem Sound.delegatedOpen {delegation : Option Stateid} (hnone : s.opener = none) :
    OpenNet.Sound { s with st := (s.st.updateOpenStateidFinish s.deleg false delegation fmode).2 } := by
  obtain ⟨hid, hopen⟩ := openStateid_updateOpenStateidFinish s.st s.deleg false delegation fmode
  refine h.client hopen hid (fun m => (updateOpenStateidFinish_cases ..).1) (fun m hm => ?_) fun m => id
  rcases (updateOpenStateidFinish_cases ..).2 (hm.count hnone) with hold | ⟨rfl, hfalse | hdeleg⟩
  · exact .inl ⟨hm.1, .inl hold⟩
  · cases hfalse
  · exact .inr hdeleg

theorem Sound.grant {deleg : OpenDelegation} (hreturning : deleg.returning = false)
    (hcovers : s.deleg.all (fun d => deleg.type.covers d.type)) : OpenNet.Sound { s with deleg := some deleg } := by
  refine h.client rfl rfl (fun m => rfl) (fun m hm => .inl hm) fun m hm => ?_
  obtain ⟨d, hd, -, hm⟩ := hm
  rw [hd] at hcovers
  refine ⟨deleg, rfl, hreturning, ?_⟩
  simp only [all_some, Fmode.covers, and_eq_true, Bool.or_eq_true, Bool.not_eq_true'] at hcovers hm ⊢
  refine ⟨hm.1.imp_right fun h => ?_, hm.2.imp_right fun h => ?_⟩
  · exact hcovers.1.resolve_left (by simp [h])
  · exact hcovers.2.resolve_left (by simp [h])

theorem Sound.close (hnone : s.opener = none) : OpenNet.Sound { s with st := (s.st.nfs4Close fmode).2, closers := closers } := by
  obtain ⟨hid, hopen⟩ := openStateid_nfs4Close s.st fmode
  exact h.client hopen hid (fun m => (nfs4Close_cases ..).1) (fun m hm => .inl ⟨hm.1, .inl ((nfs4Close_cases ..).2 (hm.count hnone))⟩)
    fun m => id

omit h

/-! ### Closing -/

theorem Sound.tasksAndCalls (h : s.Sound) {tasks : List (Stateid × Nat)} (htasks : ∀ t ∈ tasks, s.Known t.1 t.2)
    (hcalls : ∀ c ∈ calls, s.Known c.argStateid c.sentAt ∧
      (s.At c.argStateid.other → s.rank = c.sentAt → s.Idle c.fmode)) :
    OpenNet.Sound { s with closers, tasks, calls } := by
  refine ⟨h.used_ne, h.server, h.current, h.behind, h.number, h.distinct, fun t ht => ?_, fun c hc => ?_, h.downgrades,
    h.closes, h.closing, h.flags, h.covered⟩
  · exact ⟨(htasks t ht).used, (htasks t ht).live, (htasks t ht).old⟩
  · obtain ⟨hk, hi⟩ := hcalls c hc
    exact ⟨⟨hk.used, hk.live, hk.old⟩, hi⟩

theorem Sound.doClose (h : s.Sound) : s.doClose.Sound := by
  refine h.tasksAndCalls (fun t ht => ?_) h.calls
  rcases List.mem_append.mp ht with ht | ht
  · exact h.tasks t ht
  · unfold nfs4CopyOpenStateid at ht
    split at ht
    next hopen =>
      obtain rfl : t = (s.st.openStateid, s.rank) := by simpa using ht
      obtain ⟨hused, hrank, hseqid⟩ := h.current _ ⟨hopen, rfl⟩
      exact ⟨hused, fun _ _ _ => ⟨hopen, rfl⟩, fun _ => ⟨hrank, le_rfl, hseqid⟩⟩
    · simp at ht

theorem Sound.closePrepare (h : s.Sound) {q : Nat} (hnone : s.opener = none)
    (ht : (stateid, q) ∈ s.tasks) : (s.closePrepare i stateid q).Sound := by
  have htasks : ∀ t ∈ s.tasks.eraseIdx i, s.Known t.1 t.2 := fun t ht => h.tasks t (List.mem_of_mem_eraseIdx ht)
  unfold OpenNet.closePrepare
  cases hprep : s.st.nfs4ClosePrepare stateid with
  | none => exact h.tasksAndCalls htasks h.calls
  | some p =>
    obtain ⟨arg, fmode⟩ := p
    obtain ⟨hcall, rfl, hother, harg⟩ := nfs4ClosePrepare_cases s.st _ hprep
    obtain ⟨m, hm⟩ := exists_flag_of_closeMode s.st hcall
    have hat : s.At arg.other := ⟨h.flags m hm, hother.symm⟩
    obtain ⟨hused, hrank, hseqid⟩ := h.current _ hat
    have hidle : s.Idle s.st.closeMode.1 := fun m hm hu =>
      (h.covered m hu).resolve_left (by simp [closeMode_gaveUp s.st m hcall hm (hu.count hnone)])
    refine h.tasksAndCalls htasks fun c hc => ?_
    rcases List.mem_append.mp hc with hc | hc
    · exact h.calls c hc
    · obtain rfl := List.mem_singleton.mp hc
      refine ⟨⟨hused, fun _ _ _ => hat, fun _ => ?_⟩, fun _ _ => hidle⟩
      split
      next hsame => exact ⟨hrank, le_rfl, hsame.trans hseqid⟩
      next hne =>
        obtain ⟨hmatch, rfl⟩ := harg.resolve_left hne
        exact (h.tasks _ ht).old hat

/-! ### The server -/

theorem Sound.serverNext (h : s.Sound) (hs : s.server = some k)
    (hnums : OpenNet.numbers { s with openReplies, closeReplies } ~ { k with n := k.n + 1 } :: s.numbers)
    (hcalls : ∀ c ∈ calls, c ∈ s.calls)
    (hdowngrades : ∀ r ∈ closeReplies, r.1.fmode ≠ ⟨false, false⟩ →
      r.2.other = r.1.argStateid.other ∧ s.At r.2.other ∧ r.2.n = s.rank + 1 ∧ s.Idle r.1.fmode)
    (hcloses : ∀ r : CloseCall × OpenNumber, r.1.fmode = ⟨false, false⟩ → (r ∈ closeReplies ↔ r ∈ s.closeReplies)) :
    OpenNet.Sound { s with server := some { k with n := k.n + 1 }, openReplies, calls, closeReplies } := by
  have hnumber : ∀ k' ∈ s.numbers, k'.other = k.other ∧ 1 ≤ k'.n ∧ k'.n ≤ k.n ∧ (s.At k'.other → s.rank < k'.n) := by
    intro k' hk'
    obtain ⟨n, hs', h₁, h₂, h₃⟩ := h.number k' hk'
    cases hs.symm.trans hs'
    exact ⟨rfl, h₁, h₂, h₃⟩
  have hknown : ∀ sid q, s.Known sid q → ∀ k', some { k with n := k.n + 1 } = some k' → k'.other = sid.other →
      s.At sid.other := fun sid q hk k' hk' ho => by
    cases hk'
    exact hk.live k hs ho
  refine ⟨h.used_ne, fun k' hk' => ?_, h.current, fun k' hk' ha => ?_, fun k' hk' => ?_, ?_,
    fun t ht => ⟨(h.tasks t ht).used, hknown _ _ (h.tasks t ht), (h.tasks t ht).old⟩, fun c hc => ?_, hdowngrades,
    fun r hr hf => ?_, fun o ha hk' => ?_, h.flags, h.covered⟩
  · cases hk'
    exact ⟨(h.server k hs).1, Nat.le_add_left 1 k.n⟩
  · cases hk'
    exact (h.behind k hs ha).trans (Nat.le_succ _)
  · rcases List.mem_cons.mp (hnums.mem_iff.mp hk') with rfl | hk'
    · exact ⟨k.n + 1, rfl, Nat.le_add_left 1 k.n, le_rfl, fun ha => Nat.lt_succ_of_le (h.behind k hs ha)⟩
    · obtain ⟨ho, h₁, h₂, h₃⟩ := hnumber k' hk'
      exact ⟨k.n + 1, by rw [ho], h₁, h₂.trans (Nat.le_succ _), h₃⟩
  · refine hnums.nodup_iff.mpr (List.nodup_cons.mpr ⟨fun hmem => ?_, h.distinct⟩)
    exact absurd (hnumber _ hmem).2.2.1 (Nat.not_succ_le_self _)
  · obtain ⟨hk, hi⟩ := h.calls c (hcalls c hc)
    exact ⟨⟨hk.used, hknown _ _ hk, hk.old⟩, hi⟩
  · obtain ⟨h₁, h₂, h₃⟩ := h.closes r ((hcloses r hf).mp hr) hf
    refine ⟨h₁, fun k' hk' => ?_, h₃⟩
    cases hk'
    exact h₂ k hs
  · obtain ⟨r, hr, hf, ho⟩ := h.closing o ha fun k'' hk'' => by
      cases hs.symm.trans hk''
      exact hk' { k with n := k.n + 1 } rfl
    exact ⟨r, (hcloses r hf).mpr hr, hf, ho⟩

theorem numbers_openReply (k : OpenNumber) (fmode : Fmode) :
    OpenNet.numbers { s with openReplies := s.openReplies ++ [⟨k, fmode⟩] } ~ k :: s.numbers := by
  simp only [numbers, List.map_append, List.map_cons, List.map_nil, List.append_assoc, List.singleton_append]
  exact List.perm_middle

theorem Sound.serveOpen (h : s.Sound) {other : BitVec 96} (ht : s.serveOpen fmode other = some t) : t.Sound := by
  unfold OpenNet.serveOpen at ht
  cases hs : s.server with
  | some k =>
    rw [hs] at ht
    cases ht
    exact h.serverNext hs (numbers_openReply ..) (fun _ => id) h.downgrades fun _ _ => Iff.rfl
  | none =>
    rw [hs] at ht
    obtain ⟨hfresh, rfl⟩ := of_guard_some ht
    have hempty : s.numbers = [] := List.eq_nil_iff_forall_not_mem.mpr fun k hk => by
      obtain ⟨n, hs', -⟩ := h.number k hk
      rw [hs] at hs'
      cases hs'
    have hnot : ¬ s.At other := fun ha => hfresh.2 (h.current other ha).1
    have hknown : ∀ sid q, s.Known sid q → ∀ k', some (⟨other, 1⟩ : OpenNumber) = some k' → k'.other = sid.other →
        s.At sid.other := fun sid q hk k' hk' ho => by
      cases hk'
      have ho : other = sid.other := ho
      exact absurd (ho ▸ hk.used) hfresh.2
    have hused : ∀ o ∈ s.used, o ∈ other :: s.used := fun o ho => List.mem_cons_of_mem _ ho
    refine ⟨fun o ho => ?_, fun k' hk' => ?_, fun o ha => ?_, fun k' hk' ha => ?_, fun k' hk' => ?_, ?_,
      fun t ht => ⟨hused _ (h.tasks t ht).used, hknown _ _ (h.tasks t ht), (h.tasks t ht).old⟩, fun c hc => ?_,
      h.downgrades, fun r hr hf => ?_, fun o ha _ => h.closing o ha fun k' hk' => ?_, h.flags, h.covered⟩
    · rcases List.mem_cons.mp ho with rfl | ho
      · exact hfresh.1
      · exact h.used_ne o ho
    · cases hk'
      exact ⟨List.mem_cons_self, le_rfl⟩
    · obtain ⟨h₁, h₂⟩ := h.current o ha
      exact ⟨hused o h₁, h₂⟩
    · cases hk'
      exact absurd ha hnot
    · rcases List.mem_cons.mp ((numbers_openReply ..).mem_iff.mp hk') with rfl | hk'
      · exact ⟨1, rfl, le_rfl, le_rfl, fun ha => absurd ha hnot⟩
      · rw [hempty] at hk'
        cases hk'
    · refine (numbers_openReply ..).nodup_iff.mpr ?_
      rw [hempty]
      exact List.nodup_singleton _
    · obtain ⟨hk, hi⟩ := h.calls c hc
      exact ⟨⟨hused _ hk.used, hknown _ _ hk, hk.old⟩, hi⟩
    · obtain ⟨h₁, -, h₃⟩ := h.closes r hr hf
      refine ⟨hused _ h₁, fun k' hk' ho => ?_, h₃⟩
      cases hk'
      have ho : other = r.1.argStateid.other := ho
      exact hfresh.2 (ho ▸ h₁)
    · rw [hs] at hk'
      cases hk'

/-- Fewer changes happen at the server while a close or a reply is on its way than there are sequence ids. -/
def Recent (s : OpenNet) : Prop := ∀ k ∈ s.server,
  (∀ c ∈ s.calls, c.argStateid.other = k.other → k.n < c.sentAt + (2 ^ 32 - 1)) ∧
  (s.At k.other → k.n < s.rank + (2 ^ 32 - 1)) ∧ (¬ s.At k.other → k.n < 2 ^ 32)

instance (s : OpenNet) (o : BitVec 96) : Decidable (s.At o) := inferInstanceAs (Decidable (_ ∧ _))

instance : DecidablePred Recent := fun s => inferInstanceAs (Decidable (∀ k ∈ s.server, _))

/-- A CLOSE that the server accepts gives up modes that nobody uses. -/
theorem Sound.call_accepted (h : s.Sound) (hrecent : s.Recent) (hs : s.server = some k)
    (hc : call ∈ s.calls) (hother : call.argStateid.other = k.other) (hseqid : call.argStateid.seqid = seqOf k.n) :
    s.At k.other ∧ s.rank = k.n ∧ s.Idle call.fmode ∧ s.numbers = [] := by
  obtain ⟨hknown, hidle⟩ := h.calls call hc
  have hat : s.At call.argStateid.other := hknown.live k hs hother.symm
  obtain ⟨h₁, h₂, h₃⟩ := hknown.old hat
  have hle : s.rank ≤ k.n := h.behind k hs (hother ▸ hat)
  have heq : call.sentAt = k.n := seqOf_inj h₁ (h₂.trans hle) ((hrecent k hs).1 call hc hother) (h₃.symm.trans hseqid)
  have hrank : s.rank = k.n := le_antisymm hle (heq ▸ h₂)
  refine ⟨hother ▸ hat, hrank, hidle hat (hrank.trans heq.symm), List.eq_nil_iff_forall_not_mem.mpr fun k' hk' => ?_⟩
  obtain ⟨n, hs', -, hn, hlt⟩ := h.number k' hk'
  cases hs.symm.trans hs'
  exact absurd (hlt (hother ▸ hat)) (Nat.not_lt.mpr (hrank ▸ hn))

theorem numbers_closeReply (call : CloseCall) (k : OpenNumber) :
    OpenNet.numbers { s with closeReplies := s.closeReplies ++ [(call, k)] } =
      s.numbers ++ if call.fmode = ⟨false, false⟩ then [] else [k] := by
  by_cases hclose : call.fmode = ⟨false, false⟩ <;>
    simp [numbers, List.filter_append, hclose]

theorem mem_closeReply (hf : r.1.fmode = ⟨false, false⟩) (hcall : call.fmode ≠ ⟨false, false⟩) :
    r ∈ s.closeReplies ++ [(call, k)] ↔ r ∈ s.closeReplies := by
  refine ⟨fun hr => ?_, fun hr => List.mem_append.mpr (.inl hr)⟩
  rcases List.mem_append.mp hr with hr | hr
  · exact hr
  · obtain rfl := List.mem_singleton.mp hr
    exact absurd hf hcall

theorem Sound.serveClose (h : s.Sound) (hrecent : s.Recent)
    (hc : call ∈ s.calls) (ht : s.serveClose i call = some t) : t.Sound := by
  have hcalls : ∀ c ∈ s.calls.eraseIdx i, c ∈ s.calls := fun c hc => List.mem_of_mem_eraseIdx hc
  unfold OpenNet.serveClose at ht
  split at ht
  next k hs =>
    obtain ⟨hmatch, ht⟩ := of_guard ht
    obtain ⟨hat, hrank, hidle, hempty⟩ := h.call_accepted hrecent hs hc hmatch.2 hmatch.1
    cases ht
    have hnums := numbers_closeReply (s := s) call { k with n := k.n + 1 }
    by_cases hclose : call.fmode = ⟨false, false⟩
    · -- the server forgets the open, and the client will when the reply arrives
      rw [if_pos hclose]
      rw [if_pos hclose, hempty, List.append_nil] at hnums
      refine ⟨h.used_ne, fun k' hk' => ?_, h.current, fun k' hk' => ?_, fun k' hk' => ?_, ?_, fun t ht => ?_,
        fun c hc => ?_, fun r hr hf => ?_, fun r hr hf => ?_, fun o ha _ => ?_, h.flags, h.covered⟩
      · cases hk'
      · cases hk'
      · exact absurd hk' (List.eq_nil_iff_forall_not_mem.mp hnums k')
      · exact (congrArg List.Nodup hnums).mpr List.nodup_nil
      · exact ⟨(h.tasks t ht).used, nofun, (h.tasks t ht).old⟩
      · obtain ⟨hk, hi⟩ := h.calls c (hcalls c hc)
        exact ⟨⟨hk.used, nofun, hk.old⟩, hi⟩
      · rcases List.mem_append.mp hr with hr | hr
        · exact h.downgrades r hr hf
        · obtain rfl := List.mem_singleton.mp hr
          exact absurd hclose hf
      · rcases List.mem_append.mp hr with hr | hr
        · obtain ⟨h₁, -, h₃⟩ := h.closes r hr hf
          exact ⟨h₁, nofun, h₃⟩
        · obtain rfl := List.mem_singleton.mp hr
          exact ⟨(h.calls call hc).1.used, nofun, fun _ => hclose ▸ hidle⟩
      · refine ⟨(call, { k with n := k.n + 1 }), by simp, hclose, ?_⟩
        exact hmatch.2.trans (hat.2.symm.trans ha.2)
    · rw [if_neg hclose]
      rw [if_neg hclose] at hnums
      refine h.serverNext hs (hnums ▸ List.perm_append_singleton ..) hcalls (fun r hr hf => ?_)
        fun r hf => mem_closeReply hf hclose
      rcases List.mem_append.mp hr with hr | hr
      · exact h.downgrades r hr hf
      · obtain rfl := List.mem_singleton.mp hr
        exact ⟨hmatch.2.symm, hat, congrArg (· + 1) hrank.symm, hidle⟩
  · cases ht

/-! ### Replies at the client -/

theorem Sound.moveTo (h : s.Sound) {n : Nat}
    (hs : s.server = some ⟨k.other, n⟩) (hk : 1 ≤ k.n) (hkn : k.n ≤ n) (hopen : st.openState)
    (hid : st.openStateid = k.stateid) (hold : s.At k.other → s.rank < k.n)
    (hnums : s.numbers ~ k :: OpenNet.numbers { s with openReplies, closeReplies })
    (hlt : ∀ k' ∈ s.numbers, k' ≠ k → k.n < k'.n) (hreplies : ∀ r ∈ closeReplies, r ∈ s.closeReplies)
    (hcov : ∀ m, OpenNet.Uses { s with st, opener } m → st.flag m ∨ s.Deleg m) :
    OpenNet.Sound { s with st, opener, rank := k.n, openReplies, closeReplies } := by
  have hat : ∀ o, OpenNet.At { s with st, opener, rank := k.n, openReplies, closeReplies } o ↔ o = k.other := fun o => by
    unfold At
    rw [hopen, hid]
    exact ⟨fun h => h.2.symm, fun h => ⟨rfl, h.symm⟩⟩
  obtain ⟨hfresh, hnodup⟩ := List.nodup_cons.mp (hnums.nodup_iff.mp h.distinct)
  have hpend : ∀ k' ∈ OpenNet.numbers { s with openReplies, closeReplies }, k' ∈ s.numbers ∧ k.n < k'.n := by
    intro k' hk'
    have hmem := hnums.mem_iff.mpr (List.mem_cons_of_mem _ hk')
    exact ⟨hmem, hlt k' hmem fun heq => hfresh (heq ▸ hk')⟩
  -- a stateid under the new `other` was older than `k`
  have hknown : ∀ sid q, s.Known sid q → sid.other = k.other → 1 ≤ q ∧ q < k.n ∧ sid.seqid = seqOf q := by
    intro sid q hq ho
    have ha := hq.live _ hs ho.symm
    obtain ⟨h₁, h₂, h₃⟩ := hq.old ha
    exact ⟨h₁, h₂.trans_lt (hold (ho ▸ ha)), h₃⟩
  have hnew : ∀ sid q, s.Known sid q → OpenNet.Known { s with st, opener, rank := k.n, openReplies, closeReplies } sid q := by
    intro sid q hq
    refine ⟨hq.used, fun k' hk' ho => ?_, fun ha => ?_⟩
    · cases hs.symm.trans hk'
      exact (hat _).mpr ho.symm
    · obtain ⟨h₁, h₂, h₃⟩ := hknown sid q hq ((hat _).mp ha)
      exact ⟨h₁, h₂.le, h₃⟩
  refine ⟨h.used_ne, h.server, fun o ha => ?_, fun k' hk' _ => ?_, fun k' hk' => ?_, hnodup,
    fun t ht => hnew _ _ (h.tasks t ht), fun c hc => ⟨hnew _ _ (h.calls c hc).1, fun ha hr => ?_⟩, fun r hr hf => ?_,
    fun r hr hf => ?_, fun o ha hne => ?_, fun _ _ => hopen, hcov⟩
  · obtain rfl := (hat o).mp ha
    exact ⟨(h.server _ hs).1, hk, hid ▸ rfl⟩
  · cases hs.symm.trans hk'
    exact hkn
  · obtain ⟨hmem, hlt⟩ := hpend k' hk'
    obtain ⟨n', hs', h₁, h₂, -⟩ := h.number k' hmem
    exact ⟨n', hs', h₁, h₂, fun _ => hlt⟩
  · obtain ⟨-, hlt, -⟩ := hknown _ _ (h.calls c hc).1 ((hat _).mp ha)
    exact absurd hr (Nat.ne_of_gt hlt)
  · -- a pending downgrade would be the next change
    obtain ⟨-, ha, hn, -⟩ := h.downgrades r (hreplies r hr) hf
    have hmem : r.2 ∈ OpenNet.numbers { s with openReplies, closeReplies } := by
      refine List.mem_append.mpr (.inr (List.mem_map.mpr ⟨r, List.mem_filter.mpr ⟨hr, by simpa using hf⟩, rfl⟩))
    obtain ⟨hmem, hlt⟩ := hpend _ hmem
    obtain ⟨n', hs', -⟩ := h.number _ hmem
    obtain ⟨ho, -⟩ := OpenNumber.mk.inj (some.inj (hs.symm.trans hs'))
    have := hold (ho ▸ ha)
    omega
  · obtain ⟨h₁, h₂, -⟩ := h.closes r (hreplies r hr) hf
    exact ⟨h₁, h₂, fun ha => absurd ((hat _).mp ha).symm (h₂ ⟨k.other, n⟩ hs)⟩
  · exact absurd ((hat o).mp ha).symm (hne ⟨k.other, n⟩ hs)

theorem perm_eraseIdx {α : Type} {l : List α} {x : α} (h : l[i]? = some x) : l ~ x :: l.eraseIdx i := by
  obtain ⟨hi, rfl⟩ := List.getElem?_eq_some_iff.mp h
  exact (List.getElem_cons_eraseIdx_perm hi).symm

theorem flag_setOpenStateidLocked (st : Nfs4State) (h : stateid.other = st.openStateid.other)
    (m : Fmode) : (st.nfsSetOpenStateidLocked stateid).flag m = st.flag m := by
  have hmatch : (st.openState && !stateid.nfs4StateidMatchOther st.openStateid) = false := by
    rw [Stateid.matchOther_iff.mpr h, Bool.not_true, Bool.and_false]
  unfold nfsSetOpenStateidLocked
  dsimp only
  rw [hmatch, if_neg Bool.false_ne_true]
  split <;> obtain ⟨_ | _, _ | _⟩ := m <;> rfl

theorem count_setOpenStateidLocked (st : Nfs4State) (stateid : Stateid) (m : Fmode) :
    (st.nfsSetOpenStateidLocked stateid).count m = st.count m := by
  unfold nfsSetOpenStateidLocked
  dsimp only
  repeat' split
  all_goals obtain ⟨_ | _, _ | _⟩ := m <;> rfl

theorem Sound.deleg_of_uses (h : s.Sound) (hs : s.server = some k) (hat : ¬ s.At k.other) {m : Fmode}
    (hm : s.Uses m) : s.Deleg m := by
  rcases h.covered m hm with hflag | hdeleg
  · have hopen : s.At s.st.openStateid.other := ⟨h.flags m hflag, rfl⟩
    obtain ⟨r, hr, hf, ho⟩ := h.closing _ hopen fun k' hk' ho => by
      cases hs.symm.trans hk'
      exact hat (ho ▸ hopen)
    exact (h.closes r hr hf).2.2 (ho ▸ hopen) m (gaveUp_none hm.1) hm
  · exact hdeleg

/-- A reply to OPEN keeps the agreement. -/
theorem Sound.openReply (h : s.Sound) (hrecent : s.Recent) {reply : OpenReply}
    (hi : s.openReplies[i]? = some reply) : (s.openReply i reply .ok).Sound := by
  have htest : s.st.setOpenStateidTest true reply.number.stateid .ok =
      if s.st.nfsStateidIsSequential reply.number.stateid then .update else .wait := rfl
  unfold OpenNet.openReply
  dsimp only
  rw [htest]
  by_cases hseq : s.st.nfsStateidIsSequential reply.number.stateid
  · rw [if_pos hseq]
    have hperm : s.numbers ~ reply.number :: OpenNet.numbers { s with openReplies := s.openReplies.eraseIdx i } :=
      ((perm_eraseIdx hi).map _).append_right _
    obtain ⟨n, hs, hk, hkn, hold⟩ := h.number reply.number (hperm.mem_iff.mpr List.mem_cons_self)
    have hflag : ∀ m, (s.st.nfsStateSetOpenStateid .update reply.number.stateid reply.fmode).flag m =
        ((s.st.nfsSetOpenStateidLocked reply.number.stateid).flag m || decide (m = reply.fmode ∧ m ≠ ⟨false, false⟩)) :=
      fun m => flag_setOpenMode ..
    have hcount : ∀ m, (s.st.nfsStateSetOpenStateid .update reply.number.stateid reply.fmode).count m = s.st.count m :=
      fun m => (count_setOpenMode ..).trans (count_setOpenStateidLocked ..)
    have hrec := (hrecent _ hs).2
    have hsame : ∀ m, OpenNet.Uses { s with
        st := s.st.nfsStateSetOpenStateid .update reply.number.stateid reply.fmode, opener := some reply.fmode } m →
        s.Uses m ∨ m = reply.fmode ∧ m ≠ ⟨false, false⟩ := fun m hm => by
      rcases hm.2 with hc | ho
      · exact .inl ⟨hm.1, .inl (hcount m ▸ hc)⟩
      · exact .inr ⟨(some.inj ho).symm, hm.1⟩
    have hpend : ∀ k' ∈ s.numbers, k' ≠ reply.number → 1 ≤ k'.n ∧ (s.At reply.number.other → s.rank < k'.n) ∧
        k'.n ≠ reply.number.n := fun k' hk' hne => by
      obtain ⟨n', hs', h₁, -, h₃⟩ := h.number k' hk'
      obtain ⟨ho, -⟩ := OpenNumber.mk.inj (some.inj (hs.symm.trans hs'))
      exact ⟨h₁, ho ▸ h₃, fun hn => hne (OpenNumber.ext ho.symm hn)⟩
    unfold nfsStateidIsSequential at hseq
    by_cases hat : s.At reply.number.other
    · -- the next change of the open that the client has
      obtain ⟨-, hrank, hseqid⟩ := h.current _ hat
      rw [if_pos (and_eq_true_iff.mpr ⟨hat.1, Stateid.matchOther_iff.mpr hat.2.symm⟩)] at hseq
      have hnext := eq_succ_of_isNext hseqid rfl hrank (hold hat) (hkn.trans_lt (hrec.1 hat)) hseq
      refine h.moveTo hs hk hkn rfl (openStateid_setOpenMode _ _) hold hperm (fun k' hk' hne => ?_) (fun _ => id) fun m hm => ?_
      · obtain ⟨-, hlt, hn⟩ := hpend k' hk' hne
        have := hlt hat
        omega
      · rw [hflag, flag_setOpenStateidLocked _ hat.2.symm]
        rcases hsame m hm with hu | hm
        · exact (h.covered m hu).imp_left fun hf => by rw [hf, Bool.true_or]
        · exact .inl (by rw [decide_eq_true hm, Bool.or_true])
    · -- the first change of an open that the client does not know yet
      have hother : ¬ ((s.st.openState && reply.number.stateid.nfs4StateidMatchOther s.st.openStateid)) :=
        fun hand => by
          obtain ⟨hopen, hmatch⟩ := and_eq_true_iff.mp hand
          exact hat ⟨hopen, (Stateid.matchOther_iff.mp hmatch).symm⟩
      rw [if_neg hother] at hseq
      have hone := eq_one_of_seqOf hk (hkn.trans_lt (hrec.2 hat)) (of_decide_eq_true hseq)
      refine h.moveTo hs hk hkn rfl (openStateid_setOpenMode _ _) hold hperm (fun k' hk' hne => ?_) (fun _ => id) fun m hm => ?_
      · obtain ⟨h₁, -, hn⟩ := hpend k' hk' hne
        omega
      · rcases hsame m hm with hu | hm
        · exact .inr (h.deleg_of_uses hs hat hu)
        · rw [hflag]
          exact .inl (by rw [decide_eq_true hm, Bool.or_true])
  · rw [if_neg hseq]
    exact h

theorem clearOpenStateid_cases {arg : Stateid} (stateid : Stateid) (fmode : Fmode)
    (harg : st.nfs4StateMatchOpenStateidOther arg)
    (hnew : stateid.other = st.openStateid.other → stateid.nfs4StateidIsNewer st.openStateid) :
    (st.nfsClearOpenStateid arg (some stateid) fmode).openStateid = stateid ∧
    (st.nfsClearOpenStateid arg (some stateid) fmode).openState = decide (fmode ≠ ⟨false, false⟩) ∧
    ∀ m, (st.nfsClearOpenStateid arg (some stateid) fmode).flag m = (st.flag m && !gaveUp fmode m) ∧
      (st.nfsClearOpenStateid arg (some stateid) fmode).count m = st.count m := by
  have hopen : (st.clearOpenMode fmode).openState = decide (fmode ≠ ⟨false, false⟩) := by
    rw [openState_clearOpenMode, (and_eq_true_iff.mp harg).1, Bool.true_and]
  have hguard : (stateid.nfs4StateidMatchOther (st.clearOpenMode fmode).openStateid &&
      !stateid.nfs4StateidIsNewer (st.clearOpenMode fmode).openStateid) = false := by
    rw [openStateid_clearOpenMode]
    cases hmatch : stateid.nfs4StateidMatchOther st.openStateid with
    | false => rfl
    | true => rw [hnew (Stateid.matchOther_iff.mp hmatch), Bool.not_true, Bool.and_false]
  unfold nfsClearOpenStateid
  rw [if_pos harg]
  unfold nfsClearOpenStateidLocked
  dsimp only
  rw [hguard, if_neg Bool.false_ne_true]
  refine ⟨rfl, ?_, fun m => ?_⟩
  · split <;> exact hopen
  · rw [← flag_clearOpenMode, ← count_clearOpenMode st fmode m]
    split <;> obtain ⟨_ | _, _ | _⟩ := m <;> exact ⟨rfl, rfl⟩

theorem numbers_eraseIdx (hi : s.closeReplies[i]? = some r) :
    s.numbers ~ (if r.1.fmode = ⟨false, false⟩ then [] else [r.2]) ++
      OpenNet.numbers { s with closeReplies := s.closeReplies.eraseIdx i } := by
  have hperm := ((perm_eraseIdx hi).filter fun r => decide (r.1.fmode ≠ ⟨false, false⟩)).map (·.2)
  refine (hperm.append_left _).trans ?_
  rw [List.filter_cons]
  split
  next hf =>
    rw [if_neg (of_decide_eq_true hf)]
    exact List.perm_middle
  next hf =>
    rw [if_pos (by simpa using hf)]
    rfl

include h

theorem Sound.closeDone_stale (hi : s.closeReplies[i]? = some r)
    (hat : ¬ s.At r.1.argStateid.other) : OpenNet.Sound { s with closeReplies := s.closeReplies.eraseIdx i } := by
  have hsub : ∀ r ∈ s.closeReplies.eraseIdx i, r ∈ s.closeReplies := fun r hr => List.mem_of_mem_eraseIdx hr
  have hnums := numbers_eraseIdx hi
  refine ⟨h.used_ne, h.server, h.current, h.behind,
    fun k hk => h.number k (hnums.mem_iff.mpr (List.mem_append.mpr (.inr hk))), ?_,
    fun t ht => ⟨(h.tasks t ht).used, (h.tasks t ht).live, (h.tasks t ht).old⟩, fun c hc => ?_,
    fun r hr => h.downgrades r (hsub r hr), fun r hr => h.closes r (hsub r hr), fun o ha hk => ?_, h.flags, h.covered⟩
  · exact (List.nodup_append.mp (hnums.nodup_iff.mp h.distinct)).2.1
  · obtain ⟨hk, hidle⟩ := h.calls c hc
    exact ⟨⟨hk.used, hk.live, hk.old⟩, hidle⟩
  · obtain ⟨r', hr', hf, ho⟩ := h.closing o ha hk
    rcases List.mem_cons.mp ((perm_eraseIdx hi).mem_iff.mp hr') with rfl | hr'
    · exact absurd (ho ▸ ha) hat
    · exact ⟨r', hr', hf, ho⟩

theorem Sound.closed (hi : s.closeReplies[i]? = some r) (hf : r.1.fmode = ⟨false, false⟩) (hat : s.At r.1.argStateid.other)
    (hopen : st.openState = false) (hflag : ∀ m, st.flag m = false) (hcount : ∀ m, st.count m = s.st.count m) :
    OpenNet.Sound { s with st, closeReplies := s.closeReplies.eraseIdx i } := by
  obtain ⟨-, hserver, hidle⟩ := h.closes r (List.mem_of_getElem? hi) hf
  have hgone : ∀ k, s.server = some k → ¬ s.At k.other := fun k hk ha => hserver k hk (ha.2.symm.trans hat.2)
  have hnever : ∀ o, ¬ OpenNet.At { s with st, closeReplies := s.closeReplies.eraseIdx i } o := fun o ha => by
    rw [OpenNet.At, hopen] at ha
    cases ha.1
  have hknown : ∀ sid q, s.Known sid q →
      OpenNet.Known { s with st, closeReplies := s.closeReplies.eraseIdx i } sid q := fun sid q hq =>
    ⟨hq.used, fun k hk ho => absurd (ho ▸ hq.live k hk ho) (hgone k hk), fun ha => absurd ha (hnever _)⟩
  have hnums := numbers_eraseIdx hi
  have hpend : ∀ k ∈ OpenNet.numbers { s with closeReplies := s.closeReplies.eraseIdx i }, k ∈ s.numbers :=
    fun k hk => hnums.mem_iff.mpr (List.mem_append.mpr (.inr hk))
  refine ⟨h.used_ne, h.server, fun o ha => absurd ha (hnever o), fun k _ ha => absurd ha (hnever _), fun k hk => ?_,
    (List.nodup_append.mp (hnums.nodup_iff.mp h.distinct)).2.1, fun t ht => hknown _ _ (h.tasks t ht),
    fun c hc => ⟨hknown _ _ (h.calls c hc).1, fun ha => absurd ha (hnever _)⟩, fun r' hr' hf' => ?_,
    fun r' hr' hf' => ?_, fun o ha => absurd ha (hnever o), fun m hm => ?_, fun m hm => .inr ?_⟩
  · obtain ⟨n, hs, h₁, h₂, -⟩ := h.number k (hpend k hk)
    exact ⟨n, hs, h₁, h₂, fun ha => absurd ha (hnever _)⟩
  · -- a downgrade is not pending, as the server has no open under this `other`
    obtain ⟨-, ha, -⟩ := h.downgrades r' (List.mem_of_mem_eraseIdx hr') hf'
    have hmem : r'.2 ∈ OpenNet.numbers { s with closeReplies := s.closeReplies.eraseIdx i } :=
      List.mem_append.mpr (.inr (List.mem_map.mpr ⟨r', List.mem_filter.mpr ⟨hr', by simpa using hf'⟩, rfl⟩))
    obtain ⟨n, hs, -⟩ := h.number _ (hpend _ hmem)
    exact absurd ha (hgone ⟨r'.2.other, n⟩ hs)
  · obtain ⟨h₁, h₂, -⟩ := h.closes r' (List.mem_of_mem_eraseIdx hr') hf'
    exact ⟨h₁, h₂, fun ha => absurd ha (hnever _)⟩
  · exact absurd hm (by rw [hflag]; exact Bool.false_ne_true)
  · have hm' : s.Uses m := ⟨hm.1, hm.2.imp_left fun hc => hcount m ▸ hc⟩
    exact hidle hat m (gaveUp_none hm.1) hm'

theorem Sound.closeDone {number : OpenNumber}
    (hi : s.closeReplies[i]? = some (call, number)) : (s.closeDone i call number).Sound := by
  unfold OpenNet.closeDone
  dsimp only
  by_cases hat : s.At call.argStateid.other
  · have hmatch : s.st.nfs4StateMatchOpenStateidOther call.argStateid :=
      and_eq_true_iff.mpr ⟨hat.1, Stateid.matchOther_iff.mpr hat.2⟩
    obtain ⟨hused, hrank, hseqid⟩ := h.current _ hat
    by_cases hf : call.fmode = ⟨false, false⟩
    · rw [hmatch, hf, if_neg (by simp)]
      obtain ⟨-, hopen, hst⟩ := clearOpenStateid_cases invalidStateid ⟨false, false⟩ hmatch fun ho =>
        absurd (hat.2.symm.trans ho.symm) (h.used_ne _ hused)
      refine h.closed hi hf hat hopen (fun m => (hst m).1.trans ?_) fun m => (hst m).2
      obtain ⟨_ | _, _ | _⟩ := m <;> simp [gaveUp, flag]
    · obtain ⟨ho, -, hn, hidle⟩ := h.downgrades _ (List.mem_of_getElem? hi) hf
      dsimp only at ho hn hidle
      have hnewer : number.stateid.nfs4StateidIsNewer s.st.openStateid :=
        Stateid.newer_of_isNext (isNext_seqOf hseqid (congrArg seqOf hn) hrank)
      have hperm := numbers_eraseIdx hi
      rw [if_neg hf] at hperm
      obtain ⟨n, hs, hk, hkn, hold⟩ := h.number number (hperm.mem_iff.mpr List.mem_cons_self)
      obtain ⟨hid, hopen, hst⟩ := clearOpenStateid_cases number.stateid call.fmode hmatch fun _ => hnewer
      rw [hmatch, hnewer, decide_eq_true hf, if_pos (by rfl), closeResStateid, if_neg hf]
      refine h.moveTo hs hk hkn (hopen.trans (decide_eq_true hf)) hid hold hperm (fun k' hk' hne => ?_)
        (fun r hr => List.mem_of_mem_eraseIdx hr) fun m hm => ?_
      · obtain ⟨n', hs', -, -, hlt⟩ := h.number k' hk'
        obtain ⟨ho', -⟩ := OpenNumber.mk.inj (some.inj (hs.symm.trans hs'))
        have hne' : k'.n ≠ number.n := fun hn => hne (OpenNumber.ext ho'.symm hn)
        have := hlt (ho' ▸ ho ▸ hat)
        omega
      · have hm' : s.Uses m := ⟨hm.1, hm.2.imp_left fun hc => (hst m).2 ▸ hc⟩
        cases hg : gaveUp call.fmode m with
        | true => exact .inr (hidle m hg hm')
        | false =>
          rw [(hst m).1, hg, Bool.not_false, Bool.and_true]
          exact h.covered m hm'
  · have hmatch : s.st.nfs4StateMatchOpenStateidOther call.argStateid = false := by
      refine Bool.eq_false_iff.mpr fun hm => hat ?_
      obtain ⟨hopen, hother⟩ := and_eq_true_iff.mp hm
      exact ⟨hopen, Stateid.matchOther_iff.mp hother⟩
    rw [nfsClearOpenStateid, hmatch]
    exact h.closeDone_stale hi hat

end OpenNet

/-- No OPEN reply gives up waiting for its turn. -/
def OpenNetEvent.Patient : OpenNetEvent → Prop
  | .openReply _ status => status = .ok
  | _ => True

instance : DecidablePred OpenNetEvent.Patient := fun e => by
  cases e <;> unfold OpenNetEvent.Patient <;> infer_instance

namespace OpenNet
variable {s t : OpenNet}

/-- Every step keeps client and server in agreement. -/
theorem Sound.step (h : s.Sound) (hrecent : s.Recent) {e : OpenNetEvent} (he : e.Patient) (ht : s.step e = some t) : t.Sound := by
  cases e with
  | serveOpen fmode other => exact h.serveOpen ht
  | serveClose i =>
    obtain ⟨call, hc, ht⟩ := bind_eq_some_iff.mp ht
    exact h.serveClose hrecent (List.mem_of_getElem? hc) ht
  | openReply i status =>
    obtain rfl : status = .ok := he
    simp only [OpenNet.step] at ht
    split at ht
    · obtain ⟨reply, hi, rfl⟩ := map_eq_some_iff.mp ht
      exact h.openReply hrecent hi
    · cases ht
  | finishOpen =>
    obtain ⟨fmode, hopener, rfl⟩ := map_eq_some_iff.mp ht
    exact h.finishOpen hopener
  | cachedOpen fmode truncates claim =>
    obtain ⟨hc, rfl⟩ := of_guard_some ht
    exact h.cachedOpen hc.1 hc.2
  | delegatedOpen delegation fmode =>
    simp only [OpenNet.step] at ht
    obtain ⟨hnone, rfl⟩ := of_guard_some ht
    exact h.delegatedOpen hnone
  | grant deleg =>
    simp only [OpenNet.step] at ht
    obtain ⟨hg, rfl⟩ := of_guard_some ht
    exact h.grant hg.1 hg.2
  | close fmode =>
    simp only [OpenNet.step] at ht
    obtain ⟨hc, rfl⟩ := of_guard_some ht
    exact h.close hc.1
  | doClose =>
    simp only [OpenNet.step] at ht
    split at ht
    · cases ht
      exact h.doClose
    · cases ht
  | closePrepare i =>
    simp only [OpenNet.step] at ht
    obtain ⟨hnone, ht⟩ := of_guard ht
    obtain ⟨⟨stateid, q⟩, hi, rfl⟩ := map_eq_some_iff.mp ht
    exact h.closePrepare hnone (List.mem_of_getElem? hi)
  | closeDone i =>
    obtain ⟨⟨call, number⟩, hi, rfl⟩ := map_eq_some_iff.mp ht
    exact h.closeDone hi

/-- The modes that are open stay covered by what the client asks the server for, or by the delegation alone. -/
theorem close_keeps_open_modes (evs : List OpenNetEvent) (s : OpenNet) (hevs : ∀ e ∈ evs, e.Patient)
    (hrun : exec OpenNet.step {} evs = some s) (hrecent : Always OpenNet.step Recent {} evs) :
    (∀ m, s.st.count m ≠ 0 → s.st.flag m ∨ s.Deleg m) ∧
    ∀ stateid arg fmode, s.opener = none → s.st.nfs4ClosePrepare stateid = some (arg, fmode) →
      (∀ m, s.st.count m ≠ 0 → fmode.covers m ∨ s.st.flag m = false ∧ s.Deleg m) ∧
      (fmode = ⟨false, false⟩ → ∀ m, s.st.count m ≠ 0 → s.st.flag m = false ∧ s.Deleg m) := by
  have h : s.Sound := exec_invariant_where (fun _ _ _ hc he h ht => h.step hc he ht) hrecent hevs sound_fresh hrun
  have hcov : ∀ m, s.st.count m ≠ 0 → s.st.flag m ∨ s.Deleg m := fun m hm =>
    h.covered m ⟨fun hnone => hm (hnone ▸ rfl), .inl hm⟩
  refine ⟨hcov, fun stateid arg fmode _ hprep => ?_⟩
  obtain ⟨hcall, rfl, -⟩ := nfs4ClosePrepare_cases s.st _ hprep
  have hgave : ∀ m, gaveUp s.st.closeMode.1 m → s.st.count m ≠ 0 → s.st.flag m = false ∧ s.Deleg m := by
    intro m hg hm
    have hflag := closeMode_gaveUp s.st m hcall hg hm
    exact ⟨hflag, (hcov m hm).resolve_left (by rw [hflag]; exact Bool.false_ne_true)⟩
  refine ⟨fun m hm => ?_, fun hnone m hm => hgave m ?_ hm⟩
  · cases hg : gaveUp s.st.closeMode.1 m with
    | true => exact .inr (hgave m hg hm)
    | false =>
      left
      obtain ⟨_ | _, _ | _⟩ := m
      · exact absurd rfl hm
      · simpa [gaveUp, Fmode.covers] using hg
      · simpa [gaveUp, Fmode.covers] using hg
      · simp [gaveUp] at hg
  · rw [hnone]
    obtain ⟨_ | _, _ | _⟩ := m
    · exact absurd rfl hm
    all_goals rfl

/-- Two OPEN replies overtake each other; closing for writing downgrades, and meanwhile the file is opened again. -/
theorem close_keeps_open_modes_reopened :
    let evs : List OpenNetEvent := [.serveOpen ⟨true, false⟩ 7, .serveOpen ⟨false, true⟩ 7, .openReply 1 .ok,
      .openReply 0 .ok, .finishOpen, .openReply 0 .ok, .finishOpen, .close ⟨false, true⟩, .doClose, .closePrepare 0,
      .serveClose 0, .serveOpen ⟨false, true⟩ 7, .openReply 0 .ok, .closeDone 0, .openReply 0 .ok, .finishOpen]
    let s : OpenNet :=
      { st :=
          { openStateid := ⟨.open_, 4, 7⟩, stateid := ⟨.open_, 4, 7⟩, openState := true, rdonlyState := true,
            wronlyState := true, nRdonly := 1, nWronly := 1, state := ⟨true, true⟩ }
        rank := 4, server := some ⟨7, 4⟩, used := [7] }
    exec OpenNet.step {} evs = some s ∧ ∀ m, s.st.count m ≠ 0 → s.st.flag m ∨ s.Deleg m := by
  intro evs s
  have hrun : exec OpenNet.step {} evs = some s := by decide
  exact ⟨hrun, (close_keeps_open_modes _ _ (by decide) hrun (by decide)).1⟩

/-- A mode that only the delegation covers is not in the share mode of a close. And if an OPEN reply is applied after
    its wait timed out, a downgrade takes away the mode just opened. -/
theorem close_drops_open_mode :
    (let evs : List OpenNetEvent := [.serveOpen ⟨false, true⟩ 7, .openReply 0 .ok, .finishOpen,
        .grant { stateid := ⟨.delegation, 1, 9⟩, type := ⟨true, true⟩ }, .delegatedOpen none ⟨true, false⟩,
        .close ⟨false, true⟩, .doClose, .closePrepare 0]
     (exec OpenNet.step {} evs).map (fun s => (s.calls.map (·.fmode), s.st.nRdonly, s.st.rdonlyState)) =
       some ([⟨false, false⟩], 1, false)) ∧
    (let evs : List OpenNetEvent := [.serveOpen ⟨true, false⟩ 7, .openReply 0 .ok, .finishOpen,
        .serveOpen ⟨false, true⟩ 7, .openReply 0 .ok, .finishOpen, .close ⟨false, true⟩, .doClose, .closePrepare 0,
        .serveClose 0, .serveOpen ⟨false, true⟩ 7, .openReply 0 .eagain, .closeDone 0, .finishOpen]
     (exec OpenNet.step {} evs).map (fun s => (s.st.nWronly, s.st.wronlyState, s.deleg)) = some (1, false, none)) := by
  decide

end OpenNet

end Mynfs
