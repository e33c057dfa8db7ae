import Mathlib.Data.Nat.Find
import Mynfs.Write.Buckets

/-! After a failed allocation the rest goes to `pnfs_generic_retry_commit`, which starts at the first bucket. -/

namespace Mynfs.CommitBucket

variable {alloc : Nat → Bool} {i j : Nat} {b : CommitBucket} {bs pre post buckets : List CommitBucket} {l l' : List DsCommit}

def handed (j : Nat) (l : List DsCommit) : List Nat := (l.filter (·.dsCommitIndex = j)).flatMap (·.pages)

@[simp] theorem handed_append : handed j (l ++ l') = handed j l ++ handed j l' := by
  simp [handed]

theorem handed_cons (d : DsCommit) : handed j (d :: l) = if d.dsCommitIndex = j then d.pages ++ handed j l else handed j l := by
  by_cases hd : d.dsCommitIndex = j <;> simp [handed, hd]

theorem handed_eq_nil (h : ∀ d ∈ l, d.dsCommitIndex ≠ j) : handed j l = [] := by
  have hnone : l.filter (·.dsCommitIndex = j) = [] := by simpa using h
  rw [handed, hnone]
  rfl

/-- Each bucket is emptied, and its requests are taken over once, under its own index. -/
structure Settled (buckets : List CommitBucket) (r : AllocResult) : Prop where
  empty : ∀ b ∈ r.buckets, b.committing = []
  handed : ∀ j, handed j (r.list ++ r.retried) = (buckets[j]?.map (·.committing)).getD []

/-- The allocation for bucket `i` is asked for, and fails. -/
def AllocFails (alloc : Nat → Bool) (buckets : List CommitBucket) (i : Nat) : Prop :=
  ∃ b, buckets[i]? = some b ∧ b.committing ≠ [] ∧ alloc i = false

def drained (b : CommitBucket) : CommitBucket := if b.committing = [] then b else b.pnfsBucketGetCommitting.1

theorem drained_committing : b.drained.committing = [] := by
  unfold drained pnfsBucketGetCommitting pnfsFreeBucketLseg
  split
  · assumption
  · split <;> rfl

def commits : Nat → List CommitBucket → List DsCommit
  | _, [] => []
  | i, b :: bs => (if b.committing = [] then [] else [b.commit i]) ++ commits (i + 1) bs

theorem le_of_mem_commits : ∀ {i : Nat} {bs : List CommitBucket} {d : DsCommit},
    d ∈ commits i bs → i ≤ d.dsCommitIndex ∧ d.dsCommitIndex < i + bs.length
  | i, b :: bs, d, h => by
    rcases List.mem_append.mp h with hd | hd
    · split at hd
      · cases hd
      · rw [List.mem_singleton.mp hd]
        simp [commit]
    · have ih := le_of_mem_commits hd
      simp only [List.length_cons]
      omega

theorem handed_commits : ∀ (i : Nat) (bs : List CommitBucket) (j : Nat),
    handed (i + j) (commits i bs) = (bs[j]?.map (·.committing)).getD []
  | i, [], j => rfl
  | i, b :: bs, 0 => by
    have hrest : handed i (commits (i + 1) bs) = [] :=
      handed_eq_nil fun d hd => by have := (le_of_mem_commits hd).1; omega
    by_cases hb : b.committing = [] <;> simp [commits, handed_cons, hb, hrest, commit]
  | i, b :: bs, j + 1 => by
    have ih := handed_commits (i + 1) bs j
    rw [Nat.add_right_comm, Nat.add_assoc] at ih
    by_cases hb : b.committing = [] <;> simp [commits, handed_cons, hb, commit, ih]

theorem settled_of_commits (hlist : l ++ l' = commits 0 buckets) : Settled buckets ⟨buckets.map drained, l, l'⟩ where
  empty b hb := by
    obtain ⟨b', -, rfl⟩ := List.mem_map.mp hb
    exact drained_committing
  handed j := by
    rw [hlist]
    simpa using handed_commits 0 buckets j

theorem allocLoop_append (bs : List CommitBucket) : ∀ (pre : List CommitBucket) (i : Nat),
    (∀ k b, pre[k]? = some b → b.committing ≠ [] → alloc (i + k)) → allocLoop alloc i (pre ++ bs) =
      (pre.map drained ++ (allocLoop alloc (i + pre.length) bs).1,
        commits i pre ++ (allocLoop alloc (i + pre.length) bs).2.1, (allocLoop alloc (i + pre.length) bs).2.2)
  | [], i, _ => rfl
  | b :: pre, i, h => by
    have ih := allocLoop_append bs pre (i + 1) fun k b' hk hne => by
      have := h (k + 1) b' hk hne
      rwa [← Nat.add_assoc, Nat.add_right_comm] at this
    have hlen : i + 1 + pre.length = i + (b :: pre).length := by simp only [List.length_cons]; omega
    by_cases hb : b.committing = []
    · simp [allocLoop, commits, drained, hb, ih, hlen]
    · have halloc : alloc i := h 0 b rfl hb
      simp [allocLoop, commits, drained, hb, halloc, ih, hlen]

theorem pnfsGenericRetryCommit_eq {n : Nat} : ∀ (bs : List CommitBucket) (i : Nat), i + bs.length ≤ n →
    pnfsGenericRetryCommit n i bs = (bs.map drained, commits i bs)
  | [], i, _ => rfl
  | b :: bs, i, h => by
    simp only [List.length_cons] at h
    have ih := pnfsGenericRetryCommit_eq bs (i + 1) (n := n) (by omega)
    by_cases hb : b.committing = [] <;> simp [pnfsGenericRetryCommit, commits, drained, hb, ih] <;> omega

theorem le_of_mem_retryCommit {n : Nat} : ∀ {bs : List CommitBucket} {i : Nat} {d : DsCommit},
    d ∈ (pnfsGenericRetryCommit n i bs).2 → i ≤ d.dsCommitIndex
  | b :: bs, i, d, h => by
    have ih : d ∈ (pnfsGenericRetryCommit n (i + 1) bs).2 → i + 1 ≤ d.dsCommitIndex := le_of_mem_retryCommit
    simp only [pnfsGenericRetryCommit] at h
    split at h
    · cases h
    · split at h
      · exact Nat.le_of_succ_le (ih h)
      · rcases List.mem_cons.mp h with rfl | h
        · exact Nat.le_refl i
        · exact Nat.le_of_succ_le (ih h)

theorem handed_retryCommit {n : Nat} (hb : b.committing = []) : handed i (pnfsGenericRetryCommit n i (b :: bs)).2 = [] := by
  apply handed_eq_nil
  intro d hd hi
  simp only [pnfsGenericRetryCommit, hb, if_true] at hd
  split at hd
  · cases hd
  · have := le_of_mem_retryCommit hd
    omega

theorem allocLoop_of_fails (h : AllocFails alloc buckets i) (hmin : ∀ k < i, ¬ AllocFails alloc buckets k) :
    allocLoop alloc 0 buckets = ((buckets.take i).map drained ++ buckets.drop i, commits 0 (buckets.take i), some i) := by
  obtain ⟨b, hget, hne, halloc⟩ := h
  obtain ⟨hlt, rfl⟩ := List.getElem?_eq_some_iff.mp hget
  have hlen : (buckets.take i).length = i := by simp; omega
  have hloop := allocLoop_append (buckets.drop i) (buckets.take i) 0 fun k b hk hb => show alloc _ = true by
    have hki : k < i := by
      have := (List.getElem?_eq_some_iff.mp hk).1
      omega
    rw [List.getElem?_take_of_lt hki] at hk
    simpa using fun hf => hmin k hki ⟨b, hk, hb, hf⟩
  rw [List.take_append_drop, hlen, Nat.zero_add] at hloop
  rw [hloop, List.drop_eq_getElem_cons hlt, allocLoop, if_pos ⟨hne, halloc⟩]
  simp

theorem not_settled_of_fails (h : AllocFails alloc buckets i) (hmin : ∀ k < i, ¬ AllocFails alloc buckets k)
    (hi : 0 < i) : ¬ Settled buckets (pnfsBucketAllocDsCommits alloc buckets) := by
  intro hs
  have hh := hs.handed i
  obtain ⟨b, hget, hne, -⟩ := id h
  have hlt := (List.getElem?_eq_some_iff.mp hget).1
  obtain ⟨c, rest, rfl⟩ := List.exists_cons_of_length_pos (Nat.zero_lt_of_lt hlt)
  obtain ⟨i, rfl⟩ := Nat.exists_eq_succ_of_ne_zero (Nat.ne_of_gt hi)
  rw [pnfsBucketAllocDsCommits, allocLoop_of_fails h hmin, hget] at hh
  have hlist : handed (i + 1) (commits 0 (c :: rest.take i)) = [] := by
    apply handed_eq_nil
    intro d hd
    have hless := (le_of_mem_commits hd).2
    have := List.length_take_le i rest
    simp only [List.length_cons] at hless
    omega
  simp only [handed_append, hlist, List.take_succ_cons, List.map_cons, List.cons_append,
    handed_retryCommit drained_committing, List.append_nil] at hh
  exact hne (by simpa using hh.symm)

/-- No request is stranded exactly if no allocation fails, or if already that for the first bucket does. -/
theorem alloc_ds_commits_settled (alloc : Nat → Bool) (buckets : List CommitBucket) :
    Settled buckets (pnfsBucketAllocDsCommits alloc buckets) ↔
      ∀ i, AllocFails alloc buckets i → AllocFails alloc buckets 0 := by
  classical
  constructor
  · intro hs i hi
    have hex : ∃ i, AllocFails alloc buckets i := ⟨i, hi⟩
    by_contra h0
    have hpos : 0 < Nat.find hex := Nat.pos_of_ne_zero fun hz => h0 (hz ▸ Nat.find_spec hex)
    exact not_settled_of_fails (Nat.find_spec hex) (fun k hk => Nat.find_min hex hk) hpos hs
  · intro h
    by_cases h0 : AllocFails alloc buckets 0
    · rw [pnfsBucketAllocDsCommits, allocLoop_of_fails h0 fun k hk => absurd hk (Nat.not_lt_zero k)]
      simp only [List.take_zero, List.map_nil, List.nil_append, List.drop_zero,
        pnfsGenericRetryCommit_eq _ _ (Nat.le_of_eq (Nat.zero_add buckets.length))]
      exact settled_of_commits rfl
    · have hloop := allocLoop_append [] buckets 0 fun k b hk hb => show alloc _ = true by
        simpa using fun hf => h0 (h k ⟨b, hk, hb, hf⟩)
      rw [List.append_nil] at hloop
      rw [pnfsBucketAllocDsCommits, hloop]
      simpa [allocLoop] using settled_of_commits (List.append_nil (commits 0 buckets))

/-- Two buckets with a request each, and no memory for the second one: its request stays where it is. -/
theorem alloc_ds_commits_strands : ¬ Settled [⟨[], [1], some 0⟩, ⟨[], [2], some 0⟩]
      (pnfsBucketAllocDsCommits (fun i => i = 0) [⟨[], [1], some 0⟩, ⟨[], [2], some 0⟩]) := by
  intro h
  exact absurd (h.empty ⟨[], [2], some 0⟩ (by decide)) (by decide)

end Mynfs.CommitBucket
