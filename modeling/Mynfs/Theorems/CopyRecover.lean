import Mynfs.Copy.Recover
import Mathlib.Data.List.TakeWhile

/-! Once a copy is completed, `nfs42_complete_copies` marks every copy left and completes none. -/

namespace Mynfs

open List

namespace CopyClient
variable (clp : CopyClient)

def mark (flagged woken : List CopyId) : CopyClient :=
  { clp with copy := fun id => { clp.copy id with flags := (clp.copy id).flags || decide (id ∈ flagged),
                                                  completed := (clp.copy id).completed || decide (id ∈ woken) } }

@[simp] theorem mark_nil : clp.mark [] [] = clp := by simp [mark]

@[simp] theorem mark_mark (flagged woken flagged' woken' : List CopyId) :
    (clp.mark flagged woken).mark flagged' woken' = clp.mark (flagged ++ flagged') (woken ++ woken') := by
  simp [mark, Bool.decide_or, Bool.or_assoc]

theorem modify_flags (id : CopyId) : clp.modify id (fun copy => { copy with flags := true }) = clp.mark [id] [] := by
  simp only [modify, mark, CopyClient.mk.injEq, and_true]
  funext id'
  by_cases hid : id' = id
  · subst hid
    simp
  · simp [hid]

theorem modify_completed (id : CopyId) : clp.modify id (fun copy => { copy with completed := true }) = clp.mark [] [id] := by
  simp only [modify, mark, CopyClient.mk.injEq, and_true]
  funext id'
  by_cases hid : id' = id
  · subst hid
    simp
  · simp [hid]

variable (flagged woken : List CopyId) (id : CopyId)

theorem mark_copy_eq_completed_iff :
    (clp.mark flagged woken).copy id = { clp.copy id with flags := true, completed := true } ↔
      ((clp.copy id).flags ∨ id ∈ flagged) ∧ ((clp.copy id).completed ∨ id ∈ woken) := by
  simp [mark, and_comm]

theorem mark_copy_eq_iff : (clp.mark flagged woken).copy id = clp.copy id ↔
      (id ∈ flagged → (clp.copy id).flags) ∧ (id ∈ woken → (clp.copy id).completed) := by
  rcases hcopy : clp.copy id with ⟨stateid, completed, count, verf, error, flags⟩
  simp [mark, hcopy, and_comm]

end CopyClient

section
variable {parent : ParentStateids} {soServer : ServerId} {clp : CopyClient} {state : CopyParent}

theorem foldl_completeDstCopy_off (hdst : state.clntDst = false) : ∀ (ids : List CopyId) (clp : CopyClient),
    ids.foldl (completeDstCopy parent) (clp, state) = (clp.mark ids [], state)
  | [], clp => by simp
  | id :: ids, clp => by
    simp only [foldl_cons, completeDstCopy, hdst, Bool.false_and, Bool.false_eq_true, if_false, clp.modify_flags]
    rw [foldl_completeDstCopy_off hdst ids]
    simp

theorem foldl_completeSrcCopy_off (hdst : state.clntDst = false) (hsrc : state.clntSrc = false) :
    ∀ (ids : List CopyId) (clp : CopyClient), ids.foldl (completeSrcCopy parent) (clp, state) = (clp.mark ids [], state)
  | [], clp => by simp
  | id :: ids, clp => by
    simp only [foldl_cons, completeSrcCopy, hdst, hsrc, Bool.false_and, Bool.false_eq_true, if_false, clp.modify_flags]
    rw [foldl_completeSrcCopy_off hdst hsrc ids]
    simp

theorem foldl_completeDstCopy_on (hdst : state.clntDst) : ∀ (ids : List CopyId) (clp : CopyClient),
    ids.foldl (completeDstCopy parent) (clp, state) =
      match ids.dropWhile fun id => !state.stateid.nfs4StateidMatchOther (parent.dst id) with
      | [] => (clp, state)
      | first :: rest => (clp.mark (first :: rest) [first], { state with clntDst := false, clntSrc := false })
  | [], clp => rfl
  | id :: ids, clp => by
    cases hid : state.stateid.nfs4StateidMatchOther (parent.dst id) with
    | false =>
      simp only [foldl_cons, completeDstCopy, hdst, hid, Bool.not_false, Bool.and_true, if_true, dropWhile_cons]
      exact foldl_completeDstCopy_on hdst ids clp
    | true =>
      simp only [foldl_cons, completeDstCopy, hdst, hid, Bool.not_true, Bool.and_false, Bool.false_eq_true, if_false,
        if_true, dropWhile_cons, clp.modify_flags, CopyClient.modify_completed]
      rw [foldl_completeDstCopy_off rfl]
      simp

theorem foldl_completeSrcCopy_on (hdst : state.clntDst) (hsrc : state.clntSrc = false) (ids : List CopyId) :
    ids.foldl (completeSrcCopy parent) (clp, state) =
      match ids with
      | [] => (clp, state)
      | first :: rest => (clp.mark (first :: rest) [first], { state with clntDst := false }) := by
  cases ids with
  | nil => rfl
  | cons id ids =>
    simp only [foldl_cons, completeSrcCopy, hdst, hsrc, Bool.false_and, Bool.false_eq_true, if_false, if_true,
      clp.modify_flags, CopyClient.modify_completed]
    rw [foldl_completeSrcCopy_off rfl rfl]
    simp

theorem foldl_completeSrcCopy_clntSrc : ∀ (ids : List CopyId) (r : CopyClient × CopyParent),
    (ids.foldl (completeSrcCopy parent) r).2.clntSrc = r.2.clntSrc
  | [], _ => rfl
  | id :: ids, (clp, state) => by
    rw [foldl_cons, foldl_completeSrcCopy_clntSrc ids]
    dsimp only [completeSrcCopy]
    split
    · rfl
    · split <;> rfl

/-- The copy has the state as its destination or as its source, as far as the lists of the server tell. -/
def Affected (parent : ParentStateids) (soServer : ServerId) (clp : CopyClient) (state : CopyParent) (id : CopyId) : Prop :=
  id ∈ (clp.server soServer).ssCopies ∧ state.stateid.nfs4StateidMatchOther (parent.dst id) ∨
    id ∈ (clp.server soServer).ssSrcCopies ∧ state.stateid.nfs4StateidMatchOther (parent.src id)

instance (id : CopyId) : Decidable (Affected parent soServer clp state id) := inferInstanceAs (Decidable (_ ∨ _))

section
variable (parent : ParentStateids) (soServer : ServerId) (clp : CopyClient) (state : CopyParent)

/-- The copies of the state are completed with the restart flag, nothing else is changed, and the flags are cleared. -/
structure CompletesAffected
    (r : CopyClient × CopyParent) : Prop where
  copies : ∀ id, r.1.copy id =
    if Affected parent soServer clp state id then { clp.copy id with flags := true, completed := true } else clp.copy id
  frame : r.1 = { clp with copy := r.1.copy }
  flags : r.2 = { state with clntDst := false, clntSrc := false }

def visited : List CopyId :=
  ((clp.server soServer).ssCopies.dropWhile fun id => !state.stateid.nfs4StateidMatchOther (parent.dst id)) ++
    (clp.server soServer).ssSrcCopies

/-- The first copy is completed, rightly; behind it the affected ones were completed and the others flagged before. -/
def OneLeft : Prop :=
  state.clntDst ∧
    ((∃ id ∈ (clp.server soServer).ssCopies, state.stateid.nfs4StateidMatchOther (parent.dst id)) ∨
      state.clntSrc = false) ∧
    ∃ first rest, visited parent soServer clp state = first :: rest ∧
      (Affected parent soServer clp state first ∨ (clp.copy first).flags ∧ (clp.copy first).completed) ∧
      ∀ id ∈ rest, id = first ∨
        if Affected parent soServer clp state id then (clp.copy id).completed = true else (clp.copy id).flags

end

theorem mem_visited_of_affected {id : CopyId} (h : Affected parent soServer clp state id) :
    id ∈ visited parent soServer clp state := by
  rw [visited, mem_append]
  rcases h with ⟨hmem, hmatch⟩ | ⟨hmem, -⟩
  · left
    rw [← @List.takeWhile_append_dropWhile _ (fun id => !state.stateid.nfs4StateidMatchOther (parent.dst id))
      (clp.server soServer).ssCopies, mem_append] at hmem
    refine hmem.resolve_left fun htake => ?_
    have := mem_takeWhile_imp htake
    simp [hmatch] at this
  · exact .inr hmem

theorem nfs42CompleteCopies_eq (hdst : state.clntDst)
    (hmatch : (∃ id ∈ (clp.server soServer).ssCopies, state.stateid.nfs4StateidMatchOther (parent.dst id)) ∨
      state.clntSrc = false) : nfs42CompleteCopies parent soServer clp state =
      match visited parent soServer clp state with
      | [] => (clp, state)
      | first :: rest => (clp.mark (first :: rest) [first], { state with clntDst := false, clntSrc := false }) := by
  unfold nfs42CompleteCopies visited
  rw [hdst, if_neg (by simp)]
  dsimp only
  rw [foldl_completeDstCopy_on hdst]
  cases hcopies : (clp.server soServer).ssCopies.dropWhile fun id => !state.stateid.nfs4StateidMatchOther (parent.dst id) with
  | nil =>
    have hsrc : state.clntSrc = false := by
      refine hmatch.resolve_left fun ⟨id, hmem, hid⟩ => ?_
      have := dropWhile_eq_nil_iff.mp hcopies id hmem
      simp [hid] at this
    rw [nil_append]
    rw [foldl_completeSrcCopy_on hdst hsrc, hsrc]
  | cons first rest =>
    rw [foldl_completeSrcCopy_off rfl rfl]
    simp

theorem nfs42CompleteCopies_clntSrc (hsrc : state.clntSrc) (h : state.clntDst →
      ∀ id ∈ (clp.server soServer).ssCopies, state.stateid.nfs4StateidMatchOther (parent.dst id) = false) :
    (nfs42CompleteCopies parent soServer clp state).2.clntSrc := by
  unfold nfs42CompleteCopies
  rw [if_neg (by simp [hsrc])]
  rw [foldl_completeSrcCopy_clntSrc]
  cases hdst : state.clntDst with
  | false => rw [foldl_completeDstCopy_off hdst, hsrc]
  | true =>
    have hcopies : (clp.server soServer).ssCopies.dropWhile
        (fun id => !state.stateid.nfs4StateidMatchOther (parent.dst id)) = [] :=
      dropWhile_eq_nil_iff.mpr fun id hid => by simp [h hdst id hid]
    rw [foldl_completeDstCopy_on hdst, hcopies, hsrc]

theorem completesAffected_mark_iff {first : CopyId} {rest : List CopyId}
    (hvisited : visited parent soServer clp state = first :: rest) : CompletesAffected parent soServer clp state
        (clp.mark (first :: rest) [first], { state with clntDst := false, clntSrc := false }) ↔
      (Affected parent soServer clp state first ∨ (clp.copy first).flags ∧ (clp.copy first).completed) ∧
      ∀ id ∈ rest, id = first ∨
        if Affected parent soServer clp state id then (clp.copy id).completed = true else (clp.copy id).flags := by
  constructor
  · rintro ⟨hcopies, -, -⟩
    refine ⟨?_, fun id hid => ?_⟩
    · have hfirst := hcopies first
      split at hfirst <;> rename_i haff
      · exact .inl haff
      · obtain ⟨hflags, hwoken⟩ := (clp.mark_copy_eq_iff _ _ first).mp hfirst
        exact .inr ⟨hflags mem_cons_self, hwoken mem_cons_self⟩
    · by_cases hne : id = first
      · exact .inl hne
      have hcopy := hcopies id
      right
      split at hcopy <;> rename_i haff
      · rw [if_pos haff]
        obtain ⟨-, hwoken⟩ := (clp.mark_copy_eq_completed_iff _ _ id).mp hcopy
        exact hwoken.resolve_right fun h => hne (mem_singleton.mp h)
      · rw [if_neg haff]
        exact ((clp.mark_copy_eq_iff _ _ id).mp hcopy).1 (mem_cons_of_mem _ hid)
  · rintro ⟨hfirst, hrest⟩
    refine ⟨fun id => ?_, rfl, rfl⟩
    by_cases haff : Affected parent soServer clp state id
    · have hmem : id ∈ first :: rest := hvisited ▸ mem_visited_of_affected haff
      rw [if_pos haff, CopyClient.mark_copy_eq_completed_iff]
      refine ⟨.inr hmem, ?_⟩
      rcases mem_cons.mp hmem with rfl | hid
      · exact .inr mem_cons_self
      · have := hrest id hid
        rw [if_pos haff] at this
        exact this.symm.imp_right mem_singleton.mpr
    · rw [if_neg haff, CopyClient.mark_copy_eq_iff]
      have hself : id = first → (clp.copy id).flags ∧ (clp.copy id).completed := by
        rintro rfl
        exact hfirst.resolve_left haff
      refine ⟨fun hmem => ?_, fun hmem => (hself (mem_singleton.mp hmem)).2⟩
      rcases mem_cons.mp hmem with hid | hid
      · exact (hself hid).1
      · have := hrest id hid
        rw [if_neg haff] at this
        exact this.elim (fun hid => (hself hid).1) fun h => h

/-- Exactly the copies of the state are completed, exactly if it is only one, the last that the loops look at. -/
theorem nfs42CompleteCopies_iff (parent : ParentStateids) (soServer : ServerId) (clp : CopyClient) (state : CopyParent)
    (hflags : state.clntDst ∨ state.clntSrc) :
    CompletesAffected parent soServer clp state (nfs42CompleteCopies parent soServer clp state) ↔
      OneLeft parent soServer clp state := by
  by_cases hcases : state.clntDst ∧
      ((∃ id ∈ (clp.server soServer).ssCopies, state.stateid.nfs4StateidMatchOther (parent.dst id)) ∨
        state.clntSrc = false)
  · obtain ⟨hdst, hmatch⟩ := hcases
    rw [nfs42CompleteCopies_eq hdst hmatch]
    cases hvisited : visited parent soServer clp state with
    | nil =>
      refine iff_of_false (fun h => ?_) (fun ⟨_, _, first, rest, hcons, _⟩ => ?_)
      · have := congrArg CopyParent.clntDst h.flags
        simp [hdst] at this
      · simp [hvisited] at hcons
    | cons first rest =>
      rw [completesAffected_mark_iff hvisited]
      simp only [OneLeft, hdst, hmatch, hvisited, cons.injEq, true_and]
      constructor
      · intro h
        exact ⟨first, rest, ⟨rfl, rfl⟩, h⟩
      · rintro ⟨_, _, ⟨rfl, rfl⟩, h⟩
        exact h
  · -- the flag for sources is not cleared
    refine iff_of_false (fun h => ?_) (fun h => hcases ⟨h.1, h.2.1⟩)
    have hsrc : state.clntSrc := by
      rcases hflags with hdst | hsrc
      · simpa using fun h => hcases ⟨hdst, .inr h⟩
      · exact hsrc
    have hstays : (nfs42CompleteCopies parent soServer clp state).2.clntSrc := by
      refine nfs42CompleteCopies_clntSrc hsrc fun hdst id hid => ?_
      simpa using fun hmatch => hcases ⟨hdst, .inl ⟨id, hid, hmatch⟩⟩
    rw [h.flags] at hstays
    cases hstays

end

def twoCopies : CopyClient where
  copy _ := {}
  next := 2
  server _ := { ssCopies := [0, 1] }
  clSuperblocks := [0]
  pendingCbStateids := []
  copies_lt := by simp
  pending_lt := by simp

def numberedParents : ParentStateids := ⟨fun id => { other := BitVec.ofNat 96 id }, fun _ => { other := 8 }⟩

theorem nfs42CompleteCopies_iff_last : CompletesAffected numberedParents 0 twoCopies ⟨{ other := 1 }, true, false⟩
      (nfs42CompleteCopies numberedParents 0 twoCopies ⟨{ other := 1 }, true, false⟩) :=
  (nfs42CompleteCopies_iff numberedParents 0 twoCopies ⟨{ other := 1 }, true, false⟩ (.inl rfl)).mpr
    ⟨rfl, .inr rfl, 1, [], rfl, .inl (.inl ⟨by decide, rfl⟩), by simp⟩

/-- The file of the first copy is recovered: the second copy has to start again, too. -/
theorem nfs42CompleteCopies_marks_other :
    let state : CopyParent := ⟨{ other := 0 }, true, false⟩
    ¬ Affected numberedParents 0 twoCopies state 1 ∧
      ((nfs42CompleteCopies numberedParents 0 twoCopies state).1.copy 1).flags ∧
      ¬ CompletesAffected numberedParents 0 twoCopies state (nfs42CompleteCopies numberedParents 0 twoCopies state) := by
  intro state
  have haff : ¬ Affected numberedParents 0 twoCopies state 1 := by decide
  have hflags : ((nfs42CompleteCopies numberedParents 0 twoCopies state).1.copy 1).flags := by decide
  refine ⟨haff, hflags, fun h => ?_⟩
  rw [h.copies 1, if_neg haff] at hflags
  cases hflags

end Mynfs
