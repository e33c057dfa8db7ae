import Mynfs.Idmap.Upcall

/-! Whoever takes the data from `idmap_upcall_data` completes the request; exits by `out2` keep its reference. -/

namespace Mynfs.IdmapPipe
variable {s t : IdmapPipe} {i : Nat} {e : IdmapEvent}

/-- Completed once, with everything released that was acquired. -/
structure Ended (l : UpcallLog) : Prop where
  completed : l.completed.length = 1
  keyPuts : l.keyPuts = l.keyGets
  frees : l.frees = l.allocs

/-- A request that was started ended, unless `idmap_upcall_data` refers to it: then it holds data and reference. -/
def Settled (s : IdmapPipe) : Prop :=
  ∀ i, if s.upcallData = some i then s.log i = .acquired else (s.log i).started → Ended (s.log i)

/-- An upcall that gets its data also gets to `rpc_queue_upcall`. -/
def Publishes (s : IdmapPipe) : IdmapEvent → Prop
  | .upcall _ aux alloc prepare => aux → alloc → 0 ≤ prepare ∧ s.upcallData = none
  | _ => True

instance (s : IdmapPipe) (e : IdmapEvent) : Decidable (Publishes s e) :=
  match e with
  | .upcall .. => inferInstanceAs (Decidable (_ → _ → _ ∧ _))
  | .queueUpcall _ | .downcall _ | .releasePipe | .destroyMsg .. => isTrue trivial

theorem settled_setLog_iff (h : s.Settled) (hi : s.upcallData ≠ some i) {l : UpcallLog} (hl : l.started) :
    (s.setLog i l).Settled ↔ Ended l := by
  constructor
  · intro ht
    simpa [setLog, hl, hi] using ht i
  · intro hend j
    by_cases hji : j = i
    · simp [setLog, hji, hi, hend]
    · simpa [setLog, hji] using h j

theorem Settled.takeUpcall (h : s.Settled) (ret : Int) : (s.takeUpcall ret).Settled := by
  unfold IdmapPipe.takeUpcall
  split
  next i hi =>
    -- The request leaves `idmap_upcall_data` and ends; the others did before.
    intro j
    have hj := h j
    by_cases hji : j = i
    · rw [hji, if_pos hi] at hj
      simp only [nfsIdmapCompletePipeUpcall, setLog, hji, Function.update_self, hj]
      exact fun _ => ⟨rfl, rfl, rfl⟩
    · rw [if_neg fun hc => hji (Option.some.inj (hc.symm.trans hi))] at hj
      simpa [nfsIdmapCompletePipeUpcall, setLog, hji] using hj
  · exact h

theorem Settled.abort (h : s.Settled) (i : Nat) (ret : Int) : (s.nfsIdmapAbortPipeUpcall i ret).Settled := by
  unfold nfsIdmapAbortPipeUpcall
  split
  · exact h.takeUpcall ret
  · exact h

theorem upcall_settled_iff {aux alloc : Bool} {prepare : Int} (h : s.Settled) (hfresh : s.log i = {}) :
    (s.nfsIdmapLegacyUpcall i aux alloc prepare).Settled ↔ Publishes s (.upcall i aux alloc prepare) := by
  have hne : s.upcallData ≠ some i := by
    intro hc
    have hi := h i
    rw [if_pos hc, hfresh] at hi
    cases hi
  have hleak (ret : Int) : ¬ Ended { UpcallLog.acquired.complete ret with frees := 1 } :=
    fun he => absurd he.keyPuts Nat.zero_ne_one
  have hnone (ret : Int) : Ended (UpcallLog.complete { started := true } ret) := ⟨rfl, rfl, rfl⟩
  unfold nfsIdmapLegacyUpcall Publishes
  split
  next haux => exact iff_of_true ((settled_setLog_iff h hne rfl).mpr (hnone _)) (by simp [haux])
  split
  next _ halloc => exact iff_of_true ((settled_setLog_iff h hne rfl).mpr (hnone _)) (by simp [halloc])
  next haux halloc =>
  simp only [haux, halloc, forall_const]
  split
  next hp => exact iff_of_false (mt (settled_setLog_iff h hne rfl).mp (hleak _)) fun hc => absurd hc.1 (Int.not_le.mpr hp)
  split
  next hd => exact iff_of_false (mt (settled_setLog_iff h hne rfl).mp (hleak _)) fun hc => by simp [hc.2] at hd
  next hp hd =>
    have hdata : s.upcallData = none := by simpa using hd
    refine iff_of_true (fun j => ?_) ⟨Int.not_lt.mp hp, hdata⟩
    by_cases hji : j = i
    · simp [setLog, hji]
    · simpa [setLog, hji, Ne.symm hji, hdata] using h j

theorem step_settled_iff (h : s.Settled) (ht : step s e = some t) : t.Settled ↔ Publishes s e := by
  cases e with
  | upcall i aux alloc prepare =>
    obtain ⟨⟨-, hfresh⟩, rfl⟩ := Machine.of_guard_some ht
    exact upcall_settled_iff h hfresh
  | queueUpcall ret =>
    obtain ⟨i, -, rfl⟩ := Option.map_eq_some_iff.mp ht
    refine iff_of_true ?_ trivial
    split
    · exact Settled.abort (s := { s with running := none }) h i ret
    · exact h
  | downcall ret =>
    cases ht
    exact iff_of_true (h.takeUpcall ret) trivial
  | releasePipe =>
    cases ht
    exact iff_of_true (h.takeUpcall _) trivial
  | destroyMsg i errno =>
    obtain ⟨-, rfl⟩ := Machine.of_guard_some ht
    refine iff_of_true ?_ trivial
    split
    · exact h
    · exact Settled.abort (s := { s with queued := s.queued.erase i }) h i errno

/-- Each request ends once in every state of a run exactly if no upcall of it leaves by `out2`. -/
theorem legacy_upcall_ends_once (es : List IdmapEvent) (u : IdmapPipe) (h : Machine.exec step {} es = some u) :
    Machine.Always step Settled {} es ↔ Machine.Along step Publishes {} es :=
  Machine.always_iff_along (I := fun _ => True) (fun _ _ _ _ hs ht => ⟨trivial, step_settled_iff hs ht⟩) trivial
    (fun i => by simp) h

theorem legacy_upcall_ends_once_downcall :
    Machine.Always step Settled {} [.upcall 0 true true 0, .downcall 144, .queueUpcall (-32), .upcall 1 true true 0,
      .queueUpcall 0, .releasePipe, .destroyMsg 1 (-110)] := by
  refine (legacy_upcall_ends_once _ _ rfl).mpr ?_
  decide

/-- The description is refused: the request is completed and its data freed, but the reference on its authkey stays. -/
theorem legacy_upcall_keeps_reference : ∃ u, Machine.exec step {} [.upcall 0 true true (-22)] = some u ∧
    u.log 0 = { started := true, completed := [-22], keyGets := 1, keyPuts := 0, allocs := 1, frees := 1 } ∧
    ¬ u.Settled := by
  refine ⟨_, rfl, rfl, fun h => ?_⟩
  exact absurd (h 0 rfl).keyPuts Nat.zero_ne_one

end Mynfs.IdmapPipe
