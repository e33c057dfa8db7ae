import Mynfs.Open.Owner
import Mynfs.Theorems.ReclaimOpen

namespace Mynfs
open List

/-- No state that is open for write stands behind one that is not. -/
def WritersFirst (states : List OwnerState) : Prop := states.Pairwise fun a b => b.write → a.write

theorem WritersFirst.concat {states : List OwnerState} (h : WritersFirst states) {state : OwnerState} (hstate : ¬state.write) :
    WritersFirst (states ++ [state]) := by
  refine pairwise_append.mpr ⟨h, pairwise_singleton _ _, fun _ _ last hlast hwrite => ?_⟩
  rw [mem_singleton.mp hlast] at hwrite
  exact absurd hwrite hstate

namespace StateOwner
variable {owner : StateOwner} (h : WritersFirst owner.soStates)
include h

theorem writersFirst_change (id : Nat) (f : OwnerState → OwnerState) : WritersFirst (owner.change id f).soStates := by
  unfold change
  dsimp only
  split
  · exact h
  next state hstate =>
    obtain ⟨hi, rfl⟩ := List.getElem?_eq_some_iff.mp hstate
    have hrest := h.sublist (eraseIdx_sublist owner.soStates (owner.soStates.findIdx (·.id = id)))
    dsimp only
    split
    next hsame =>
      -- every place of the list has its old write bit
      refine (pairwise_map (f := OwnerState.write) (R := fun a b => b → a)).mp ?_
      rw [map_set, hsame, ← getElem_map OwnerState.write (h := (length_map _).symm ▸ hi), set_getElem_self]
      exact pairwise_map.mpr h
    · split
      next hwrite => exact pairwise_cons.mpr ⟨fun _ _ _ => hwrite, hrest⟩
      next hwrite => exact WritersFirst.concat hrest hwrite

theorem writersFirst_put (id : Nat) : WritersFirst (owner.nfs4PutOpenState id).soStates := by
  unfold nfs4PutOpenState
  split
  · exact writersFirst_change h id _
  · exact h.sublist eraseP_sublist

theorem writersFirst_step (event : OwnerEvent) : WritersFirst (owner.step event).soStates := by
  cases event with
  | get inode alloc =>
    simp only [step, nfs4GetOpenState]
    split
    · exact writersFirst_change h _ _
    · split
      · exact h.concat nofun
      · exact h
  | setMode id | opened id | recoveryFailed id => exact writersFirst_change h id _
  | put id => exact writersFirst_put h id
  | close id fmode =>
    have hclosed := writersFirst_change h id fun state => { state with st := (state.st.nfs4Close fmode).2 }
    simp only [step, nfs4Close]
    split
    · exact hclosed
    · exact writersFirst_put hclosed id

theorem writersFirst_run (events : List OwnerEvent) : WritersFirst (events.foldl step owner).soStates := by
  induction events generalizing owner with
  | nil => exact h
  | cons event _ ih => exact ih (writersFirst_step h event)

end StateOwner

/-- States open for write stand first in every run, so a scan that stops at another one has passed all of them. -/
theorem reclaim_writers_first (events : List OwnerEvent) : let states := (events.foldl StateOwner.step {}).soStates
    WritersFirst states ∧ ∀ bit (others : Nat → ReclaimState) pre st post ssc,
      reclaimScan bit (states.map fun state => state.toReclaim (others state.id)) = .atState pre st post ssc →
        st.state.write = false → ∀ later ∈ post, later.state.write = false := by
  have hstart : WritersFirst ({} : StateOwner).soStates := .nil
  have hrun := StateOwner.writersFirst_run hstart events
  refine ⟨hrun, fun bit others pre st post ssc hscan hwrite later hlater => ?_⟩
  obtain ⟨passed, found, hsplit, -, hfound⟩ := reclaimScan_atState hscan
  obtain ⟨-, -, rfl⟩ := visit_recover hfound
  have hmap : (passed ++ found :: post).Pairwise fun a b => b.state.write → a.state.write :=
    hsplit ▸ pairwise_map.mpr hrun
  have hbehind := (pairwise_cons.mp (pairwise_append.mp hmap).2.1).1 later hlater
  rw [show (found.putFlag false bit).state = found.state by cases bit <;> rfl] at hwrite
  exact Bool.eq_false_iff.mpr fun h => Bool.eq_false_iff.mp hwrite (hbehind h)

end Mynfs
