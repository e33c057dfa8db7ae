import Mathlib.Tactic.Common
import Mynfs.Layout.DsConnect

/-! `_nfs4_pnfs_v4_ds_connect` keeps the first client: only those that can be trunked get past `mynfs4_init_ds_session`. -/

namespace Mynfs.DsConnect
open List

/-- The client that an address yields: it is set up, with a session. -/
def yields (xprtsec : Bool) (minorVersion : Nat) (da : DsAddr) : Option DsClient :=
  match da.setDsClient (dsProto xprtsec da) with
  | .ok clp => if mynfs4InitDsSession minorVersion da clp = some 0 then some clp else none
  | .error _ => none

/-- The call succeeds if some address yields a client; then it keeps the reference of `ds_clp`, and otherwise none. -/
structure KeepsOne (xprtsec : Bool) (minorVersion : Nat) (dsAddrs : List DsAddr) (r : DsConnect) : Prop where
  success : r.status = 0 ↔ ∃ da ∈ dsAddrs, (yields xprtsec minorVersion da).isSome
  kept : r.status = 0 → ∃ id, r.dsClp = some id ∧ r.kept = [id]
  unset : r.status ≠ 0 → r.dsClp = none ∧ r.kept = []

/-- What the loop has made of the addresses so far: the first client and its reference, or an error and none. -/
structure Tried (xprtsec : Bool) (minorVersion : Nat) (dsAddrs : List DsAddr) (s : DsConnect) : Prop where
  dsClp : s.dsClp = none
  client : ∀ clp, s.clp = .ok clp → minorVersion ≠ 0 ∧ s.status = 0 ∧ s.kept = [clp.id] ∧
    ∃ da ∈ dsAddrs, (yields xprtsec minorVersion da).isSome
  failed : ∀ e, s.clp = .error e → s.kept = [] ∧ ∀ da ∈ dsAddrs, yields xprtsec minorVersion da = none

variable {xprtsec : Bool} {minorVersion : Nat} {dsAddrs : List DsAddr} {da : DsAddr} {s t : DsConnect}

theorem Tried.connect (h : Tried xprtsec minorVersion dsAddrs s) {e : Err} (he : s.clp = .error e)
    (ht : s.connect xprtsec minorVersion da = some t) : Tried xprtsec minorVersion (dsAddrs ++ [da]) t := by
  obtain ⟨hkept, hnone⟩ := h.failed e he
  have hyields : yields xprtsec minorVersion da = none → ∀ da' ∈ dsAddrs ++ [da], yields xprtsec minorVersion da' = none := by
    intro hda da' hda'
    rcases mem_append.mp hda' with hda' | hda'
    · exact hnone da' hda'
    · rwa [mem_singleton.mp hda']
  unfold DsConnect.connect at ht
  split at ht
  next e' hset =>
    cases ht
    exact ⟨h.dsClp, nofun, fun _ _ => ⟨hkept, hyields (by simp [yields, hset])⟩⟩
  next clp hset =>
    obtain ⟨status, hinit, rfl⟩ := Option.map_eq_some_iff.mp ht
    split
    next hz =>
      refine ⟨h.dsClp, ?_, nofun⟩
      rintro _ ⟨⟩
      -- a session is there, so the minor version has them
      have hminor : minorVersion ≠ 0 := by
        rintro rfl
        cases hinit
      exact ⟨hminor, hz, by rw [hkept], da, by simp, by simp [yields, hset, hinit, hz]⟩
    next hz => exact ⟨h.dsClp, nofun, fun _ _ => ⟨hkept, hyields (by simp [yields, hset, hinit, hz])⟩⟩

theorem Tried.body (h : Tried xprtsec minorVersion dsAddrs s) (ht : DsConnect.body xprtsec minorVersion s da = some t) :
    Tried xprtsec minorVersion (dsAddrs ++ [da]) t := by
  unfold DsConnect.body at ht
  split at ht
  next clp hclp =>
    obtain ⟨hminor, hstatus, hkept, da', hda', hyields⟩ := h.client clp hclp
    rw [if_pos hminor] at ht
    cases ht
    refine ⟨h.dsClp, fun c hc => ?_, fun e he => absurd (hclp.symm.trans he) nofun⟩
    cases hclp.symm.trans hc
    exact ⟨hminor, hstatus, hkept, da', mem_append_left _ hda', hyields⟩
  next e he => exact h.connect he ht

theorem tried_foldlM (h : Tried xprtsec minorVersion dsAddrs s) {rest : List DsAddr}
    (ht : rest.foldlM (DsConnect.body xprtsec minorVersion) s = some t) : Tried xprtsec minorVersion (dsAddrs ++ rest) t := by
  induction rest generalizing s dsAddrs with
  | nil =>
    cases ht
    rwa [append_nil]
  | cons da rest ih =>
    rw [foldlM_cons] at ht
    obtain ⟨s', hs', ht⟩ := Option.bind_eq_some_iff.mp ht
    rw [append_cons]
    exact ih (h.body hs') ht

theorem Tried.finish (h : Tried xprtsec minorVersion dsAddrs s) : KeepsOne xprtsec minorVersion dsAddrs s.finish := by
  unfold DsConnect.finish
  split
  next e he =>
    obtain ⟨hkept, hnone⟩ := h.failed e he
    have hne : e.val ≠ 0 := Int.ne_of_lt e.2
    refine ⟨iff_of_false hne ?_, fun hz => absurd hz hne, fun _ => ⟨h.dsClp, hkept⟩⟩
    rintro ⟨da, hda, hyields⟩
    simp [hnone da hda] at hyields
  next clp hclp =>
    obtain ⟨-, hstatus, hkept, hyields⟩ := h.client clp hclp
    exact ⟨iff_of_true hstatus hyields, fun _ => ⟨clp.id, rfl, hkept⟩, fun hne => absurd hstatus hne⟩

theorem foldlM_isSome (xprtsec : Bool) (hminor : minorVersion ≠ 0) (dsAddrs : List DsAddr) (s : DsConnect) :
    ∃ t, dsAddrs.foldlM (DsConnect.body xprtsec minorVersion) s = some t := by
  induction dsAddrs generalizing s with
  | nil => exact ⟨s, rfl⟩
  | cons da rest ih =>
    have hconnect : ∃ t, s.connect xprtsec minorVersion da = some t := by
      unfold DsConnect.connect
      split
      · exact ⟨_, rfl⟩
      · unfold mynfs4InitDsSession
        rw [if_neg hminor]
        split
        · exact ⟨_, rfl⟩
        · split <;> exact ⟨_, rfl⟩
    have hbody : ∃ t, DsConnect.body xprtsec minorVersion s da = some t := by
      unfold DsConnect.body
      split
      · exact ⟨_, if_pos hminor⟩
      · exact hconnect
    obtain ⟨t, ht⟩ := hbody
    rw [foldlM_cons, ht]
    exact ih t

/-- With sessions the call returns, and then it has kept exactly one client, or none if no address yields one. -/
theorem ds_connect_keeps_one (xprtsec : Bool) (minorVersion : Nat) (dsAddrs : List DsAddr) :
    (minorVersion ≠ 0 → ∃ r, nfs4PnfsV4DsConnect xprtsec minorVersion dsAddrs = some r) ∧
    ∀ r, nfs4PnfsV4DsConnect xprtsec minorVersion dsAddrs = some r → KeepsOne xprtsec minorVersion dsAddrs r := by
  constructor
  · intro hminor
    obtain ⟨t, ht⟩ := foldlM_isSome xprtsec hminor dsAddrs {}
    exact ⟨t.finish, congrArg (Option.map finish) ht⟩
  · intro r hr
    obtain ⟨t, ht, rfl⟩ := Option.map_eq_some_iff.mp hr
    have hinit : Tried xprtsec minorVersion [] {} := ⟨rfl, nofun, fun _ _ => ⟨rfl, nofun⟩⟩
    exact (tried_foldlM hinit ht).finish

/-- The first address fails, the second yields a client and the third is tested for trunking with it. -/
theorem ds_connect_keeps_one_second :
    let addrs := [⟨.tcp, .inet, fun _ => DsClient.eio, 0⟩, ⟨.tcp, .inet, fun p => .ok ⟨1, p, .inet, true⟩, 0⟩,
      ⟨.tcp, .inet, fun p => .ok ⟨2, p, .inet, true⟩, 0⟩]
    ∃ r, nfs4PnfsV4DsConnect false 1 addrs = some r ∧ KeepsOne false 1 addrs r ∧ r.kept = [1] ∧ r.tested = [(.tcp, .inet)] :=
  ⟨_, rfl, (ds_connect_keeps_one false 1 _).2 _ rfl, rfl, rfl⟩

end Mynfs.DsConnect
