import Mynfs.Write.Merge

/-! A write is merged with the request of its folio if the two touch. -/

namespace Mynfs

namespace GroupPage

/-- The bytes of the folio that a request has, counted from `wb_offset`. -/
def HasByte (req : GroupPage) (x : Nat) : Prop := req.wbOffset.toNat ≤ x ∧ x < req.wbOffset.toNat + req.wbBytes.toNat

end GroupPage

variable {req : GroupPage} {offset bytes : U32} {size : Nat}

section
variable (req : GroupPage) (offset bytes : U32)

def Beyond : Prop :=
  req.wbOffset.toNat + req.wbBytes.toNat < offset.toNat ∨ offset.toNat + bytes.toNat < req.wbOffset.toNat

/-- The ranges neither overlap nor touch. -/
def Apart : Prop :=
  ∀ x y, req.HasByte x → offset.toNat ≤ y → y < offset.toNat + bytes.toNat → x + 1 < y ∨ y + 1 < x

end

theorem apart_iff (hreq : 0 < req.wbBytes.toNat) (hbytes : 0 < bytes.toNat) :
    Apart req offset bytes ↔ Beyond req offset bytes := by
  unfold Beyond
  constructor
  · intro h
    have hlast := h (req.wbOffset.toNat + req.wbBytes.toNat - 1) offset.toNat
    have hfirst := h req.wbOffset.toNat (offset.toNat + bytes.toNat - 1)
    have hmid := h (max req.wbOffset.toNat offset.toNat) (max req.wbOffset.toNat offset.toNat)
    unfold GroupPage.HasByte at hlast hfirst hmid
    omega
  · rintro h x y ⟨hx, hx'⟩ hy hy'
    omega

/-- The request with the range of both. -/
structure Joins (req : GroupPage) (offset bytes : U32) (req' : GroupPage) : Prop where
  start : req'.wbOffset.toNat = min req.wbOffset.toNat offset.toNat
  stop : req'.wbOffset.toNat + req'.wbBytes.toNat = max (req.wbOffset.toNat + req.wbBytes.toNat) (offset.toNat + bytes.toNat)
  hasByte : ∀ x, req'.HasByte x ↔ req.HasByte x ∨ offset.toNat ≤ x ∧ x < offset.toNat + bytes.toNat
  base : req.wbPgbase = req.wbOffset → req'.wbPgbase = req'.wbOffset

theorem joins_of_range {req' : GroupPage} (hstart : req'.wbOffset.toNat = min req.wbOffset.toNat offset.toNat)
    (hstop : req'.wbOffset.toNat + req'.wbBytes.toNat = max (req.wbOffset.toNat + req.wbBytes.toNat) (offset.toNat + bytes.toNat))
    (h : ¬Beyond req offset bytes)
    (hbase : req.wbPgbase = req.wbOffset → req'.wbPgbase = req'.wbOffset) : Joins req offset bytes req' := by
  refine ⟨hstart, hstop, fun x => ?_, hbase⟩
  unfold Beyond at h
  unfold GroupPage.HasByte
  omega

theorem nfsTryToUpdateRequest_cases (wbFolio : Except Err Unit) (hreq : req.wbOffset.toNat + req.wbBytes.toNat < 2 ^ 32)
    (hnew : offset.toNat + bytes.toNat < 2 ^ 32) : Beyond req offset bytes ∧
      nfsTryToUpdateRequest (.ok (some req)) offset bytes wbFolio = ⟨wbFolio.map fun _ => none, some req⟩ ∨
    ¬Beyond req offset bytes ∧
      ∃ req', nfsTryToUpdateRequest (.ok (some req)) offset bytes wbFolio = ⟨.ok (some req'), none⟩ ∧ Joins req offset bytes req' := by
  have hstop := BitVec.toNat_add_of_lt hnew
  have hend := BitVec.toNat_add_of_lt hreq
  have hlt : (req.wbOffset + req.wbBytes < offset ∨ offset + bytes < req.wbOffset) ↔ Beyond req offset bytes := by
    rw [Beyond, BitVec.lt_def, BitVec.lt_def, hstop, hend]
  let first := if offset < req.wbOffset then { req with wbOffset := offset, wbPgbase := offset } else req
  have hfirst : first.wbOffset.toNat = min req.wbOffset.toNat offset.toNat := by
    simp only [first, BitVec.lt_def, apply_ite GroupPage.wbOffset]
    split <;> omega
  have hbase : req.wbPgbase = req.wbOffset → first.wbPgbase = first.wbOffset := by
    intro h
    simp only [first]
    split
    · rfl
    · exact h
  unfold nfsTryToUpdateRequest
  dsimp only
  split
  next h => exact .inl ⟨hlt.mp h, rfl⟩
  next h =>
    have h := mt hlt.mpr h
    refine .inr ⟨h, _, rfl, ?_⟩
    let last := if req.wbOffset + req.wbBytes < offset + bytes then offset + bytes else req.wbOffset + req.wbBytes
    have hlast : last.toNat = max (req.wbOffset.toNat + req.wbBytes.toNat) (offset.toNat + bytes.toNat) := by
      simp only [last, BitVec.lt_def, hstop, hend]
      split <;> omega
    have hsub : (last - first.wbOffset).toNat = last.toNat - first.wbOffset.toNat :=
      BitVec.toNat_sub_of_le (BitVec.le_def.mpr (by omega))
    have hbytes : (if req.wbOffset + req.wbBytes < offset + bytes then offset + bytes - first.wbOffset
        else req.wbOffset + req.wbBytes - first.wbOffset) = last - first.wbOffset := (apply_ite (· - first.wbOffset) ..).symm
    have hrange : first.wbOffset.toNat + (last - first.wbOffset).toNat =
        max (req.wbOffset.toNat + req.wbBytes.toNat) (offset.toNat + bytes.toNat) := by omega
    exact joins_of_range hfirst (hbytes ▸ hrange) h hbase

/-- A write to a folio with a request: if the two are apart it is flushed, otherwise it gets the range of both. -/
theorem try_to_update_joins (req : GroupPage) (offset bytes : U32) (wbFolio : Except Err Unit) (size : Nat) (hsize : size < 2 ^ 32)
    (hreq : req.wbOffset.toNat + req.wbBytes.toNat ≤ size) (hnew : offset.toNat + bytes.toNat ≤ size)
    (hreq₀ : 0 < req.wbBytes.toNat) (hnew₀ : 0 < bytes.toNat) : (Apart req offset bytes ∧
      nfsTryToUpdateRequest (.ok (some req)) offset bytes wbFolio = ⟨wbFolio.map fun _ => none, some req⟩) ∨
    (¬Apart req offset bytes ∧
      ∃ req', nfsTryToUpdateRequest (.ok (some req)) offset bytes wbFolio = ⟨.ok (some req'), none⟩ ∧ Joins req offset bytes req') := by
  rw [apart_iff hreq₀ hnew₀]
  exact nfsTryToUpdateRequest_cases wbFolio (hreq.trans_lt hsize) (hnew.trans_lt hsize)

/-- Bytes 100 to 200 are dirty, and bytes 50 to 100 are written. -/
theorem try_to_update_joins_before : ∃ req', nfsTryToUpdateRequest (.ok (some ⟨0, 0, 100, 100, 100⟩)) 50 50 (.ok ()) =
    ⟨.ok (some req'), none⟩ ∧ Joins ⟨0, 0, 100, 100, 100⟩ 50 50 req' ∧ req' = ⟨0, 0, 50, 50, 150⟩ := by
  obtain ⟨-, h⟩ | ⟨-, req', h, hjoins⟩ := try_to_update_joins ⟨0, 0, 100, 100, 100⟩ 50 50 (.ok ()) 4096 (by decide) (by decide)
    (by decide) (by decide) (by decide)
  · cases h
  · refine ⟨req', h, hjoins, ?_⟩
    cases h
    rfl

end Mynfs
