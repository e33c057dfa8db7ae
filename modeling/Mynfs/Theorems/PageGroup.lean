import Mynfs.Pageio.Group

/-! Whether a page group covers its page is found out exactly. -/

namespace Mynfs

open Linked

namespace GroupMem
variable {mem : GroupMem} {head p : Nat} {tail : List Nat} {fuel : Nat}

def CoveredBy (mem : GroupMem) (ps : List Nat) (x : Nat) : Prop := ∃ p ∈ ps, (mem.req p).Covers x

instance (mem : GroupMem) (ps : List Nat) (x : Nat) : Decidable (mem.CoveredBy ps x) :=
  inferInstanceAs (Decidable (∃ p ∈ ps, _))

theorem covers_iff {req : GroupPage} {pos : U32} (hfits : req.wbPgbase.toNat + req.wbBytes.toNat < 2 ^ 32) :
    (req.wbPgbase ≤ pos ∧ pos < req.wbPgbase + req.wbBytes) ↔ req.Covers pos.toNat := by
  rw [GroupPage.Covers, BitVec.le_def, BitVec.lt_def, BitVec.toNat_add_of_lt hfits]

theorem pageGroupSearchLocked_eq (hring : Ring mem.next head tail)
    (hfits : ∀ p ∈ head :: tail, (mem.req p).wbPgbase.toNat + (mem.req p).wbBytes.toNat < 2 ^ 32)
    (hfuel : tail.length < fuel) (pos : U32) : ∃ found, mem.nfsPageGroupSearchLocked fuel head pos = some found ∧
      (∀ q, found = some q → q ∈ head :: tail ∧ (mem.req q).Covers pos.toNat) ∧
      (found = none → ¬mem.CoveredBy (head :: tail) pos.toNat) := by
  refine ⟨_, search_eq hring.seg hring.tail_ne hfuel, fun q hq => ?_, fun hnone => ?_⟩
  · have hmem := List.mem_of_find?_eq_some hq
    have htest := List.find?_some hq
    exact ⟨hmem, (covers_iff (hfits q hmem)).mp (of_decide_eq_true htest)⟩
  · rintro ⟨q, hmem, hcovers⟩
    have htest := List.find?_eq_none.mp hnone q hmem
    exact htest (decide_eq_true ((covers_iff (hfits q hmem)).mpr hcovers))

theorem coversLoop_spec {folio : Nat} (hring : Ring mem.next head tail) (hfolio : folio < 2 ^ 32)
    (hfits : ∀ p ∈ head :: tail, (mem.req p).wbPgbase.toNat + (mem.req p).wbBytes.toNat ≤ folio)
    {n : Nat} (hn : tail.length < n) (pos : U32) (hfuel : folio - pos.toNat < fuel)
    (hbelow : ∀ x < pos.toNat, mem.CoveredBy (head :: tail) x) :
    ∃ pos', mem.coversLoop (mem.nfsPageGroupSearchLocked n head) fuel pos = some pos' ∧
      (∀ x < pos'.toNat, mem.CoveredBy (head :: tail) x) ∧ ¬mem.CoveredBy (head :: tail) pos'.toNat := by
  have hlt : ∀ p ∈ head :: tail, (mem.req p).wbPgbase.toNat + (mem.req p).wbBytes.toNat < 2 ^ 32 := fun p hp =>
    (hfits p hp).trans_lt hfolio
  induction fuel generalizing pos with
  | zero => exact absurd hfuel (Nat.not_lt_zero _)
  | succ fuel ih =>
    obtain ⟨found, hsearch, hsome, hnone⟩ := pageGroupSearchLocked_eq hring hlt hn pos
    rw [coversLoop, hsearch, Option.bind_some]
    cases found with
    | none => exact ⟨pos, rfl, hbelow, hnone rfl⟩
    | some q =>
      obtain ⟨hq, hcovers⟩ := hsome q rfl
      have hend : ((mem.req q).wbPgbase + (mem.req q).wbBytes).toNat = (mem.req q).wbPgbase.toNat + (mem.req q).wbBytes.toNat :=
        BitVec.toNat_add_of_lt (hlt q hq)
      have hle := hfits q hq
      obtain ⟨hfrom, hto⟩ := hcovers
      refine ih _ (by omega) fun x hx => ?_
      rw [hend] at hx
      by_cases hxpos : x < pos.toNat
      · exact hbelow x hxpos
      · exact ⟨q, hq, by omega, hx⟩

/-- The test terminates, for any ranges within the folio, and is true just if requests cover every byte. -/
theorem nfsPageGroupCoversPage_iff (mem : GroupMem) (head : Nat) (tail : List Nat) (hring : Ring mem.next head tail)
    (hhead : ∀ p ∈ head :: tail, (mem.req p).wbHead = head) (folio : Nat) (hfolio : folio < 2 ^ 32)
    (hfits : ∀ p ∈ head :: tail, (mem.req p).wbPgbase.toNat + (mem.req p).wbBytes.toNat ≤ folio)
    (req : Nat) (hreq : req ∈ head :: tail) (len : U32) :
    ∃ rounds covers, (∀ fuel, rounds ≤ fuel → mem.nfsPageGroupCoversPage fuel req len = some covers) ∧
      (covers ↔ ∀ x < len.toNat, mem.CoveredBy (head :: tail) x) := by
  refine ⟨tail.length + folio + 1, decide (∀ x < len.toNat, mem.CoveredBy (head :: tail) x), fun fuel hfuel => ?_,
    decide_eq_true_iff⟩
  obtain ⟨pos, hloop, hbelow, hstop⟩ :=
    coversLoop_spec hring hfolio hfits (show tail.length < fuel by omega) 0 (show folio - 0 < fuel by omega)
      fun x hx => absurd hx (Nat.not_lt_zero x)
  unfold nfsPageGroupCoversPage
  rw [hhead req hreq, hloop, Option.map_some]
  congr 1
  rw [decide_eq_decide]
  constructor
  · intro hle x hx
    exact hbelow x (hx.trans_le hle)
  · intro hall
    by_contra hlt
    exact hstop (hall pos.toNat (by rw [BitVec.le_def] at hlt; omega))

def overlapping : GroupMem where
  req
    | 0 => ⟨1, 0, 3, 3, 5⟩
    | 1 => ⟨2, 0, 0, 0, 2⟩
    | _ => ⟨0, 0, 1, 1, 3⟩
  fresh := 3

theorem nfsPageGroupCoversPage_iff_overlapping :
    ∃ rounds, ∀ fuel, rounds ≤ fuel → overlapping.nfsPageGroupCoversPage fuel 1 8 = some true := by
  obtain ⟨rounds, covers, hcovers, hiff⟩ :=
    nfsPageGroupCoversPage_iff overlapping 0 [1, 2] ⟨⟨rfl, rfl, rfl⟩, by decide⟩ (by decide) 8 (by decide) (by decide) 1
      (by decide) 8
  rw [hiff.mpr (by decide)] at hcovers
  exact ⟨rounds, hcovers⟩

end GroupMem

end Mynfs
