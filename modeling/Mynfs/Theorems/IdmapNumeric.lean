import Mynfs.Idmap

/-! Numeric owner strings: the base depends on the first characters, and the low 32 of 64 bits are kept. -/

namespace Mynfs

open Kstrtox List
open BitVec (ofNat)

section
variable {name : List UInt8} {res : U32}

/-- A decimal numeral below `2 ^ 32` that is not octal: a first digit 0 is allowed for a single digit only. -/
def PlainNumeral (name : List UInt8) : Prop :=
  ∃ n < 2 ^ 32, decimal? name = some n ∧ (name.head? = some 48 → n < 8)

theorem id_toNat {n : Nat} (h : n < 2 ^ 32) : (ofNat 32 n).toNat = n :=
  (BitVec.toNat_ofNat n 32).trans (Nat.mod_eq_of_lt h)

theorem kstrtoull_zero_ok_iff {n : Nat} (hs : ∀ c ∈ name, isDigit c) (hne : name ≠ []) :
    kstrtoull 0 (cString name) = .ok n ↔ (∀ c ∈ name, c.toNat - 48 < if name.head? = some 48 then 8 else 10) ∧
        valueIn (if name.head? = some 48 then 8 else 10) name < 2 ^ 64 ∧
        valueIn (if name.head? = some 48 then 8 else 10) name = n := by
  have hplus : name.head? ≠ some 43 := fun h => absurd (hs 43 (mem_of_head? h)) (by decide)
  rw [cString_eq_self fun c hc => ne_zero_of_isDigit (hs c hc), kstrtoull, if_neg hplus,
    kstrtoullUnsigned_ok_iff (fixupRadix_of_digits hs hne).2 hs]
  exact and_iff_right hne

theorem mapStringToNumeric_eq_some (h : mynfsMapStringToNumeric name = some res) :
    ∃ n, kstrtoull 0 (cString name) = .ok n ∧ res = ofNat 32 n := by
  unfold mynfsMapStringToNumeric at h
  split at h
  · cases h
  · split at h
    next n hn => exact ⟨n, hn, (Option.some.inj h).symm⟩
    · cases h

theorem denotes_iff_plainNumeral (h : mynfsMapStringToNumeric name = some res) :
    decimal? name = some res.toNat ↔ PlainNumeral name := by
  obtain ⟨n, hn, rfl⟩ := mapStringToNumeric_eq_some h
  constructor
  · intro hdec
    obtain ⟨hne, hs, hvalue⟩ := decimal?_eq_some_iff.mp hdec
    refine ⟨_, (ofNat 32 n).isLt, hdec, fun hhead => ?_⟩
    obtain ⟨hdigits, -, hoctal⟩ := (kstrtoull_zero_ok_iff hs hne).mp hn
    rw [if_pos hhead] at hoctal hdigits
    -- the octal value is at most the decimal one, so nothing was cut off
    have hle := valueIn_mono (show 8 ≤ 10 by decide) name
    have hsame : (ofNat 32 n).toNat = n := id_toNat (by omega)
    rw [hsame] at hvalue ⊢
    have hsingle := (valueIn_eight_eq_ten_iff hdigits).mp (hoctal.trans hvalue.symm)
    omega
  · rintro ⟨v, hv, hdec, hhead⟩
    obtain ⟨hne, hs, hvalue⟩ := decimal?_eq_some_iff.mp hdec
    obtain ⟨hdigits, -, hparsed⟩ := (kstrtoull_zero_ok_iff hs hne).mp hn
    have hn : n = v := by
      by_cases h0 : name.head? = some 48
      · rw [if_pos h0] at hdigits hparsed
        rw [← hparsed, ← hvalue]
        exact (valueIn_eight_eq_ten_iff hdigits).mpr (hvalue ▸ hhead h0)
      · rw [if_neg h0] at hparsed
        exact hparsed.symm.trans hvalue
    rw [hdec, hn, id_toNat hv]

theorem mynfsMapStringToNumeric_print (id : U32) {buflen : Nat} (hbuf : nfsUintMaxlen ≤ buflen) :
    mynfsMapStringToNumeric (nfsMapNumericToString id buflen) = some id := by
  have hlt := id.isLt
  have hlen : (decimal id.toNat).length ≤ 10 := length_decimal_le (by omega) (by decide)
  have hbuf : 11 ≤ buflen := hbuf
  have hprint : nfsMapNumericToString id buflen = decimal id.toNat := take_of_length_le (by omega)
  obtain ⟨hne, hs, hvalue⟩ := decimal?_eq_some_iff.mp (decimal?_decimal id.toNat)
  have hat : 64 ∉ decimal id.toNat := fun h => absurd (hs 64 h) (by decide)
  have hparse : kstrtoull 0 (cString (decimal id.toNat)) = .ok id.toNat := by
    rw [kstrtoull_zero_ok_iff hs hne]
    by_cases h0 : id.toNat = 0
    · rw [h0, show decimal 0 = [48] from rfl]
      exact ⟨forall_mem_singleton.mpr (by decide), by decide, rfl⟩
    · rw [if_neg (head?_decimal h0), hvalue]
      refine ⟨fun c hc => ?_, by omega, rfl⟩
      have := isDigit_iff.mp (hs c hc)
      omega
  rw [hprint, mynfsMapStringToNumeric, if_neg (not_or.mpr ⟨hat, by omega⟩), hparse]
  exact congrArg some (BitVec.eq_of_toNat_eq (id_toNat hlt))

theorem lookup_denotes_iff {idmap : Idmap} {str : List UInt8} {id : U32} (hkey : idmap.requestKey name = .ok (str ++ [0]))
    (hstr : ∀ c ∈ str, c ≠ 0) (h : idmap.nfsIdmapLookupId name = .ok id) :
    decimal? str = some id.toNat ↔ ∃ n < 2 ^ 32, decimal? str = some n := by
  constructor
  · exact fun hdec => ⟨_, id.isLt, hdec⟩
  · rintro ⟨n, hn, hdec⟩
    obtain ⟨hne, hs, hvalue⟩ := decimal?_eq_some_iff.mp hdec
    have hplus : str.head? ≠ some 43 := fun h => absurd (hs 43 (mem_of_head? h)) (by decide)
    have hminus : str.head? ≠ some 45 := fun h => absurd (hs 45 (mem_of_head? h)) (by decide)
    have hparse : kstrtoll 10 (cString (str ++ [0] ++ idmap.stack)) = .ok (n : Int) := by
      have hull : kstrtoullUnsigned 10 str = .ok n := by
        rw [kstrtoullUnsigned_ok_iff (fixupRadix_of_digits hs hne).1 hs]
        refine ⟨hne, fun c hc => ?_, by omega, hvalue⟩
        have := isDigit_iff.mp (hs c hc)
        omega
      rw [append_assoc, cString_append hstr, show cString ([0] ++ idmap.stack) = [] from rfl, append_nil,
        kstrtoll, if_neg hminus, kstrtoull, if_neg hplus, hull]
      exact if_neg (by omega)
    unfold Idmap.nfsIdmapLookupId at h
    split at h
    · cases h
    next payload hpay =>
      have hcopy : payload = str ++ [0] := by
        unfold Idmap.nfsIdmapGetKey at hpay
        rw [hkey] at hpay
        dsimp only at hpay
        split at hpay
        · exact (Except.ok.inj hpay).symm
        · cases hpay
      rw [hcopy, hparse] at h
      rw [hdec, ← Except.ok.inj h, BitVec.ofInt_natCast, id_toNat hn]

/-- Which owner strings, and which answers of the service, get the id they denote; printed ids are taken as such. -/
theorem numeric_strings_denote (idmap : Idmap) (name str : List UInt8) (res id : U32) (buflen : Nat) :
    (mynfsMapStringToNumeric name = some res → (decimal? name = some res.toNat ↔ PlainNumeral name)) ∧
    (idmap.requestKey name = .ok (str ++ [0]) → (∀ c ∈ str, c ≠ 0) →
      idmap.nfsIdmapLookupId name = .ok id → (decimal? str = some id.toNat ↔ ∃ n < 2 ^ 32, decimal? str = some n)) ∧
    (nfsUintMaxlen ≤ buflen → mynfsMapStringToNumeric (nfsMapNumericToString id buflen) = some id) :=
  ⟨denotes_iff_plainNumeral, lookup_denotes_iff, mynfsMapStringToNumeric_print id⟩

def thousand : Idmap where
  requestKey _ := .ok [49, 48, 48, 48, 0]
  makeKuid id := some id.toNat

theorem numeric_strings_denote_thousand : decimal? [49, 48, 48, 48] = some 1000 ∧
    mynfsMapStringToNumeric [49, 48, 48, 48] = some 1000 ∧ thousand.nfsIdmapLookupId [106, 64, 110] = .ok 1000 ∧
    PlainNumeral [49, 48, 48, 48] ∧ (∃ n < 2 ^ 32, decimal? [49, 48, 48, 48] = some n) ∧
    mynfsMapStringToNumeric (nfsMapNumericToString 1000 11) = some 1000 := by
  obtain ⟨hnumeric, -, hprint⟩ := numeric_strings_denote thousand [49, 48, 48, 48] [] 1000 1000 11
  obtain ⟨-, hlookup, -⟩ := numeric_strings_denote thousand [106, 64, 110] [49, 48, 48, 48] 1000 1000 11
  have hdec : decimal? [49, 48, 48, 48] = some 1000 := by decide
  have hmap : mynfsMapStringToNumeric [49, 48, 48, 48] = some 1000 := by decide
  have hid : thousand.nfsIdmapLookupId [106, 64, 110] = .ok 1000 := by decide
  have hplain := (hlookup rfl (by simp) hid).mp hdec
  exact ⟨hdec, hmap, hid, (hnumeric hmap).mp hdec, hplain, hprint le_rfl⟩

/-- The owner `4294967296` is taken as user 0, the owner `010` as user 8, and an answer `-1` as user 4294967295. -/
theorem numeric_string_of_another : mynfsMapStringToNumeric [52, 50, 57, 52, 57, 54, 55, 50, 57, 54] = some 0 ∧
    decimal? [52, 50, 57, 52, 57, 54, 55, 50, 57, 54] = some (2 ^ 32) ∧
    thousand.nfsMapNameToUid [52, 50, 57, 52, 57, 54, 55, 50, 57, 54] = .ok 0 ∧
    mynfsMapStringToNumeric [48, 49, 48] = some 8 ∧
    Idmap.nfsIdmapLookupId { thousand with requestKey := fun _ => .ok [45, 49, 0] } [106, 64, 110] = .ok 0xFFFFFFFF := by
  decide

end

end Mynfs
