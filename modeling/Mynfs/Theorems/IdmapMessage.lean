import Mynfs.Idmap.Message

/-! The message of an id-map upcall. An id from `2 ^ 31` on is not an `int`, and a name that does not fit is cut off. -/

namespace Mynfs

open Kstrtox List

/-- A name that a message has room for and that a key description can hold. -/
def Carriable (name : List UInt8) : Prop := name ≠ [] ∧ 0 ∉ name ∧ name.length < idmapNamesz

namespace IdmapQuery

/-- The message says what is looked up; a name may also be refused if it cannot be carried. -/
def Answers : IdmapQuery → Except Errno IdmapMsg → Prop
  | .lookupName type id, .ok msg => msg.imType = type ∧ msg.imConv = .idToName ∧ msg.imId = id
  | .lookupName .., .error _ => False
  | .lookupId type name, .ok msg => msg.imType = type ∧ msg.imConv = .nameToId ∧ msg.imName = name
  | .lookupId _ name, .error _ => ¬ Carriable name

def RoundTrips (q : IdmapQuery) : Prop := q.Answers (nfsIdmapPrepareMessage q.description)

def Fits : IdmapQuery → Prop
  | .lookupName _ id => id.toNat < 2 ^ 31
  | .lookupId _ name => Carriable name ∨ cString name = []

end IdmapQuery

theorem cString_desc {type : List UInt8} (htype : ∀ c ∈ type, c ≠ 0) (name : List UInt8) :
    cString (nfsIdmapGetDesc name type) = type ++ 58 :: cString name := by
  rw [nfsIdmapGetDesc, cString_append htype]
  rfl

theorem matchToken_lookupId (type : IdmapType) (name : List UInt8) :
    matchToken (IdmapQuery.lookupId type name).description =
      if cString name = [] then none else some (type, .nameToId, cString name) := by
  cases type <;>
  · rw [IdmapQuery.description, cString_desc (by simp)]
    generalize cString name = s
    cases s <;> simp [matchToken, nfsIdmapTokens]

theorem cString_print (id : U32) : cString (nfsMapNumericToString id nfsUintMaxlen) = decimal id.toNat := by
  have hlt := id.isLt
  obtain ⟨-, hs, -⟩ := decimal?_eq_some_iff.mp (decimal?_decimal id.toNat)
  rw [nfsMapNumericToString, take_of_length_le (length_decimal_le (hlt.trans (by decide)) (by decide))]
  exact cString_eq_self fun c hc => ne_zero_of_isDigit (hs c hc)

theorem matchToken_lookupName (type : IdmapType) (id : U32) :
    matchToken (IdmapQuery.lookupName type id).description = some (type, .idToName, decimal id.toNat) := by
  obtain ⟨hne, -, -⟩ := decimal?_eq_some_iff.mp (decimal?_decimal id.toNat)
  cases type <;>
  · rw [IdmapQuery.description, cString_desc (by simp), cString_print]
    generalize decimal id.toNat = s at hne
    cases s <;> simp_all [matchToken, nfsIdmapTokens]

theorem parse_decimal (n : Nat) : fixupRadix 0 (decimal n) = (if n = 0 then 8 else 10, decimal n) ∧
    parseInteger (if n = 0 then 8 else 10) 0 (decimal n) = (n, []) := by
  obtain ⟨hne, hs, hvalue⟩ := decimal?_eq_some_iff.mp (decimal?_decimal n)
  by_cases h0 : n = 0
  · subst h0
    exact ⟨rfl, rfl⟩
  · rw [if_neg h0, (fixupRadix_of_digits hs hne).2, if_neg (head?_decimal h0)]
    refine ⟨rfl, (parseInteger_eq 0 hs fun c hc => ?_).trans (Prod.ext hvalue rfl)⟩
    have hc := isDigit_iff.mp (hs c hc)
    omega

theorem matchInt_decimal {n : Nat} (hn : n < 2 ^ 32) :
    matchInt (decimal n) = if n < 2 ^ 31 then .ok (n : Int) else .error .erange := by
  obtain ⟨hne, hs, -⟩ := decimal?_eq_some_iff.mp (decimal?_decimal n)
  obtain ⟨hradix, hparse⟩ := parse_decimal n
  have hsign : (decimal n).head? ≠ some 45 := fun h => absurd (hs 45 (mem_of_head? h)) (by decide)
  have hlen : (decimal n).length ≤ 10 := length_decimal_le (by omega) (by decide)
  have hval : (BitVec.ofInt 64 n).toInt = n := by
    rw [BitVec.toInt_ofInt]
    exact Int.bmod_eq_of_le (by omega) (by omega)
  simp only [matchInt, if_neg hsign, hradix, hparse, hval, if_neg (show ¬24 ≤ (decimal n).length by omega), if_neg hne.symm]
  by_cases h : n < 2 ^ 31
  · rw [if_pos h, if_neg (by omega)]
  · rw [if_neg h, if_pos (by omega)]

theorem prepare_lookupName (type : IdmapType) (id : U32) :
    nfsIdmapPrepareMessage (IdmapQuery.lookupName type id).description =
      if id.toNat < 2 ^ 31 then .ok { imType := type, imConv := .idToName, imId := id } else .error .erange := by
  simp only [nfsIdmapPrepareMessage, matchToken_lookupName, matchInt_decimal id.isLt]
  by_cases h : id.toNat < 2 ^ 31
  · simp only [if_pos h, BitVec.ofInt_natCast, BitVec.ofNat_toNat, BitVec.setWidth_eq]
  · simp only [if_neg h]

theorem prepare_lookupId (type : IdmapType) (name : List UInt8) :
    nfsIdmapPrepareMessage (IdmapQuery.lookupId type name).description =
      if cString name = [] then .error .einval
      else .ok { imType := type, imConv := .nameToId, imName := matchStrlcpy (cString name) idmapNamesz } := by
  rw [nfsIdmapPrepareMessage, matchToken_lookupId]
  by_cases h : cString name = []
  · simp only [if_pos h]
  · simp only [if_neg h]

theorem length_matchStrlcpy_le (s : List UInt8) : (matchStrlcpy s idmapNamesz).length < idmapNamesz := by
  unfold matchStrlcpy idmapNamesz
  split
  · rw [length_take]
    omega
  next h => exact not_le.mp h

theorem mem_matchStrlcpy {s : List UInt8} {c : UInt8} (h : c ∈ matchStrlcpy s idmapNamesz) : c ∈ s := by
  unfold matchStrlcpy at h
  split at h
  · exact mem_of_mem_take h
  · exact h

theorem matchStrlcpy_eq_iff {name : List UInt8} (hne : cString name ≠ []) :
    matchStrlcpy (cString name) idmapNamesz = name ↔ Carriable name := by
  constructor
  · intro h
    have hlen := length_matchStrlcpy_le (cString name)
    rw [h] at hlen
    refine ⟨fun hnil => hne (by rw [hnil]; rfl), fun hzero => ?_, hlen⟩
    rw [← h] at hzero
    exact absurd (all_eq_true.mp all_takeWhile 0 (mem_matchStrlcpy hzero)) (by decide)
  · rintro ⟨-, hzero, hlen⟩
    rw [cString_eq_self fun c hc => ne_of_mem_of_not_mem hc hzero, matchStrlcpy, if_neg (not_le.mpr hlen)]

/-- The message of an upcall carries the id or name that is looked up exactly if an id is an `int` and a name fits. -/
theorem prepare_message_round_trips (q : IdmapQuery) : q.RoundTrips ↔ q.Fits := by
  cases q with
  | lookupName type id =>
    rw [IdmapQuery.RoundTrips, prepare_lookupName, IdmapQuery.Fits]
    by_cases h : id.toNat < 2 ^ 31
    · rw [if_pos h]
      exact iff_of_true ⟨rfl, rfl, rfl⟩ h
    · rw [if_neg h]
      exact iff_of_false not_false h
  | lookupId type name =>
    rw [IdmapQuery.RoundTrips, prepare_lookupId, IdmapQuery.Fits]
    by_cases h : cString name = []
    · rw [if_pos h]
      -- only a name that is empty or starts with NUL is refused
      refine iff_of_true (fun hcarriable => ?_) (.inr h)
      exact hcarriable.1 ((cString_eq_self fun c hc => ne_of_mem_of_not_mem hc hcarriable.2.1).symm.trans h)
    · rw [if_neg h, or_iff_left h, ← matchStrlcpy_eq_iff h]
      exact ⟨fun hok => hok.2.2, fun heq => ⟨rfl, rfl, heq⟩⟩

/-- The name of user `2 ^ 31` cannot be asked for, and of a name of 128 bytes the last one is lost. -/
theorem prepare_message_refuses_id :
    nfsIdmapPrepareMessage (IdmapQuery.lookupName .user 0x80000000).description = .error .erange ∧
      ¬ (IdmapQuery.lookupName .user 0x80000000).RoundTrips ∧
      nfsIdmapPrepareMessage (IdmapQuery.lookupId .user (replicate 128 97)).description
        = .ok { imType := .user, imConv := .nameToId, imName := replicate 127 97 } ∧
      ¬ (IdmapQuery.lookupId .user (replicate 128 97)).RoundTrips := by
  have hname : cString (replicate 128 97) = replicate 128 97 :=
    cString_eq_self fun c hc => by rw [eq_of_mem_replicate hc]; decide
  have hcopy : matchStrlcpy (cString (replicate 128 97)) idmapNamesz = replicate 127 97 := by
    rw [hname, matchStrlcpy, if_pos (by rw [length_replicate]; decide), take_replicate]
    rfl
  rw [IdmapQuery.RoundTrips, IdmapQuery.RoundTrips, prepare_lookupName, prepare_lookupId, if_neg (by decide),
    if_neg (by rw [hname]; nofun), hcopy]
  exact ⟨rfl, not_false, rfl, fun h => absurd (congrArg length h.2.2) (by rw [length_replicate, length_replicate]; decide)⟩

end Mynfs
