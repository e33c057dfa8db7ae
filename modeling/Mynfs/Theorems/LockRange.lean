import Mynfs.Lock.Range

/-! Lock ranges on the wire. `decode_lock_denied` takes offset and end as signed. -/

namespace Mynfs
open Xdr List

/-- What a server sends for a lock that is in the way. -/
structure LockDenied where
  offset : U64
  length : U64
  locktype : U32
  clientid : U64
  owner : List Byte
  owner_le : owner.length ≤ 1024

namespace LockDenied
variable (r : LockDenied)

def encode : List Byte :=
  bytes64 r.offset ++ (bytes64 r.length ++ (bytes32 r.locktype ++ (bytes64 r.clientid ++
    (bytes32 (BitVec.ofNat 32 r.owner.length) ++ (r.owner ++ replicate (padded r.owner.length - r.owner.length) 0)))))

/-- The range ends below `2 ^ 64`, or is open. -/
def Legal : Prop :=
  r.length = BitVec.allOnes 64 ∨ 0 < r.length.toNat ∧ r.offset.toNat + r.length.toNat ≤ 2 ^ 64

def HasByte (n : Nat) : Prop :=
  r.offset.toNat ≤ n ∧ (r.length = BitVec.allOnes 64 ∨ n < r.offset.toNat + r.length.toNat)

end LockDenied

namespace RangeLock

def Valid (fl : RangeLock) : Prop := 0 ≤ fl.flStart.toInt ∧ fl.flStart.toInt ≤ fl.flEnd.toInt

/-- The lock has the range of the report as far as that is below `OFFSET_MAX`. -/
def Matches (fl : RangeLock) (r : LockDenied) : Prop :=
  fl.Valid ∧ ((∃ n < 2 ^ 63, r.HasByte n) →
    ∀ n : Nat, fl.flStart.toInt ≤ n ∧ n ≤ fl.flEnd.toInt ↔ r.HasByte n ∧ n < 2 ^ 63)

end RangeLock

/-- The lock that is made of a report. -/
def LockDenied.lock (r : LockDenied) : RangeLock where
  flStart := r.offset
  flEnd := if r.length = BitVec.allOnes 64 then offsetMax else r.offset + r.length - 1
  flType := if r.locktype &&& 1 ≠ 0 then .rdlck else .wrlck

variable {r : LockDenied} {fl : RangeLock}

theorem decodeLockDenied_encode (r : LockDenied) (fl : RangeLock) (rest : List Byte) :
    decodeLockDenied (some fl) (r.encode ++ rest) = .ok (some r.lock, rest) := by
  let name := r.owner ++ (replicate (padded r.owner.length - r.owner.length) 0 ++ rest)
  let len := BitVec.ofNat 32 r.owner.length
  have hlen : len.toNat = r.owner.length := BitVec.toNat_ofNat _ _ ▸ Nat.mod_eq_of_lt (by have := r.owner_le; omega)
  have hsplit : r.encode ++ rest = bytes64 r.offset ++ (bytes64 r.length ++ (bytes32 r.locktype ++ (bytes64 r.clientid ++
      (bytes32 len ++ name)))) := by
    simp only [LockDenied.encode, append_assoc, name, len]
  have hlength : hyper (r.encode ++ rest) 2 = r.length := by
    rw [hsplit]
    exact hyper_append rfl
  have htype : word (r.encode ++ rest) 4 = r.locktype := by
    rw [hsplit, ← append_assoc]
    exact word_append rfl
  have hname : word (r.encode ++ rest) 7 = len := by
    rw [hsplit, ← append_assoc, ← append_assoc, ← append_assoc]
    exact word_append rfl
  have hpad : (r.owner ++ replicate (padded r.owner.length - r.owner.length) 0).length = padded len.toNat := by
    rw [hlen, length_append, length_replicate]
    unfold padded
    omega
  have hrest : inlineDecode len.toNat Errno.eio.code name = .ok (name, rest) := by
    simp only [name, ← append_assoc]
    exact inlineDecode_append hpad
  have hview : inlineDecode 32 Errno.eio.code (r.encode ++ rest) = .ok (r.encode ++ rest, name) := by
    rw [hsplit]
    exact @inlineDecode_append name
      (bytes64 r.offset ++ bytes64 r.length ++ bytes32 r.locktype ++ bytes64 r.clientid ++ bytes32 len) 32 _ rfl
  unfold decodeLockDenied
  rw [bind_of_ok hview, hlength, htype, hname, hsplit, hyper_bytes64_append, bind_of_ok hrest]
  rfl

theorem toInt_cases (w : U64) : w.toNat < 2 ^ 63 ∧ w.toInt = w.toNat ∨ 2 ^ 63 ≤ w.toNat ∧ w.toInt = w.toNat - 2 ^ 64 := by
  rw [BitVec.toInt_eq_toNat_cond]
  split <;> omega

theorem matches_lock_iff (hr : r.Legal) : r.lock.Matches r ↔
    r.offset.toNat < 2 ^ 63 ∧ (r.length = BitVec.allOnes 64 ∨ r.offset.toNat + r.length.toNat ≤ 2 ^ 63) := by
  have hstart := toInt_cases r.offset
  have hflStart : r.lock.flStart = r.offset := rfl
  simp only [RangeLock.Matches, RangeLock.Valid, LockDenied.HasByte, hflStart]
  by_cases hopen : r.length = BitVec.allOnes 64
  · have hend : r.lock.flEnd = offsetMax := if_pos hopen
    have hmax : offsetMax.toInt = 2 ^ 63 - 1 := by decide
    simp only [hend, hmax, hopen, true_or, and_true]
    constructor
    · omega
    · intro hlt
      exact ⟨⟨by omega, by omega⟩, fun _ n => by omega⟩
  · obtain ⟨hpos, hle⟩ := hr.resolve_left hopen
    have hflEnd : r.lock.flEnd = r.offset + r.length - 1 := if_neg hopen
    have hend : r.lock.flEnd.toNat = r.offset.toNat + r.length.toNat - 1 := by
      bv_omega
    have hend' := toInt_cases r.lock.flEnd
    simp only [hopen, false_or]
    constructor
    · omega
    · rintro ⟨hlt, hbelow⟩
      exact ⟨⟨by omega, by omega⟩, fun _ n => by omega⟩

/-! ### Ranges of the client -/

/-- The word at which the range starts. -/
def LockCall.rangeAt : LockCall → Nat
  | lock .. => 3
  | lockt .. => 2
  | locku .. => 7

theorem hyper_encode (call : LockCall) : hyper call.encode call.rangeAt = call.fl.flStart ∧
    hyper call.encode (call.rangeAt + 2) = call.fl.nfs4LockLength := by
  -- the offset follows the words in front of it, and the length the offset
  have hread : ∀ (pre tail : List Byte) (x y : U64) (i : Nat), pre.length = 4 * i →
      hyper (pre ++ (bytes64 x ++ (bytes64 y ++ tail))) i = x ∧
      hyper (pre ++ (bytes64 x ++ (bytes64 y ++ tail))) (i + 2) = y := by
    intro pre tail x y i hpre
    refine ⟨hyper_append hpre, ?_⟩
    rw [← append_assoc]
    exact hyper_append (by rw [length_append, hpre, length_bytes64]; omega)
  cases call with
  | lock fl block reclaim locker => exact hread (bytes32 12 ++ (bytes32 _ ++ bytes32 _)) _ _ _ 3 rfl
  | lockt fl lockOwner => exact hread (bytes32 13 ++ bytes32 _) _ _ _ 2 rfl
  | locku fl seqid stateid =>
    have hpre : (bytes32 14 ++ (bytes32 (fl.nfs4LockType false) ++ (encodeNfs4Seqid seqid ++ stateid.toList))).length = 4 * 7 := by
      simp [encodeNfs4Seqid]
    have h := hread _ [] fl.flStart fl.nfs4LockLength 7 hpre
    exact h

theorem lock_of_valid (hfl : fl.Valid) (hoff : r.offset = fl.flStart) (hlength : r.length = fl.nfs4LockLength) :
    r.lock.flStart = fl.flStart ∧ r.lock.flEnd = fl.flEnd := by
  refine ⟨hoff, ?_⟩
  have hstart := toInt_cases fl.flStart
  have hend := toInt_cases fl.flEnd
  unfold RangeLock.Valid at hfl
  unfold RangeLock.nfs4LockLength at hlength
  split at hlength
  next hmax => exact (if_pos hlength).trans hmax.symm
  next hmax =>
    have hne : r.length ≠ BitVec.allOnes 64 := by
      intro hall
      have hall := congrArg BitVec.toNat hall
      rw [BitVec.toNat_allOnes] at hall
      bv_omega
    refine (if_neg hne).trans ?_
    bv_omega

/-- Ranges of calls come back. A reported one is taken over exactly if it starts below `2 ^ 63`, and ends there or is
    open. -/
theorem lock_range_survives_iff (denied : RangeLock) (rest : List Byte) :
    (∀ call : LockCall, call.fl.Valid → ∀ r : LockDenied, r.offset = hyper call.encode call.rangeAt →
      r.length = hyper call.encode (call.rangeAt + 2) →
        ∃ fl, decodeLockDenied (some denied) (r.encode ++ rest) = .ok (some fl, rest) ∧
          fl.flStart = call.fl.flStart ∧ fl.flEnd = call.fl.flEnd) ∧
    ∀ r : LockDenied, r.Legal → ((∃ fl, decodeLockDenied (some denied) (r.encode ++ rest) = .ok (some fl, rest) ∧ fl.Matches r) ↔
      r.offset.toNat < 2 ^ 63 ∧ (r.length = BitVec.allOnes 64 ∨ r.offset.toNat + r.length.toNat ≤ 2 ^ 63)) := by
  refine ⟨fun call hfl r hoff hlength => ?_, fun r hr => ?_⟩
  · obtain ⟨hstart, hend⟩ := hyper_encode call
    exact ⟨r.lock, decodeLockDenied_encode r denied rest, lock_of_valid hfl (hoff.trans hstart) (hlength.trans hend)⟩
  · rw [← matches_lock_iff hr, decodeLockDenied_encode]
    constructor
    · rintro ⟨fl, hfl, hmatch⟩
      cases hfl
      exact hmatch
    · exact fun hmatch => ⟨r.lock, rfl, hmatch⟩

/-- Bytes 1 to `2 ^ 63` are locked: the end is negative. -/
theorem lock_range_negative : ∃ r : LockDenied, r.Legal ∧ r.HasByte 1 ∧
    ∃ fl, decodeLockDenied (some ⟨0, 0, .wrlck, 0⟩) r.encode = .ok (some fl, []) ∧ fl.flEnd.toInt < 0 := by
  let r : LockDenied := ⟨1, 0x8000000000000000, 2, 0, [], Nat.zero_le _⟩
  have hdecode := decodeLockDenied_encode r ⟨0, 0, .wrlck, 0⟩ []
  rw [append_nil] at hdecode
  exact ⟨r, .inr (by decide), ⟨by decide, .inr (by decide)⟩, _, hdecode, by decide⟩

end Mynfs
