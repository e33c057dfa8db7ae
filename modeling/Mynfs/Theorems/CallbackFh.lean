import Mynfs.Callback.Xdr

/-! `decode_fh` cuts the length to 16 bits before comparing it with NFS_FHSIZE. -/

namespace Mynfs
open Xdr List

/-- The callback arguments that hold a handle and, but for CB_RECALL, more after it. -/
inductive FhArgs
  | cbGetattr
  | cbRecall
  | cbLayoutrecallFile

namespace FhArgs

def op : FhArgs → CbBodyOp
  | .cbGetattr => .getattr
  | .cbRecall => .recall
  | .cbLayoutrecallFile => .layoutrecall

/-- Where the length of the handle stands. -/
def offset : FhArgs → Nat
  | .cbGetattr => 0
  | .cbRecall => 20
  | .cbLayoutrecallFile => 16

/-- The recall type of CB_LAYOUTRECALL is that of a file. -/
def Selected : FhArgs → List Byte → Prop
  | .cbLayoutrecallFile, input => word input 3 = 1
  | _, _ => True

/-- The arguments have the handle `fh`, and what comes after it was decoded from `next`. -/
def Follows (env : DecodeEnv) (fh : NfsFh) (next : List Byte) (args : CbArgs) (rest : List Byte) : FhArgs → Prop
  | .cbGetattr => ∃ bitmap, args = .getattr fh bitmap ∧ decodeBitmap env.argp next = .ok (bitmap, rest)
  | .cbRecall => (∃ stateid truncate, args = .recall stateid truncate fh) ∧ rest = next
  | .cbLayoutrecallFile => ∃ layoutType layoutchanged iomode stateid,
      args = .layoutrecall layoutType layoutchanged (.file fh ⟨iomode, hyper next 0, hyper next 2⟩ stateid) ∧
        16 ≤ next.length ∧ decodeStateid .layout (next.drop 16) = .ok (stateid, rest)

end FhArgs

/-- The handle at the front of a view as the sender wrote it, and what follows its padding. -/
def wireFh (view : List Byte) : NfsFh := ⟨(word view 0).setWidth 16, (view.drop 4).take (word view 0).toNat⟩
def afterFh (view : List Byte) : List Byte := view.drop (4 + padded (word view 0).toNat)

/-- Arguments are decoded only with a length within NFS_FHSIZE and a whole handle, and the later fields from behind it. -/
def HandleExact (env : DecodeEnv) (a : FhArgs) (l : U32) : Prop :=
  ∀ input args rest, word (input.drop a.offset) 0 = l → a.Selected input →
    decodeArgs env a.op input = .ok (args, rest) →
    l.toNat ≤ 128 ∧ 4 + l.toNat ≤ (input.drop a.offset).length ∧
      a.Follows env (wireFh (input.drop a.offset)) (afterFh (input.drop a.offset)) args rest

variable {env : DecodeEnv} {a : FhArgs} {input view rest mid : List Byte} {fh : NfsFh} {args : CbArgs} {l : U32}

theorem decodeFh_eq_ok_iff : decodeFh view = .ok (fh, mid) ↔ ((word view 0).setWidth 16 : BitVec 16).toNat ≤ 128 ∧
      4 + padded ((word view 0).setWidth 16 : BitVec 16).toNat ≤ view.length ∧
      fh = ⟨(word view 0).setWidth 16, (view.drop 4).take ((word view 0).setWidth 16 : BitVec 16).toNat⟩ ∧
      mid = view.drop (4 + padded ((word view 0).setWidth 16 : BitVec 16).toNat) := by
  unfold decodeFh
  rw [inlineDecode_bind, show padded 4 = 4 from rfl]
  simp only [require_bind, inlineDecode_bind, length_drop, drop_drop, decide_eq_true_eq, BitVec.le_def]
  rw [show (128 : BitVec 16).toNat = 128 from rfl]
  constructor
  · intro h
    split_ifs at h
    cases Except.ok.inj h
    exact ⟨by omega, by omega, rfl, rfl⟩
  · rintro ⟨hsize, hlong, rfl, rfl⟩
    rw [if_pos (by omega), if_pos hsize, if_pos (by omega)]
    rfl

/-- The three decoders around `decode_fh`. -/
theorem decodeArgs_handle (hsel : a.Selected input) (h : decodeArgs env a.op input = .ok (args, rest)) :
    ∃ fh mid, decodeFh (input.drop a.offset) = .ok (fh, mid) ∧ a.Follows env fh mid args rest := by
  cases a with
  | cbGetattr =>
    obtain ⟨fh, mid, hfh, h⟩ := bind_eq_ok h
    obtain ⟨bitmap, mid', hbitmap, h⟩ := bind_eq_ok h
    cases Except.ok.inj h
    exact ⟨fh, mid, hfh, bitmap, rfl, hbitmap⟩
  | cbRecall =>
    obtain ⟨stateid, mid, hsid, h⟩ := bind_eq_ok h
    have hmid : mid = input.drop 16 := by
      unfold decodeStateid at hsid
      rw [inlineDecode_bind] at hsid
      split at hsid
      · cases Except.ok.inj hsid
        rfl
      · cases hsid
    subst hmid
    rw [inlineDecode_bind] at h
    split at h
    · rw [drop_drop] at h
      obtain ⟨fh, mid, hfh, h⟩ := bind_eq_ok h
      cases Except.ok.inj h
      exact ⟨fh, rest, hfh, ⟨stateid, _, rfl⟩, rfl⟩
    · cases h
  | cbLayoutrecallFile =>
    have hfile : word input 3 = 1 := hsel
    have h : decodeLayoutrecallArgs input = .ok (args, rest) := h
    unfold decodeLayoutrecallArgs at h
    rw [inlineDecode_bind, if_pos hfile] at h
    split at h
    · obtain ⟨fh, mid, hfh, h⟩ := bind_eq_ok h
      rw [inlineDecode_bind] at h
      split at h
      · next hlong =>
        obtain ⟨stateid, last, hsid, h⟩ := bind_eq_ok h
        cases Except.ok.inj h
        exact ⟨fh, mid, hfh, _, _, _, stateid, rfl, hlong, hsid⟩
      · cases h
    · cases h

theorem handleExact_of_fits (h : l.toNat ≤ 128 ∨ 128 < l.toNat % 2 ^ 16) : HandleExact env a l := by
  rintro input args rest hl hsel hok
  obtain ⟨fh, mid, hfh, hfollows⟩ := decodeArgs_handle hsel hok
  obtain ⟨hsize, hlong, rfl, rfl⟩ := decodeFh_eq_ok_iff.mp hfh
  rw [hl, BitVec.toNat_setWidth] at hsize hlong
  rcases h with hle | hgt
  · have hmod : l.toNat % 2 ^ 16 = l.toNat := Nat.mod_eq_of_lt (by omega)
    rw [hl, BitVec.toNat_setWidth, hmod] at hfollows
    refine ⟨hle, ?_, ?_⟩
    · unfold padded at hlong
      omega
    · unfold wireFh afterFh
      rw [hl]
      exact hfollows
  · omega

/-- Zeros up to the length of the handle, which select a file. -/
def FhArgs.front : FhArgs → List Byte
  | .cbGetattr => []
  | .cbRecall => replicate 16 0 ++ bytes32 0
  | .cbLayoutrecallFile => replicate 12 0 ++ bytes32 1

variable (a view)

theorem drop_front : (a.front ++ view).drop a.offset = view := by
  cases a <;> rfl

theorem selected_front : a.Selected (a.front ++ view) := by
  cases a <;> trivial

variable {a view}

theorem decodeFh_zeros (h : l.toNat % 2 ^ 16 ≤ 128) :
    ∃ fh n, decodeFh (bytes32 l ++ replicate 192 0) = .ok (fh, replicate (n + 32) 0) := by
  have hpad : padded (l.toNat % 2 ^ 16) ≤ 128 := by unfold padded; omega
  refine ⟨_, 160 - padded (l.toNat % 2 ^ 16), decodeFh_eq_ok_iff.mpr ⟨?_, ?_, rfl, ?_⟩⟩ <;>
    rw [word_bytes32_append, BitVec.toNat_setWidth]
  · exact h
  · rw [length_append, length_bytes32, length_replicate]
    omega
  · rw [drop_append, drop_eq_nil_of_le (by rw [length_bytes32]; omega), drop_replicate, length_bytes32, nil_append]
    exact congrArg (replicate · 0) (by omega)

/-- Zeros after the handle are a bitmap without words, or an empty range and a stateid. -/
theorem decodeArgs_zeros (env : DecodeEnv) {n : Nat} (hfh : decodeFh view = .ok (fh, replicate (n + 32) 0)) :
    ∃ args rest, decodeArgs env a.op (a.front ++ view) = .ok (args, rest) := by
  have hlong : ∀ k ≤ 32, k ≤ (replicate (n + 32) (0 : Byte)).length := fun k hk => by
    rw [length_replicate]
    omega
  cases a with
  | cbGetattr =>
    have hbitmap : ∃ bitmap rest, decodeBitmap env.argp (replicate (n + 32) 0) = .ok (bitmap, rest) := by
      unfold decodeBitmap
      rw [inlineDecode_bind, if_pos (hlong _ (by decide)), inlineDecode_bind,
        show word (replicate (n + 32) 0) 0 = 0 from rfl, show padded ((0 : U32) <<< 2).toNat = 0 from rfl,
        if_pos (Nat.zero_le _)]
      exact ⟨_, _, rfl⟩
    obtain ⟨bitmap, rest, hbitmap⟩ := hbitmap
    exact ⟨_, _, (bind_of_ok hfh).trans (bind_of_ok hbitmap)⟩
  | cbRecall =>
    show ∃ args rest, decodeRecallArgs (replicate 16 0 ++ bytes32 0 ++ view) = .ok (args, rest)
    unfold decodeRecallArgs decodeStateid
    rw [bind_assoc, append_assoc, inlineDecode_bind_append _ rfl, pure_bind, inlineDecode_bind_append _ rfl, bind_of_ok hfh]
    exact ⟨_, _, rfl⟩
  | cbLayoutrecallFile =>
    show ∃ args rest, decodeLayoutrecallArgs (replicate 12 0 ++ bytes32 1 ++ view) = .ok (args, rest)
    unfold decodeLayoutrecallArgs decodeStateid
    rw [inlineDecode_bind_append _ rfl, if_pos (by rfl), bind_of_ok hfh, inlineDecode_bind, if_pos (hlong _ (by decide)),
      bind_assoc, inlineDecode_bind, drop_replicate, length_replicate, if_pos (by unfold padded; omega)]
    exact ⟨_, _, rfl⟩

/-- The handle is exact with lengths up to 128 and with those whose low 16 bits are larger. -/
theorem callback_fh_exact_iff (env : DecodeEnv) (a : FhArgs) (l : U32) :
    HandleExact env a l ↔ l.toNat ≤ 128 ∨ 128 < l.toNat % 2 ^ 16 := by
  refine ⟨fun h => ?_, handleExact_of_fits⟩
  by_contra hout
  obtain ⟨hlarge, hlow⟩ := not_or.mp hout
  obtain ⟨fh, n, hfh⟩ := decodeFh_zeros (l := l) (by omega)
  obtain ⟨args, rest, hok⟩ := decodeArgs_zeros (a := a) env hfh
  have hl : word ((a.front ++ (bytes32 l ++ replicate 192 0)).drop a.offset) 0 = l := by
    rw [drop_front, word_bytes32_append]
  exact hlarge (h _ args rest hl (selected_front a _) hok).1

/-- A handle of 65540 bytes is taken for one of four, and the bitmap is read from inside it. -/
theorem callback_fh_narrowed :
    decodeArgs ⟨fun _ => true, {}, {}, ⟨1, 0⟩, 64⟩ .getattr (bytes32 65540 ++ (bytes32 7 ++ (bytes32 1 ++ bytes32 24))) =
      .ok (.getattr ⟨4, bytes32 7⟩ ⟨24, 0, 0⟩, []) := by
  decide

end Mynfs
