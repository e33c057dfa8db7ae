import Mynfs.Callback.Xdr

/-! Bitmaps in callbacks are exact only if at least three words are announced and their bytes do not overflow. -/

namespace Mynfs
open Xdr List

section
variable (input : List Byte)

def announced : Nat := (word input 0).toNat

def announcedBitmap : Bitmap where
  word0 := if 0 < announced input then word (input.drop 4) 0 else 0
  word1 := if 1 < announced input then word (input.drop 4) 1 else 0
  word2 := if 2 < announced input then word (input.drop 4) 2 else 0

/-- Whatever the array held, decoding fails, or consumes the count and the announced words, which make the result. -/
def BitmapExact : Prop :=
  ∀ bitmap, (∃ err, decodeBitmap bitmap input = .error err) ∨
    (4 + 4 * announced input ≤ input.length ∧
      decodeBitmap bitmap input = .ok (announcedBitmap input, input.drop (4 + 4 * announced input)))

def CountFits : Prop :=
  input.length < 4 + 4 * (announced input % 2 ^ 30) ∨ (3 ≤ announced input ∧ announced input < 2 ^ 30)

end

theorem toNat_shiftLeft_two (n : U32) : (n <<< 2).toNat = 4 * (n.toNat % 2 ^ 30) := by
  rw [BitVec.toNat_shiftLeft, Nat.shiftLeft_eq]
  omega

theorem decodeBitmap_eq (bitmap : Bitmap) (input : List Byte) : decodeBitmap bitmap input =
    if 4 + 4 * (announced input % 2 ^ 30) ≤ input.length then
      .ok ({ word0 := if 0 < announced input then word (input.drop 4) 0 else bitmap.word0
             word1 := if 1 < announced input then word (input.drop 4) 1 else bitmap.word1
             word2 := if 2 < announced input then word (input.drop 4) 2 else bitmap.word2 },
        input.drop (4 + 4 * (announced input % 2 ^ 30)))
    else .error Nfs4err.resource := by
  have hpad : padded (word input 0 <<< 2).toNat = 4 * (announced input % 2 ^ 30) := by
    rw [toNat_shiftLeft_two]
    exact padded_of_dvd ⟨_, rfl⟩
  have hfour : padded 4 = 4 := rfl
  have hlt : ∀ k : Nat, k < 3 → ((BitVec.ofNat 32 k < word input 0) ↔ k < announced input) := by
    intro k hk
    rw [BitVec.lt_def, BitVec.toNat_ofNat, announced]
    omega
  unfold decodeBitmap
  rw [inlineDecode_bind, hfour]
  by_cases hshort : 4 ≤ input.length
  · rw [if_pos hshort, inlineDecode_bind, hpad, length_drop, drop_drop]
    by_cases hlong : 4 + 4 * (announced input % 2 ^ 30) ≤ input.length
    · rw [if_pos (by omega), if_pos hlong]
      rfl
    · rw [if_neg (by omega), if_neg hlong]
  · rw [if_neg hshort, if_neg (by omega)]

theorem bitmapExact_iff (input : List Byte) : BitmapExact input ↔ CountFits input := by
  constructor
  · intro hexact
    by_contra hfits
    simp only [CountFits, not_or, not_and, not_lt] at hfits
    obtain ⟨hlong, hcount⟩ := hfits
    rcases hexact ⟨1, 1, 1⟩ with ⟨err, herr⟩ | ⟨hle, hok⟩
    · rw [decodeBitmap_eq, if_pos hlong] at herr
      cases herr
    · rw [decodeBitmap_eq, if_pos hlong] at hok
      simp only [Except.ok.injEq, Prod.mk.injEq] at hok
      obtain ⟨hbitmap, hrest⟩ := hok
      by_cases hthree : 3 ≤ announced input
      · -- the count wraps around, and too few bytes are consumed
        have hlen := congrArg length hrest
        rw [length_drop, length_drop] at hlen
        omega
      · -- the last word is what the array held
        have hword := congrArg Bitmap.word2 hbitmap
        simp only [announcedBitmap, if_neg (by omega : ¬2 < announced input)] at hword
        exact absurd hword (by decide)
  · rintro (hshort | ⟨hthree, hlt⟩) bitmap
    · exact .inl ⟨_, by rw [decodeBitmap_eq, if_neg (by omega)]⟩
    · rw [decodeBitmap_eq, Nat.mod_eq_of_lt hlt]
      by_cases hlong : 4 + 4 * announced input ≤ input.length
      · refine Or.inr ⟨hlong, ?_⟩
        rw [if_pos hlong]
        simp only [announcedBitmap, if_pos (by omega : 0 < announced input), if_pos (by omega : 1 < announced input),
          if_pos (by omega : 2 < announced input)]
      · exact .inl ⟨_, if_neg hlong⟩

variable {bitmap b : Bitmap} {rest input : List Byte} {fh : NfsFh}

theorem reads_decodeBitmap {pre : List Byte} (hfits : CountFits (pre ++ rest))
    (h : decodeBitmap bitmap (pre ++ rest) = .ok (b, rest)) (bitmap' : Bitmap) : Reads (decodeBitmap bitmap') pre b := by
  rw [decodeBitmap_eq] at h
  split at h
  next hlong =>
    obtain ⟨hthree, hlt⟩ := hfits.resolve_left (by omega)
    simp only [Except.ok.injEq, Prod.mk.injEq] at h
    obtain ⟨rfl, hrest⟩ := h
    have hpre : pre.length = 4 + 4 * announced (pre ++ rest) := by
      have hlen := congrArg length hrest
      rw [length_drop] at hlen
      rw [length_append] at hlong hlen
      omega
    intro rest'
    have hcount : ∀ tail, announced (pre ++ tail) = announced pre := fun tail => by
      unfold announced
      rw [word_append_left (by omega)]
    have hword : ∀ i < 3, ∀ tail, word ((pre ++ tail).drop 4) i = word (pre.drop 4) i := fun i hi tail => by
      rw [drop_append_of_le_length (by omega), word_append_left (by rw [length_drop]; omega)]
    rw [hcount] at hpre hthree hlt
    rw [decodeBitmap_eq]
    simp only [hcount, hword 0 (by decide), hword 1 (by decide), hword 2 (by decide), Nat.mod_eq_of_lt hlt, ← hpre,
      length_append, Nat.le_add_right, if_true, drop_left, if_pos (by omega : 0 < announced pre),
      if_pos (by omega : 1 < announced pre), if_pos (by omega : 2 < announced pre)]
  · cases h

theorem reads_decodeFh (h : decodeFh input = .ok (fh, rest)) : ∃ pre, input = pre ++ rest ∧ Reads decodeFh pre fh := by
  unfold decodeFh at h
  rw [inlineDecode_bind] at h
  split at h
  next hfour =>
    have hpad : padded 4 = 4 := rfl
    rw [hpad] at h hfour
    rw [require_bind] at h
    split at h
    next hsize =>
      rw [inlineDecode_bind] at h
      split at h
      next hlong =>
        cases Except.ok.inj h
        generalize hs : (word input 0).setWidth 16 = size at hsize hlong
        rw [length_drop] at hlong
        have hle : size.toNat ≤ padded size.toNat := by unfold padded; omega
        have hword : word (input.take 4) 0 = word input 0 := word_take (by decide)
        refine ⟨input.take 4 ++ (input.drop 4).take (padded size.toNat), ?_, ?_⟩
        · rw [append_assoc, take_append_drop, take_append_drop]
        · refine reads_inlineDecode_bind (by rw [length_take, hpad]; omega) fun tail => ?_
          rw [word_append_left (by rw [length_take]; omega), hword, hs]
          refine reads_require_bind hsize ?_
          rw [← append_nil ((input.drop 4).take (padded size.toNat))]
          refine reads_inlineDecode_bind (by rw [length_take, length_drop]; omega) fun tail => ?_
          rw [take_append_of_le_length (by rw [length_take, length_drop]; omega), take_take, Nat.min_eq_left hle]
          exact reads_pure _
      · cases h
    · cases h
  · cases h

theorem length_le_of_decodeBitmap (h : decodeBitmap bitmap input = .ok (b, rest)) : rest.length ≤ input.length := by
  rw [decodeBitmap_eq] at h
  split at h
  · cases Except.ok.inj h
    simp
  · cases h

theorem determinedAt_decodeRecallanyArgs (hfits : CountFits (input.drop 4)) : DeterminedAt decodeRecallanyArgs input := by
  refine determinedAt_of_reads fun env pre rest x hinput h env' => ?_
  unfold decodeRecallanyArgs at h
  rw [inlineDecode_bind] at h
  split at h
  next hfour =>
    rw [show padded 4 = 4 from rfl] at h hfour
    obtain ⟨b, mid, hb, hx⟩ := bind_eq_ok h
    obtain ⟨rfl, rfl⟩ := Prod.mk.inj (Except.ok.inj hx)
    have hlen := length_le_of_decodeBitmap hb
    obtain ⟨obj, pre, hobj, rfl⟩ : ∃ obj pre', obj.length = 4 ∧ pre = obj ++ pre' := by
      rw [length_drop, hinput, length_append] at hlen
      rw [hinput, length_append] at hfour
      exact ⟨pre.take 4, pre.drop 4, by rw [length_take]; omega, (take_append_drop 4 pre).symm⟩
    subst hinput
    have hdrop : (obj ++ pre ++ mid).drop 4 = pre ++ mid := by rw [append_assoc, ← hobj, drop_left]
    rw [hdrop] at hb hfits
    have hword : ∀ tail, word (obj ++ tail) 0 = word obj 0 := fun tail => word_append_left (by omega)
    rw [append_assoc, hword]
    refine reads_inlineDecode_bind hobj fun tail => ?_
    rw [hword]
    have hboth : Reads (decodeBitmap env'.stack >>= fun bitmap => pure (CbArgs.recallany (word obj 0) bitmap.word0))
        (pre ++ []) (.recallany (word obj 0) b.word0) :=
      (reads_decodeBitmap hfits hb env'.stack).bind (reads_pure _)
    rw [append_nil] at hboth
    exact hboth
  · cases h

theorem determinedAt_decodeGetattrArgs {mid : List Byte} (hfh : decodeFh input = .ok (fh, mid))
    (hfits : CountFits mid) : DeterminedAt decodeGetattrArgs input := by
  refine determinedAt_of_reads fun env pre rest x hinput h env' => ?_
  obtain ⟨fh', mid', hfh', h⟩ := bind_eq_ok h
  cases Except.ok.inj (hfh.symm.trans hfh')
  obtain ⟨b, mid', hb, hx⟩ := bind_eq_ok h
  obtain ⟨rfl, rfl⟩ := Prod.mk.inj (Except.ok.inj hx)
  obtain ⟨prefh, hsplit, hreads⟩ := reads_decodeFh hfh
  have hlen := length_le_of_decodeBitmap hb
  -- what is consumed is the file handle and then the bitmap
  have hle : prefh.length ≤ pre.length := by
    have := congrArg length (hinput.symm.trans hsplit)
    rw [length_append, length_append] at this
    omega
  obtain ⟨prebm, rfl⟩ : prefh <+: pre := prefix_of_prefix_length_le ⟨mid, hsplit.symm⟩ ⟨mid', hinput.symm⟩ hle
  have hmid : mid = prebm ++ mid' := by
    rw [hinput, append_assoc] at hsplit
    exact (append_cancel_left hsplit).symm
  subst hmid
  have hbitmap : Reads (decodeBitmap env'.argp >>= fun bitmap => pure (CbArgs.getattr fh bitmap)) (prebm ++ [])
      (.getattr fh b) := (reads_decodeBitmap hfits hb env'.argp).bind (reads_pure _)
  rw [append_nil] at hbitmap
  exact hreads.bind hbitmap

/-- With these counts, and no others, the bitmap is exact, also in CB_RECALL_ANY and CB_GETATTR. -/
theorem callback_bitmaps_exact_iff (input : List Byte) : (BitmapExact input ↔ CountFits input) ∧
    (BitmapExact (input.drop 4) ∧ DeterminedAt decodeRecallanyArgs input ↔ CountFits (input.drop 4)) ∧
    ∀ fh mid, decodeFh input = .ok (fh, mid) →
      (BitmapExact mid ∧ DeterminedAt decodeGetattrArgs input ↔ CountFits mid) := by
  refine ⟨bitmapExact_iff input, ?_, fun fh mid hfh => ?_⟩
  · rw [bitmapExact_iff]
    exact ⟨And.left, fun hfits => ⟨hfits, determinedAt_decodeRecallanyArgs hfits⟩⟩
  · rw [bitmapExact_iff]
    exact ⟨And.left, fun hfits => ⟨hfits, determinedAt_decodeGetattrArgs hfh hfits⟩⟩

/-- `2 ^ 30` words consume none; no words give what the stack held; a word not announced is an earlier one's. -/
theorem callback_bitmaps_leak :
    let env := fun stack argp => (⟨fun _ => true, stack, argp, ⟨1, 0⟩, 64⟩ : DecodeEnv)
    decodeBitmap {} (bytes32 0x40000000 ++ bytes32 7) = .ok (⟨7, 0, 0⟩, bytes32 7) ∧
    decodeRecallanyArgs (env ⟨1, 0, 0⟩ {}) (bytes32 5 ++ bytes32 0) = .ok (.recallany 5 1, []) ∧
    decodeRecallanyArgs (env ⟨2, 0, 0⟩ {}) (bytes32 5 ++ bytes32 0) = .ok (.recallany 5 2, []) ∧
    decodeGetattrArgs (env {} ⟨0, 9, 0⟩) (bytes32 0 ++ bytes32 1 ++ bytes32 24) =
      .ok (.getattr ⟨0, []⟩ ⟨24, 9, 0⟩, []) := by
  decide

end Mynfs
