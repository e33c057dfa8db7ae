import Mynfs.ReadPlus

/-! What a READ_PLUS reply leaves in the pages: each segment is one piece that is moved or filled. -/

namespace Mynfs

open Xdr Moves List
open BitVec (le_def ofNat toNat_add toNat_ofNat toNat_setWidth toNat_sub_of_le)
open Nat (le_of_not_lt mod_eq_of_lt)

/-! ### Segments as the server means them -/

/-- A part of a file, data or a hole. -/
structure Extent where
  hole : Bool
  offset : Nat
  length : Nat
deriving DecidableEq

namespace Extent

section
variable (x : Extent)

def stop : Nat := x.offset + x.length

def payload (file : Nat → Byte) (x : Extent) : List Byte :=
  (range x.length).map (fun i => file (x.offset + i)) ++ replicate (padded x.length - x.length) 0

def encode (file : Nat → Byte) (x : Extent) : List Byte :=
  if x.hole then bytes32 nfs4ContentHole ++ (bytes64 (.ofNat 64 x.offset) ++ bytes64 (.ofNat 64 x.length))
  else bytes32 nfs4ContentData ++ (bytes64 (.ofNat 64 x.offset) ++ (bytes32 (.ofNat 32 x.length) ++ x.payload file))

def size : Nat := if x.hole then 20 else 16 + padded x.length

def decoded (start : Nat) : ReadPlusSegment :=
  ⟨.ofNat 64 x.offset, if x.hole then .hole (.ofNat 64 x.length) else .data (.ofNat 32 x.length) (.ofNat 32 start)⟩

def Fits : Prop := x.stop < 2 ^ 64 ∧ (x.hole = false → padded x.length < 2 ^ 32)

end

theorem le_padded (n : Nat) : n ≤ padded n := by
  unfold padded
  omega

theorem padded_padded (n : Nat) : padded (padded n) = padded n := by
  unfold padded
  omega

variable (file : Nat → Byte)

theorem length_payload (x : Extent) : (x.payload file).length = padded x.length := by
  have hle := le_padded x.length
  simp only [payload, length_append, length_map, length_range, length_replicate]
  omega

theorem length_encode (x : Extent) : (x.encode file).length = x.size := by
  unfold encode size
  split
  · rfl
  · simp only [length_append, length_bytes32, length_bytes64, length_payload]
    omega

theorem getD_encode {x : Extent} (hdata : x.hole = false) (rest : List Byte) {i : Nat}
    (hi : i < x.length) : (x.encode file ++ rest).getD (16 + i) 0 = file (x.offset + i) := by
  have hsplit : x.encode file ++ rest
      = (bytes32 nfs4ContentData ++ bytes64 (.ofNat 64 x.offset) ++ bytes32 (.ofNat 32 x.length))
        ++ (x.payload file ++ rest) := by
    simp [encode, hdata, append_assoc]
  have hhdr : (bytes32 nfs4ContentData ++ bytes64 (.ofNat 64 x.offset) ++ bytes32 (.ofNat 32 x.length)).length = 16 :=
    rfl
  have hrange : i < ((range x.length).map (fun i => file (x.offset + i))).length := by simpa using hi
  rw [hsplit, getD_eq_getElem?_getD, getElem?_append_right (by omega), hhdr, Nat.add_sub_cancel_left, payload,
    append_assoc, getElem?_append_left hrange]
  simp [hi]

theorem decodeReadPlusSegment_encode {x : Extent} (h : x.Fits) (pos total : Nat) (rest : List Byte)
    (htotal : pos + x.size + rest.length = total) :
    decodeReadPlusSegment total (x.encode file ++ rest) = .ok (x.decoded (pos + 16), rest) := by
  obtain ⟨hole, offset, length⟩ := x
  obtain ⟨hstop, hsize⟩ := h
  cases hole with
  | true =>
    have hbody : bytes64 (.ofNat 64 offset) ++ (bytes64 (.ofNat 64 length) ++ rest) =
        (bytes64 (.ofNat 64 offset) ++ bytes64 (.ofNat 64 length)) ++ rest := (append_assoc ..).symm
    simp only [encode, if_true, append_assoc]
    unfold decodeReadPlusSegment
    rw [inlineDecode_bind_append (bytes32 nfs4ContentHole) rfl, word_bytes32_append, if_neg (by decide), hbody,
      inlineDecode_bind_append _ rfl, ← hbody, if_neg (by decide), if_pos rfl, hyper_bytes64_append, hyper_append rfl]
    rfl
  | false =>
    have hlt : padded length < 2 ^ 32 := hsize rfl
    have hle : length ≤ padded length := le_padded length
    have hpay : (payload file ⟨false, offset, length⟩).length = padded length := length_payload ..
    simp only [encode, Bool.false_eq_true, if_false, append_assoc]
    generalize payload file ⟨false, offset, length⟩ = pay at hpay
    have hbody : bytes64 (.ofNat 64 offset) ++ (bytes32 (.ofNat 32 length) ++ (pay ++ rest)) =
        (bytes64 (.ofNat 64 offset) ++ bytes32 (.ofNat 32 length)) ++ (pay ++ rest) := (append_assoc ..).symm
    have hnat : padded (ofNat 32 length).toNat % 2 ^ 32 = padded length := by
      rw [toNat_ofNat, mod_eq_of_lt (show length < 2 ^ 32 by omega), mod_eq_of_lt hlt]
    have hpos : total - (pay ++ rest).length = pos + 16 := by
      have hsz : size ⟨false, offset, length⟩ = 16 + padded length := rfl
      rw [length_append, hpay]
      omega
    unfold decodeReadPlusSegment
    rw [inlineDecode_bind_append (bytes32 nfs4ContentData) rfl, word_bytes32_append, if_pos rfl, hbody,
      inlineDecode_bind_append _ rfl, ← hbody, if_pos rfl, hyper_bytes64_append, word_append rfl, hnat]
    refine (bind_of_ok (show xdrStreamPos total (pay ++ rest) = .ok (_, _) from rfl)).trans ?_
    rw [inlineDecode_bind_append pay (hpay.trans (padded_padded length).symm), hpos]
    rfl

end Extent

/-! ### A reply -/

def locate : Nat → List Extent → List (Extent × Nat)
  | _, [] => []
  | pos, x :: xs => (x, pos + 16) :: locate (pos + x.size) xs

def encodeSegs (file : Nat → Byte) (xs : List Extent) : List Byte := xs.flatMap (Extent.encode file)

def sizeSegs (xs : List Extent) : Nat := (xs.map Extent.size).sum

theorem length_encodeSegs (file : Nat → Byte) (xs : List Extent) : (encodeSegs file xs).length = sizeSegs xs := by
  simp only [encodeSegs, sizeSegs, length_flatMap, Extent.length_encode]

/-- Decoding takes back the segments of a reply. -/
theorem decodeMany_encode (file : Nat → Byte) (rest : List Byte) (total : Nat) :
    ∀ (xs : List Extent) (pos : Nat), (∀ x ∈ xs, x.Fits) → pos + sizeSegs xs + rest.length = total →
      decodeMany (decodeReadPlusSegment total) xs.length (encodeSegs file xs ++ rest)
        = .ok ((locate pos xs).map fun x => x.1.decoded x.2, rest)
  | [], _, _, _ => rfl
  | x :: xs, pos, hfits, htotal => by
    have hsize : sizeSegs (x :: xs) = x.size + sizeSegs xs := sum_cons
    have hhead := Extent.decodeReadPlusSegment_encode file (hfits x mem_cons_self) pos total
      (encodeSegs file xs ++ rest) (by rw [length_append, length_encodeSegs]; omega)
    have htail := decodeMany_encode file rest total xs (pos + x.size) (fun y hy => hfits y (mem_cons_of_mem x hy)) (by omega)
    have happend : encodeSegs file (x :: xs) ++ rest = x.encode file ++ (encodeSegs file xs ++ rest) := by
      rw [encodeSegs, flatMap_cons, append_assoc, encodeSegs]
    rw [happend]
    exact (bind_of_ok hhead).trans ((bind_of_ok htail).trans rfl)

theorem getD_encodeSegs (file : Nat → Byte) (rest : List Byte) :
    ∀ (xs : List Extent) (pos : Nat) (before : List Byte), before.length = pos → ∀ x ∈ locate pos xs, x.1.hole = false →
      ∀ i < x.1.length, (before ++ (encodeSegs file xs ++ rest)).getD (x.2 + i) 0 = file (x.1.offset + i)
  | y :: ys, pos, before, hpos, x, hx, hdata, i, hi => by
    have happend : encodeSegs file (y :: ys) ++ rest = y.encode file ++ (encodeSegs file ys ++ rest) := by
      rw [encodeSegs, flatMap_cons, append_assoc, encodeSegs]
    rw [happend]
    rcases mem_cons.mp hx with rfl | hx
    · rw [getD_eq_getElem?_getD, getElem?_append_right (by omega), ← getD_eq_getElem?_getD,
        show pos + 16 + i - before.length = 16 + i by omega]
      exact Extent.getD_encode file hdata _ hi
    · rw [← append_assoc]
      refine getD_encodeSegs file rest ys (pos + y.size) (before ++ y.encode file) ?_ x hx hdata i hi
      rw [length_append, Extent.length_encode, hpos]

/-! ### The piece that a segment becomes -/

/-- The client's length of what it keeps of a segment, before it is cut to 32 bits. -/
def Extent.clipped (args : ReadArgs) (x : Extent) : Nat :=
  if x.stop < args.offset.toNat then 0
  else if args.offset.toNat + args.count.toNat < x.offset then 0
  else if x.offset < args.offset.toNat then x.stop - args.offset.toNat
  else if args.offset.toNat + args.count.toNat < x.stop then args.offset.toNat + args.count.toNat - x.offset
  else x.length

/-- The segment makes the client forget the end of the file. -/
def Extent.Cuts (args : ReadArgs) (x : Extent) : Prop :=
  args.offset.toNat ≤ x.offset ∧ args.offset.toNat + args.count.toNat < x.stop

instance (args : ReadArgs) (x : Extent) : Decidable (x.Cuts args) := inferInstanceAs (Decidable (_ ∧ _))

def piece (headLen : U32) (args : ReadArgs) (x : Extent × Nat) : Piece where
  src := if x.1.hole then none else some x.2
  pos := headLen.toNat + (max x.1.offset args.offset.toNat - args.offset.toNat)
  len := x.1.clipped args % 2 ^ 32

section
variable {headLen : U32} {args : ReadArgs}

theorem not_at_of_clipped_eq_zero {x : Extent × Nat} (h : x.1.clipped args = 0) (y : Nat) : ¬(piece headLen args x).At y := by
  rintro ⟨hlo, hhi⟩
  have hlen : (piece headLen args x).len = 0 := by
    show x.1.clipped args % 2 ^ 32 = 0
    rw [h, Nat.zero_mod]
  omega

theorem place_of_clipped_eq_zero {x : Extent × Nat} (h : x.1.clipped args = 0) (bytes : Nat → Byte) :
    (piece headLen args x).place 0 bytes = bytes := by
  funext y
  exact Piece.place_of_not_at 0 bytes (not_at_of_clipped_eq_zero h y)

theorem placeReadPlusSegment_decoded {x : Extent} {start : Nat} (hstart : start < 2 ^ 32) (offset length : U64)
    (s : ReadPlusState) (hlo : args.offset ≤ offset) (hpos : headLen.toNat + (offset.toNat - args.offset.toNat) < 2 ^ 32) :
    placeReadPlusSegment headLen args (x.decoded start) offset length s
      = { res := { s.res with count := s.res.count + length.setWidth 32 }
          bytes := Piece.place ⟨if x.hole then none else some start,
            headLen.toNat + (offset.toNat - args.offset.toNat), length.toNat % 2 ^ 32⟩ 0 s.bytes } := by
  have hbufpos : (headLen + (offset - args.offset).setWidth 32).toNat = headLen.toNat + (offset.toNat - args.offset.toNat) := by
    rw [toNat_add, toNat_setWidth, toNat_sub_of_le hlo]
    omega
  have hlen : (length.setWidth 32).toNat = length.toNat % 2 ^ 32 := toNat_setWidth ..
  have hsrc : (ofNat 32 start).toNat = start := mod_eq_of_lt hstart
  cases hhole : x.hole with
  | true =>
    simp only [placeReadPlusSegment, Extent.decoded, hhole, if_true, xdrStreamZero, hbufpos, hlen, Piece.place]
  | false =>
    simp only [placeReadPlusSegment, Extent.decoded, hhole, Bool.false_eq_true, if_false, xdrStreamMoveSubsegment,
      hbufpos, hlen, hsrc, Piece.place]

theorem toNat_readPlusSegmentLength {x : Extent} (h : x.Fits) (start : Nat) :
    (readPlusSegmentLength (x.decoded start)).toNat = x.length := by
  obtain ⟨hstop, hsize⟩ := h
  have hlt : x.length < 2 ^ 64 := Nat.lt_of_le_of_lt (Nat.le_add_left _ _) hstop
  cases hhole : x.hole with
  | true => simp only [readPlusSegmentLength, Extent.decoded, hhole, if_true, toNat_ofNat, mod_eq_of_lt hlt]
  | false =>
    have hle : x.length < 2 ^ 32 := Nat.lt_of_le_of_lt (Extent.le_padded _) (hsize hhole)
    simp only [readPlusSegmentLength, Extent.decoded, hhole, Bool.false_eq_true, if_false, toNat_setWidth,
      toNat_ofNat, mod_eq_of_lt hle, mod_eq_of_lt hlt]

theorem setWidth_eq_ofNat {w : U64} {n : Nat} (h : w.toNat = n) : w.setWidth 32 = ofNat 32 n := by
  rw [← h]
  rfl

theorem processReadPlusSegment_decoded {x : Extent} {start : Nat} (h : x.Fits) (hstart : start < 2 ^ 32)
    (htop : args.offset.toNat + args.count.toNat < 2 ^ 63) (hbuf : headLen.toNat + args.count.toNat < 2 ^ 32)
    (s : ReadPlusState) : processReadPlusSegment headLen args (x.decoded start) s
      = { res := { count := s.res.count + .ofNat 32 (x.clipped args), eof := if x.Cuts args then 0 else s.res.eof }
          bytes := (piece headLen args (x, start)).place 0 s.bytes } := by
  have hlength := toNat_readPlusSegmentLength h start
  have hstop : x.stop < 2 ^ 64 := h.1
  have hdef : x.stop = x.offset + x.length := rfl
  have hoff : (x.decoded start).offset.toNat = x.offset := mod_eq_of_lt (by omega)
  have hsum : ((x.decoded start).offset + readPlusSegmentLength (x.decoded start)).toNat = x.stop := by
    rw [toNat_add, hoff, hlength]
    exact mod_eq_of_lt hstop
  have htop' : (args.offset + args.count.setWidth 64).toNat = args.offset.toNat + args.count.toNat := by
    rw [toNat_add, toNat_setWidth]
    omega
  unfold processReadPlusSegment
  simp only [BitVec.lt_def, gt_iff_lt, hsum, htop', hoff]
  by_cases hbefore : x.stop < args.offset.toNat
  · have hclip : x.clipped args = 0 := if_pos hbefore
    have hcuts : ¬x.Cuts args := fun hc => by have := hc.1; omega
    rw [if_pos hbefore, place_of_clipped_eq_zero hclip, hclip, if_neg hcuts, BitVec.add_zero]
  rw [if_neg hbefore]
  by_cases hbehind : args.offset.toNat + args.count.toNat < x.offset
  · have hclip : x.clipped args = 0 := (if_neg hbefore).trans (if_pos hbehind)
    have hcuts : x.Cuts args := ⟨by omega, by omega⟩
    rw [if_pos hbehind, place_of_clipped_eq_zero hclip, hclip, if_pos hcuts, BitVec.add_zero]
  rw [if_neg hbehind]
  by_cases hacross : x.offset < args.offset.toNat
  · -- the beginning is cut off the length
    have hclip : x.clipped args = x.stop - args.offset.toNat :=
      (if_neg hbefore).trans ((if_neg hbehind).trans (if_pos hacross))
    have hcuts : ¬x.Cuts args := fun hc => by have := hc.1; omega
    have hdiff : (args.offset - (x.decoded start).offset).toNat = args.offset.toNat - x.offset := by
      rw [toNat_sub_of_le (le_def.mpr (by omega)), hoff]
    have hlen : (readPlusSegmentLength (x.decoded start) - (args.offset - (x.decoded start).offset)).toNat = x.clipped args := by
      rw [toNat_sub_of_le (le_def.mpr (by omega)), hdiff, hlength]
      omega
    rw [if_pos hacross, placeReadPlusSegment_decoded hstart _ _ s (BitVec.le_refl _) (by omega),
      setWidth_eq_ofNat hlen, hlen, if_neg hcuts, piece, Nat.sub_self, Nat.max_eq_right hacross.le, Nat.sub_self]
  rw [if_neg hacross]
  have hlo : args.offset ≤ (x.decoded start).offset := le_def.mpr (by omega)
  have hpos : headLen.toNat + ((x.decoded start).offset.toNat - args.offset.toNat) < 2 ^ 32 := by omega
  by_cases hend : args.offset.toNat + args.count.toNat < x.stop
  · -- the end is cut off
    have hclip : x.clipped args = args.offset.toNat + args.count.toNat - x.offset :=
      (if_neg hbefore).trans ((if_neg hbehind).trans ((if_neg hacross).trans (if_pos hend)))
    have hcuts : x.Cuts args := ⟨by omega, hend⟩
    have hlen : (args.offset + args.count.setWidth 64 - (x.decoded start).offset).toNat = x.clipped args := by
      rw [toNat_sub_of_le (le_def.mpr (by omega)), htop', hoff, hclip]
    rw [if_pos hend, placeReadPlusSegment_decoded hstart _ _ _ hlo hpos, setWidth_eq_ofNat hlen, hlen, if_pos hcuts,
      piece, hoff, Nat.max_eq_left (le_of_not_lt hacross)]
  · have hclip : x.clipped args = x.length :=
      (if_neg hbefore).trans ((if_neg hbehind).trans ((if_neg hacross).trans (if_neg hend)))
    have hcuts : ¬x.Cuts args := fun hc => hend hc.2
    have hlen := hlength.trans hclip.symm
    rw [if_neg hend, placeReadPlusSegment_decoded hstart _ _ _ hlo hpos, setWidth_eq_ofNat hlen, hlen, if_neg hcuts,
      piece, hoff, Nat.max_eq_left (le_of_not_lt hacross)]

theorem foldr_processReadPlusSegment (htop : args.offset.toNat + args.count.toNat < 2 ^ 63)
    (hbuf : headLen.toNat + args.count.toNat < 2 ^ 32) (s : ReadPlusState) :
    ∀ xs : List (Extent × Nat), (∀ x ∈ xs, x.1.Fits ∧ x.2 < 2 ^ 32) →
      (xs.map fun x => x.1.decoded x.2).foldr (processReadPlusSegment headLen args) s
        = { res := { count := s.res.count + .ofNat 32 (xs.map fun x => x.1.clipped args).sum
                     eof := if ∃ x ∈ xs, x.1.Cuts args then 0 else s.res.eof }
            bytes := placeAll 0 (xs.map (piece headLen args)) s.bytes }
  | [], _ => by simp [placeAll]
  | x :: xs, h => by
    obtain ⟨hfits, hstart⟩ := h x mem_cons_self
    rw [map_cons, foldr_cons,
      foldr_processReadPlusSegment htop hbuf s xs fun y hy => h y (mem_cons_of_mem x hy),
      processReadPlusSegment_decoded hfits hstart htop hbuf]
    have hcount : s.res.count + ofNat 32 (xs.map fun x => x.1.clipped args).sum + .ofNat 32 (x.1.clipped args)
        = s.res.count + .ofNat 32 ((x :: xs).map fun x => x.1.clipped args).sum := by
      rw [map_cons, sum_cons, BitVec.ofNat_add, BitVec.add_assoc, BitVec.add_comm (.ofNat 32 (x.1.clipped args))]
    have heof : (if x.1.Cuts args then (0 : U32) else if ∃ x ∈ xs, x.1.Cuts args then 0 else s.res.eof)
        = if ∃ y ∈ x :: xs, y.1.Cuts args then 0 else s.res.eof := by
      by_cases hx : x.1.Cuts args
      · rw [if_pos hx, if_pos ⟨x, mem_cons_self, hx⟩]
      · rw [if_neg hx]
        simp only [mem_cons, exists_eq_or_imp, hx, false_or]
    simp only [hcount, heof]
    rfl

end

/-! ### A request and its reply -/

/-- The segments are contiguous and cover `[a, e)`. -/
def Covers : Nat → List Extent → Nat → Prop
  | a, [], e => a = e
  | a, x :: xs, e => x.offset = a ∧ Covers x.stop xs e

/-- A READ_PLUS request and a well-formed reply between `before` and `rest`. Offsets have 64 bits, lengths 32. -/
structure Exchange where
  args : ReadArgs
  headLen : U32
  before : List Byte
  rest : List Byte
  eof : U32
  segs : List Extent
  start : Nat
  stop : Nat
  covers : Covers start segs stop
  start_le : start ≤ args.offset.toNat
  top_lt : args.offset.toNat + args.count.toNat < 2 ^ 63
  stop_lt : stop < 2 ^ 64
  buffer_lt : headLen.toNat + args.count.toNat < 2 ^ 32
  reply_lt : before.length + 16 + sizeSegs segs + rest.length < 2 ^ 32

namespace Covers

theorem le : ∀ {a e : Nat} {xs : List Extent}, Covers a xs e → a ≤ e
  | _, _, [], h => Nat.le_of_eq h
  | _, _, x :: _, ⟨hx, h⟩ => by
    have hle := h.le
    have : x.stop = x.offset + x.length := rfl
    omega

theorem bounds : ∀ {a e : Nat} {xs : List Extent}, Covers a xs e → ∀ x ∈ xs, a ≤ x.offset ∧ x.stop ≤ e
  | _, _, y :: _, ⟨hy, h⟩, x, hx => by
    have hdef : y.stop = y.offset + y.length := rfl
    rcases mem_cons.mp hx with rfl | hx
    · exact ⟨hy.ge, h.le⟩
    · have hb := h.bounds x hx
      exact ⟨by omega, hb.2⟩

theorem ascending : ∀ {a e : Nat} {xs : List Extent}, Covers a xs e → xs.Pairwise fun x y => x.stop ≤ y.offset
  | _, _, [], _ => List.Pairwise.nil
  | _, _, _ :: _, ⟨_, h⟩ => pairwise_cons.mpr ⟨fun y hy => (h.bounds y hy).1, h.ascending⟩

theorem exists_mem : ∀ {a e : Nat} {xs : List Extent}, Covers a xs e → ∀ b, a ≤ b → b < e →
    ∃ x ∈ xs, x.offset ≤ b ∧ b < x.stop
  | _, _, [], h, b, hlo, hhi => by
    have : _ = _ := h
    omega
  | _, _, y :: _, ⟨hy, h⟩, b, hlo, hhi => by
    by_cases hb : b < y.stop
    · exact ⟨y, mem_cons_self, by omega, hb⟩
    · obtain ⟨x, hx, hin⟩ := h.exists_mem b (le_of_not_lt hb) hhi
      exact ⟨x, mem_cons_of_mem y hx, hin⟩

theorem getLast : ∀ {a e : Nat} {xs : List Extent}, Covers a xs e → xs ≠ [] → ∃ x, xs.getLast? = some x ∧ x.stop = e
  | _, _, [], _, hne => absurd rfl hne
  | _, _, [x], ⟨_, h⟩, _ => ⟨x, rfl, h⟩
  | _, _, x :: y :: ys, ⟨_, h⟩, _ => by
    obtain ⟨z, hz, hstop⟩ := h.getLast (cons_ne_nil y ys)
    exact ⟨z, by rw [getLast?_cons_cons, hz], hstop⟩

end Covers

theorem map_fst_locate : ∀ (pos : Nat) (xs : List Extent), (locate pos xs).map Prod.fst = xs
  | _, [] => rfl
  | pos, x :: xs => congrArg (x :: ·) (map_fst_locate (pos + x.size) xs)

theorem locate_le : ∀ {pos : Nat} {xs : List Extent}, ∀ x ∈ locate pos xs, x.2 ≤ pos + sizeSegs xs
  | pos, y :: ys, x, hx => by
    have hsize : sizeSegs (y :: ys) = y.size + sizeSegs ys := sum_cons
    have hpos : 16 ≤ y.size := by
      unfold Extent.size
      split <;> omega
    rcases mem_cons.mp hx with rfl | hx
    · omega
    · have := locate_le x hx
      omega

theorem size_le_sizeSegs {xs : List Extent} {x : Extent} (hx : x ∈ xs) : x.size ≤ sizeSegs xs :=
  single_le_sum (fun _ _ => Nat.zero_le _) _ (mem_map_of_mem hx)

theorem length_le_sizeSegs : ∀ xs : List Extent, xs.length ≤ sizeSegs xs
  | [] => le_rfl
  | x :: xs => by
    have hsize : sizeSegs (x :: xs) = x.size + sizeSegs xs := sum_cons
    have hpos : 16 ≤ x.size := by
      unfold Extent.size
      split <;> omega
    have := length_le_sizeSegs xs
    rw [length_cons]
    omega

namespace Exchange
variable (x : Exchange) {s : Extent × Nat}

abbrev lo : Nat := x.args.offset.toNat
abbrev top : Nat := x.args.offset.toNat + x.args.count.toNat

def reply (file : Nat → Byte) : List Byte :=
  x.before ++ (Nfs4xdr.opHdr opReadPlus ++ (bytes32 x.eof ++ bytes32 (.ofNat 32 x.segs.length)
    ++ (encodeSegs file x.segs ++ x.rest)))

def located : List (Extent × Nat) := locate (x.before.length + 16) x.segs

def pieces : List Piece := x.located.map (piece x.headLen x.args)

def decode (kmalloc : Nat → Bool) (res : ReadRes) (file : Nat → Byte) : ReadPlusReturn :=
  decodeReadPlus kmalloc x.headLen x.args res (x.reply file) x.before.length

variable {x}

theorem mem_segs (hs : s ∈ x.located) : s.1 ∈ x.segs := by
  rw [← map_fst_locate (x.before.length + 16) x.segs]
  exact mem_map_of_mem hs

theorem exists_located {s : Extent} (hs : s ∈ x.segs) : ∃ start, (s, start) ∈ x.located := by
  rw [← map_fst_locate (x.before.length + 16) x.segs] at hs
  obtain ⟨⟨_, start⟩, hmem, rfl⟩ := mem_map.mp hs
  exact ⟨start, hmem⟩

theorem fits {s : Extent} (hs : s ∈ x.segs) : s.Fits := by
  refine ⟨Nat.lt_of_le_of_lt (x.covers.bounds s hs).2 x.stop_lt, fun hdata => ?_⟩
  have hle := size_le_sizeSegs hs
  have hsize : s.size = 16 + padded s.length := by rw [Extent.size, hdata]; rfl
  have := x.reply_lt
  omega

theorem located_lt (hs : s ∈ x.located) : s.2 < 2 ^ 32 := by
  have hle := locate_le s hs
  have := x.reply_lt
  omega

theorem located_ascending : x.located.Pairwise fun s t => s.1.stop ≤ t.1.offset := by
  have h := x.covers.ascending
  rw [← map_fst_locate (x.before.length + 16) x.segs] at h
  exact pairwise_map.mp h

theorem getD_reply (file : Nat → Byte) (hs : s ∈ x.located) (hdata : s.1.hole = false) {i : Nat}
    (hi : i < s.1.length) : (x.reply file).getD (s.2 + i) 0 = file (s.1.offset + i) := by
  have happend : x.reply file = (x.before ++ (Nfs4xdr.opHdr opReadPlus ++ (bytes32 x.eof ++
      bytes32 (.ofNat 32 x.segs.length)))) ++ (encodeSegs file x.segs ++ x.rest) := by
    simp only [reply, append_assoc]
  rw [happend]
  refine getD_encodeSegs file x.rest x.segs (x.before.length + 16) _ ?_ s hs hdata i hi
  rw [length_append]
  rfl

theorem decode_eq {kmalloc : Nat → Bool} (hk : kmalloc x.segs.length) (res : ReadRes) (file : Nat → Byte) :
    x.decode kmalloc res file =
        { status := 0
          res := { count := .ofNat 32 (x.located.map fun s => s.1.clipped x.args).sum
                   eof := if ∃ s ∈ x.located, s.1.Cuts x.args then 0 else x.eof }
          bytes := placeAll 0 x.pieces fun i => (x.reply file).getD i 0 } := by
  have hlen : (ofNat 32 x.segs.length).toNat = x.segs.length := by
    have := length_le_sizeSegs x.segs
    have := x.reply_lt
    exact mod_eq_of_lt (by omega)
  let body := bytes32 x.eof ++ bytes32 (.ofNat 32 x.segs.length) ++ (encodeSegs file x.segs ++ x.rest)
  have hhdr := Nfs4xdr.decodeOpHdr_opHdr opReadPlus body
  have hwords : inlineDecode (4 + 4) Errno.eio.code body = .ok (body, _) := inlineDecode_append rfl
  have heof : word body 0 = x.eof := be32_bytes32 _ _
  have hsegs : word body 1 = .ofNat 32 x.segs.length := by
    unfold body
    rw [append_assoc]
    exact word_append rfl
  have htotal : x.before.length + 16 + sizeSegs x.segs + x.rest.length = (x.reply file).length := by
    simp only [reply, Nfs4xdr.opHdr, length_append, length_bytes32, length_encodeSegs]
    omega
  have hmany := decodeMany_encode file x.rest (x.reply file).length x.segs (x.before.length + 16) (fun s hs => fits hs) htotal
  have hfold := foldr_processReadPlusSegment x.top_lt x.buffer_lt
    ⟨{ count := 0, eof := x.eof }, fun i => (x.reply file).getD i 0⟩ x.located
    fun s hs => ⟨fits (mem_segs hs), located_lt hs⟩
  have hdrop : (x.reply file).drop x.before.length = Nfs4xdr.opHdr opReadPlus ++ body := drop_left
  unfold decode decodeReadPlus
  simp only [hdrop, hhdr, hwords, heof, hsegs, hlen, hk, Bool.not_true, Bool.false_eq_true, if_false]
  by_cases hnil : x.segs.length = 0
  · have hlocated : x.located = [] := by
      rw [located, length_eq_zero_iff.mp hnil]
      rfl
    simp [hnil, hlocated, pieces, placeAll]
  · rw [if_neg hnil, hmany]
    show ReadPlusReturn.mk 0 _ _ = _
    rw [show (locate (x.before.length + 16) x.segs) = x.located from rfl, hfold]
    simp [pieces]

/-! ### What READ would return -/

section
variable (x : Exchange)

/-- The reply describes the file: its holes are zero. -/
def Describes (file : Nat → Byte) : Prop :=
  ∀ s ∈ x.segs, s.hole → ∀ b, s.offset ≤ b → b < s.stop → file b = 0

/-- The pages hold the part of the file covered. Its end is reported only if the reply did so and nothing was cut off. -/
structure Right (file : Nat → Byte) (ret : ReadPlusReturn) : Prop where
  status : ret.status = 0
  count : ret.res.count.toNat = min x.stop x.top - x.lo
  bytes : ∀ i < ret.res.count.toNat, ret.bytes (x.headLen.toNat + i) = file (x.lo + i)
  eof : ret.res.eof ≠ 0 → x.eof ≠ 0 ∧ x.stop ≤ x.top

/-- Whatever the file contains, READ_PLUS returns what READ would. -/
def ReadsLikeRead (kmalloc : Nat → Bool) (res : ReadRes) : Prop :=
  ∀ file, x.Describes file → x.Right file (x.decode kmalloc res file)

/-- No data segment begins before the request and reaches into it. -/
def NoDataAcross : Prop := ∀ s ∈ x.segs, s.hole = false → s.offset < x.lo → s.stop ≤ x.lo

/-- A hole around the request exceeds it by a multiple of `2 ^ 32`, with no end of the file reported in it. -/
def HolesClipped : Prop :=
  ∀ s ∈ x.segs, s.hole → s.offset < x.lo → x.top < s.stop →
    (s.stop - x.lo) % 2 ^ 32 = x.args.count.toNat ∧ (x.eof = 0 ∨ x.segs.getLast? ≠ some s)

def kept (s : Extent) : Nat := min s.stop x.top - max s.offset x.lo

/-- The bytes of `t` that were asked for are placed before or behind those of `s` in the reply. -/
def Apart (s t : Extent × Nat) : Prop :=
  x.kept s.1 = 0 ∨ x.kept t.1 = 0
    ∨ x.headLen.toNat + (max t.1.offset x.lo - x.lo) + x.kept t.1 ≤ s.2
    ∨ s.2 + x.kept s.1 ≤ x.headLen.toNat + (max t.1.offset x.lo - x.lo)

end

instance (s t : Extent × Nat) : Decidable (x.Apart s t) := inferInstanceAs (Decidable (_ ∨ _))

/-- No segment is placed over the data of an earlier one. -/
def DataKept (x : Exchange) : Prop := x.located.Pairwise fun s t => s.1.hole = false → x.Apart s t

theorem top_eq : x.top = x.lo + x.args.count.toNat := rfl

theorem kept_le (s : Extent) : x.kept s ≤ x.args.count.toNat := by
  have := x.top_eq
  unfold kept
  omega

theorem kept_le_length (s : Extent) : x.kept s ≤ s.length := by
  have : s.stop = s.offset + s.length := rfl
  unfold kept
  omega

theorem clipped_eq_kept {s : Extent} (h : s.offset < x.lo → s.stop ≤ x.top) : s.clipped x.args = x.kept s := by
  have hdef : s.stop = s.offset + s.length := rfl
  unfold Extent.clipped kept
  simp only [lo, top] at h ⊢
  split_ifs <;> omega

theorem clipped_across {s : Extent} (hbegin : s.offset < x.lo) (hend : x.lo ≤ s.stop) : s.clipped x.args = s.stop - x.lo := by
  unfold Extent.clipped
  simp only [lo] at hbegin hend ⊢
  rw [if_neg (by omega), if_neg (by omega), if_pos hbegin]

theorem clipped_mod (hacross : x.NoDataAcross) (hholes : x.HolesClipped) {s : Extent} (hs : s ∈ x.segs) :
    s.clipped x.args % 2 ^ 32 = x.kept s := by
  have htop := x.top_eq
  by_cases hboth : s.offset < x.lo ∧ x.top < s.stop
  · obtain ⟨hbegin, hend⟩ := hboth
    cases hhole : s.hole with
    | false =>
      have := hacross s hs hhole hbegin
      omega
    | true =>
      rw [clipped_across hbegin (by omega), (hholes s hs hhole hbegin hend).1, kept]
      omega
  · have hle : x.kept s < 2 ^ 32 := Nat.lt_of_le_of_lt (kept_le s) x.args.count.isLt
    rw [clipped_eq_kept fun hbegin => le_of_not_lt fun hend => hboth ⟨hbegin, hend⟩, mod_eq_of_lt hle]

theorem kept_eq_sub (s : Extent) : x.kept s = min (max s.stop x.lo) x.top - min (max s.offset x.lo) x.top := by
  unfold kept
  omega

/-- The parts of the segments in the range add up to it. -/
theorem sum_kept : ∀ {xs : List Extent} {a e : Nat}, Covers a xs e →
    (xs.map x.kept).sum = min (max e x.lo) x.top - min (max a x.lo) x.top
  | [], _, _, h => by
    obtain rfl : _ = _ := h
    rw [Nat.sub_self]
    rfl
  | s :: xs, _, e, ⟨rfl, h⟩ => by
    have hreach : ∀ {a b : Nat}, a ≤ b → min (max a x.lo) x.top ≤ min (max b x.lo) x.top := fun hab =>
      min_le_min_right _ (max_le_max_right _ hab)
    rw [map_cons, sum_cons, sum_kept h, kept_eq_sub, Nat.add_comm]
    exact Nat.sub_add_sub_cancel (hreach h.le) (hreach (Nat.le_add_right _ _))

theorem map_fst_located {α : Type} (f : Extent → α) : x.located.map (fun s => f s.1) = x.segs.map f := by
  have h := congrArg (map f) (map_fst_locate (x.before.length + 16) x.segs)
  rw [map_map] at h
  exact h

theorem toNat_count (hacross : x.NoDataAcross) (hholes : x.HolesClipped) :
    (ofNat 32 (x.located.map fun s => s.1.clipped x.args).sum).toNat = min x.stop x.top - x.lo := by
  have hmod : (x.segs.map (Extent.clipped x.args)).map (· % 2 ^ 32) = x.segs.map x.kept := by
    rw [map_map]
    exact map_congr_left fun s hs => clipped_mod hacross hholes hs
  have hstart : x.start ≤ x.lo := x.start_le
  have htop := x.top_eq
  rw [map_fst_located, toNat_ofNat, sum_nat_mod, hmod, sum_kept x.covers, mod_eq_of_lt (by omega)]
  omega

theorem piece_at_iff (hlen : s.1.clipped x.args % 2 ^ 32 = x.kept s.1) (y : Nat) :
    (piece x.headLen x.args s).At y ↔ x.headLen.toNat + (max s.1.offset x.lo - x.lo) ≤ y
      ∧ y < x.headLen.toNat + (max s.1.offset x.lo - x.lo) + x.kept s.1 := by
  rw [← hlen]
  rfl

theorem piece_from {y : Nat} (hlen : s.1.clipped x.args % 2 ^ 32 = x.kept s.1)
    (hy : (piece x.headLen x.args s).From y) : s.1.hole = false ∧ s.2 ≤ y ∧ y < s.2 + x.kept s.1 := by
  obtain ⟨src, hsrc, hlo, hhi⟩ := hy
  rw [← hlen]
  cases hhole : s.1.hole with
  | true => simp [piece, hhole] at hsrc
  | false =>
    have hsome : some s.2 = some src := by simpa [piece, hhole] using hsrc
    cases hsome
    exact ⟨rfl, hlo, hhi⟩

variable (hacross : x.NoDataAcross) (hholes : x.HolesClipped)
include hacross hholes

/-- No piece is placed over one that is still to be moved. -/
theorem pieces_clear (hkept : x.DataKept) : x.pieces.Pairwise Clear := by
  refine pairwise_map.mpr ((located_ascending.and hkept).imp_of_mem fun {s t} hs ht h => ?_)
  obtain ⟨hasc, hdata⟩ := h
  have hlens := clipped_mod hacross hholes (mem_segs hs)
  have hlent := clipped_mod hacross hholes (mem_segs ht)
  intro y hy
  obtain ⟨hlo, hhi⟩ := (piece_at_iff hlent y).mp hy
  refine ⟨fun hat => ?_, fun hfrom => ?_⟩
  · obtain ⟨hlo', hhi'⟩ := (piece_at_iff hlens y).mp hat
    unfold kept at hhi hhi'
    omega
  · obtain ⟨hhole, hlo', hhi'⟩ := piece_from hlens hfrom
    rcases hdata hhole with h | h | h | h <;> omega

theorem bytes_of_conditions (hkept : x.DataKept)
    {file : Nat → Byte} (hfile : x.Describes file) {i : Nat} (hi : i < min x.stop x.top - x.lo) :
    placeAll 0 x.pieces (fun i => (x.reply file).getD i 0) (x.headLen.toNat + i) = file (x.lo + i) := by
  have hstart : x.start ≤ x.lo := x.start_le
  obtain ⟨s, hs, hlo, hhi⟩ := x.covers.exists_mem (x.lo + i) (by omega) (by omega)
  obtain ⟨start, hloc⟩ := exists_located hs
  have hlen := clipped_mod hacross hholes hs
  have hdef : s.stop = s.offset + s.length := rfl
  have hat : (piece x.headLen x.args (s, start)).At (x.headLen.toNat + i) := by
    refine (piece_at_iff (s := (s, start)) hlen _).mpr ⟨?_, ?_⟩
    · show x.headLen.toNat + (max s.offset x.lo - x.lo) ≤ _
      omega
    · show _ < x.headLen.toNat + (max s.offset x.lo - x.lo) + x.kept s
      unfold kept
      omega
  have hmem : piece x.headLen x.args (s, start) ∈ x.pieces := mem_map_of_mem hloc
  rw [placeAll_at 0 _ (pieces_clear hacross hholes hkept) _ hmem hat]
  cases hhole : s.hole with
  | true =>
    rw [hfile s hs hhole _ hlo hhi]
    simp [Piece.value, piece, hhole]
  | false =>
    have hbegin : x.lo ≤ s.offset := le_of_not_lt fun hlt => by
      have := hacross s hs hhole hlt
      omega
    have hget := getD_reply file hloc hhole (i := x.lo + i - s.offset) (by show _ < s.length; omega)
    have hidx : start + (x.headLen.toNat + i - (x.headLen.toNat + (max s.offset x.lo - x.lo)))
        = start + (x.lo + i - s.offset) := by omega
    have hoff : s.offset + (x.lo + i - s.offset) = x.lo + i := by omega
    simp only [Piece.value, piece, hhole, Bool.false_eq_true, if_false]
    rw [hidx]
    exact hget.trans (congrArg file hoff)

theorem eof_of_conditions (heof : (if ∃ s ∈ x.located, s.1.Cuts x.args then 0 else x.eof) ≠ 0) : x.eof ≠ 0 ∧ x.stop ≤ x.top := by
  have hnone : ¬∃ s ∈ x.located, s.1.Cuts x.args := fun h => heof (if_pos h)
  rw [if_neg hnone] at heof
  refine ⟨heof, le_of_not_lt fun hcut => ?_⟩
  have hstart : x.start ≤ x.lo := x.start_le
  have htop := x.top_eq
  obtain ⟨t, ht, -, -⟩ := x.covers.exists_mem x.lo hstart (by omega)
  obtain ⟨s, hlast, hstop⟩ := x.covers.getLast (ne_nil_of_mem ht)
  have hs : s ∈ x.segs := mem_of_getLast? hlast
  obtain ⟨start, hloc⟩ := exists_located hs
  have hbegin : s.offset < x.lo := Nat.lt_of_not_le fun hle => hnone ⟨_, hloc, hle, hstop ▸ hcut⟩
  cases hhole : s.hole with
  | false =>
    have := hacross s hs hhole hbegin
    omega
  | true => exact (hholes s hs hhole hbegin (hstop ▸ hcut)).2.elim heof fun hne => hne hlast

omit hacross hholes

/-- The conditions suffice. -/
theorem readsLikeRead_of_conditions {kmalloc : Nat → Bool} (hk : kmalloc x.segs.length) (res : ReadRes)
    (hacross : x.NoDataAcross) (hholes : x.HolesClipped) (hkept : x.DataKept) : x.ReadsLikeRead kmalloc res := by
  intro file hfile
  rw [decode_eq hk]
  have hcount := toNat_count hacross hholes
  refine ⟨rfl, hcount, fun i hi => ?_, eof_of_conditions hacross hholes⟩
  exact bytes_of_conditions hacross hholes hkept hfile (hcount ▸ hi)

/-! ### What goes wrong otherwise -/

def oneByte (b : Nat) : Nat → Byte := fun i => if i = b then 1 else 0

theorem oneByte_of_ne {b i : Nat} (h : i ≠ b) : oneByte b i = 0 := if_neg h

theorem located_eq {t : Extent × Nat} (hs : s ∈ x.located) (ht : t ∈ x.located) {b : Nat} (hslo : s.1.offset ≤ b)
    (hshi : b < s.1.stop) (htlo : t.1.offset ≤ b) (hthi : b < t.1.stop) : s = t := by
  have hpair : x.located.Pairwise fun s t =>
      (s.1.offset ≤ b ∧ b < s.1.stop) → (t.1.offset ≤ b ∧ b < t.1.stop) → s = t :=
    located_ascending.imp fun hasc hin hin' => by omega
  have hflip : x.located.Pairwise (flip fun s t =>
      (s.1.offset ≤ b ∧ b < s.1.stop) → (t.1.offset ≤ b ∧ b < t.1.stop) → s = t) :=
    located_ascending.imp fun hasc hin hin' => by omega
  exact hpair.forall_of_forall_of_flip (fun _ _ _ _ => rfl) hflip hs ht ⟨hslo, hshi⟩ ⟨htlo, hthi⟩

theorem describes_oneByte {s : Extent} (hs : s ∈ x.segs) (hdata : s.hole = false) {b : Nat} (hlo : s.offset ≤ b)
    (hhi : b < s.stop) : x.Describes (oneByte b) := by
  intro t ht hhole b' hlo' hhi'
  refine oneByte_of_ne fun heq => ?_
  subst heq
  obtain ⟨_, hs⟩ := exists_located hs
  obtain ⟨_, ht⟩ := exists_located ht
  have := congrArg (fun s => s.1.hole) (located_eq hs ht hlo hhi hlo' hhi')
  simp [hdata, hhole] at this

theorem clipped_mod_of_le {s : Extent} (h : x.lo ≤ s.offset) : s.clipped x.args % 2 ^ 32 = x.kept s := by
  have hle : x.kept s < 2 ^ 32 := Nat.lt_of_le_of_lt (kept_le s) x.args.count.isLt
  rw [clipped_eq_kept fun hbegin => absurd hbegin (Nat.not_lt_of_le h), mod_eq_of_lt hle]

theorem getD_from (file : Nat → Byte) (hs : s ∈ x.located)
    (hlen : s.1.clipped x.args % 2 ^ 32 = x.kept s.1) {y : Nat} (hy : (piece x.headLen x.args s).From y) :
    ∃ k < s.1.length, y = s.2 + k ∧ (x.reply file).getD y 0 = file (s.1.offset + k) := by
  obtain ⟨hdata, hlo, hhi⟩ := piece_from hlen hy
  have hle := x.kept_le_length s.1
  obtain ⟨k, rfl⟩ := Nat.exists_eq_add_of_le hlo
  have hlt : k < s.1.length := by omega
  exact ⟨k, hlt, rfl, getD_reply file hs hdata hlt⟩

section
variable {kmalloc : Nat → Bool} {res : ReadRes}

theorem sum_clipped_across {s : Extent} (hs : s ∈ x.segs) (hbegin : s.offset < x.lo) (hend : x.top < s.stop) :
    (x.located.map fun t => t.1.clipped x.args).sum = s.stop - x.lo := by
  have hasc := x.covers.ascending
  have htop := x.top_eq
  rw [map_fst_located]
  obtain ⟨pre, post, hsplit⟩ := append_of_mem hs
  rw [hsplit] at hasc ⊢
  obtain ⟨-, hpost, hpre⟩ := pairwise_append.mp hasc
  have hzero : (pre.map (Extent.clipped x.args)).sum = 0 := by
    refine sum_eq_zero fun n hn => ?_
    obtain ⟨t, ht, rfl⟩ := mem_map.mp hn
    have hle := hpre t ht s mem_cons_self
    exact if_pos (show t.stop < x.lo by omega)
  have hzero' : (post.map (Extent.clipped x.args)).sum = 0 := by
    refine sum_eq_zero fun n hn => ?_
    obtain ⟨t, ht, rfl⟩ := mem_map.mp hn
    have hle := (pairwise_cons.mp hpost).1 t ht
    have hdef : t.stop = t.offset + t.length := rfl
    exact (if_neg (show ¬t.stop < x.lo by omega)).trans (if_pos (show x.top < t.offset by omega))
  rw [map_append, map_cons, sum_append, sum_cons, hzero, hzero', clipped_across hbegin (by omega)]
  omega

theorem mod_of_across (hk : kmalloc x.segs.length) (h : x.ReadsLikeRead kmalloc res) {s : Extent} (hs : s ∈ x.segs)
    (hbegin : s.offset < x.lo) (hend : x.top < s.stop) : (s.stop - x.lo) % 2 ^ 32 = x.args.count.toNat := by
  have hcount := (h (fun _ => 0) fun _ _ _ _ _ _ => rfl).count
  have hle := (x.covers.bounds s hs).2
  have htop := x.top_eq
  rw [decode_eq hk, sum_clipped_across hs hbegin hend, toNat_ofNat] at hcount
  omega

theorem bytes_across {s : Extent} (hs : s ∈ x.segs) (hdata : s.hole = false) (hbegin : s.offset < x.lo)
    (hend : x.lo < s.stop) (hle : s.stop ≤ x.top) :
    placeAll 0 x.pieces (fun i => (x.reply (oneByte x.lo)).getD i 0) x.headLen.toNat = 0 := by
  obtain ⟨start, hloc⟩ := exists_located hs
  have hasc := x.located_ascending
  have hdef : s.stop = s.offset + s.length := rfl
  have htop := x.top_eq
  unfold pieces
  obtain ⟨pre, post, hsplit⟩ := append_of_mem hloc
  rw [hsplit] at hasc ⊢
  obtain ⟨-, hpost, hpre⟩ := pairwise_append.mp hasc
  have hmem : ∀ t ∈ post, t ∈ x.located := fun t ht => hsplit ▸ mem_append_right pre (mem_cons_of_mem (s, start) ht)
  -- the segments before `s` are not placed, those behind it bring only zeros
  have hbefore : ∀ p ∈ pre.map (piece x.headLen x.args), ¬p.At x.headLen.toNat := fun p hp => by
    obtain ⟨t, ht, rfl⟩ := mem_map.mp hp
    have hstop : t.1.stop ≤ s.offset := hpre t ht (s, start) mem_cons_self
    exact not_at_of_clipped_eq_zero (if_pos (show t.1.stop < x.lo by omega)) _
  have hbehind : ∀ p ∈ post.map (piece x.headLen x.args), ∀ y, p.From y →
      (x.reply (oneByte x.lo)).getD y 0 = 0 := fun p hp y hy => by
    obtain ⟨t, ht, rfl⟩ := mem_map.mp hp
    have hoff : s.stop ≤ t.1.offset := (pairwise_cons.mp hpost).1 t ht
    obtain ⟨k, -, -, hget⟩ := getD_from (oneByte x.lo) (hmem t ht) (clipped_mod_of_le (by omega)) hy
    exact hget.trans (oneByte_of_ne (by omega))
  have hclip : s.clipped x.args = s.stop - x.lo := clipped_across hbegin hend.le
  have hat : (piece x.headLen x.args (s, start)).At x.headLen.toNat := by
    constructor
    · show x.headLen.toNat + (max s.offset x.lo - x.lo) ≤ _
      omega
    · show _ < x.headLen.toNat + (max s.offset x.lo - x.lo) + s.clipped x.args % 2 ^ 32
      omega
  rw [map_append, map_cons, placeAll_append, placeAll_of_not_at 0 _ hbefore]
  refine (Piece.place_of_at 0 _ hat).trans ?_
  have hidx : start + (x.headLen.toNat - (x.headLen.toNat + (max s.offset x.lo - x.lo))) = start + 0 := by omega
  simp only [Piece.value, piece, hdata, Bool.false_eq_true, if_false]
  rw [hidx]
  by_cases hover : ∃ p ∈ post.map (piece x.headLen x.args), p.At (start + 0)
  · exact placeAll_of_blank hbehind hover
  · refine (placeAll_of_not_at 0 _ fun p hp hp' => hover ⟨p, hp, hp'⟩).trans ?_
    exact (getD_reply (oneByte x.lo) hloc hdata (show 0 < s.length by omega)).trans (oneByte_of_ne hbegin.ne)

/-- Data across the start of the range is placed from its own start. -/
theorem noDataAcross_of_readsLikeRead (hk : kmalloc x.segs.length) (h : x.ReadsLikeRead kmalloc res) : x.NoDataAcross := by
  intro s hs hdata hbegin
  by_contra hlt
  have hend : x.lo < s.stop := Nat.lt_of_not_le hlt
  have hdef : s.stop = s.offset + s.length := rfl
  have htop := x.top_eq
  by_cases hle : s.stop ≤ x.top
  · have hright := h _ (describes_oneByte hs hdata hbegin.le hend)
    have hstop := (x.covers.bounds s hs).2
    have hbyte := hright.bytes 0 (by rw [hright.count]; omega)
    rw [decode_eq hk] at hbyte
    have hone : oneByte x.lo (x.lo + 0) = 1 := if_pos rfl
    exact absurd ((bytes_across hs hdata hbegin hend hle).symm.trans (hbyte.trans hone)) (by decide)
  · -- the length is too great, and not by a multiple of `2 ^ 32`
    have hmod := mod_of_across hk h hs hbegin (Nat.lt_of_not_le hle)
    have hfits := (fits hs).2 hdata
    have hpad := Extent.le_padded s.length
    omega

theorem holesClipped_of_readsLikeRead (hk : kmalloc x.segs.length) (h : x.ReadsLikeRead kmalloc res) : x.HolesClipped := by
  intro s hs _ hbegin hend
  refine ⟨mod_of_across hk h hs hbegin hend, ?_⟩
  by_contra hcon
  obtain ⟨heof, hlast⟩ := not_or.mp hcon
  obtain ⟨pre, hsplit⟩ := getLast?_eq_some_iff.mp (not_not.mp hlast)
  have hasc := x.covers.ascending
  rw [hsplit] at hasc
  have hnone : ¬∃ t ∈ x.located, t.1.Cuts x.args := by
    rintro ⟨t, ht, hlo, hcut⟩
    have hmem : t.1 ∈ pre ++ [s] := hsplit ▸ mem_segs ht
    have hlo' : x.lo ≤ t.1.offset := hlo
    rcases mem_append.mp hmem with hpre | hsame
    · have hle := (pairwise_append.mp hasc).2.2 t.1 hpre s mem_cons_self
      have hdef : t.1.stop = t.1.offset + t.1.length := rfl
      omega
    · rw [mem_singleton.mp hsame] at hlo'
      omega
  have hright := (h (fun _ => 0) fun _ _ _ _ _ _ => rfl).eof
  rw [decode_eq hk, if_neg hnone] at hright
  have hle := (x.covers.bounds s hs).2
  have := (hright heof).2
  omega

theorem bytes_overwritten (hacross : x.NoDataAcross) (hholes : x.HolesClipped) {i j : Nat} (hi : i < x.located.length)
    (hj : j < x.located.length) (hij : i < j) {k : Nat} (hk : k < x.kept x.located[i].1) (hbegin : x.lo ≤ x.located[i].1.offset)
    (hover : (piece x.headLen x.args x.located[j]).At (x.located[i].2 + k)) :
    placeAll 0 x.pieces (fun y => (x.reply (oneByte (x.located[i].1.offset + k))).getD y 0)
      (x.headLen.toNat + (x.located[i].1.offset + k - x.lo)) = 0 := by
  set s := x.located[i] with hs
  have hmem : s ∈ x.located := getElem_mem hi
  have hlen : ∀ t ∈ x.located, t.1.clipped x.args % 2 ^ 32 = x.kept t.1 := fun t ht =>
    clipped_mod hacross hholes (mem_segs ht)
  have hsplit : x.pieces = (x.located.take (i + 1)).map (piece x.headLen x.args)
      ++ (x.located.drop (i + 1)).map (piece x.headLen x.args) := by
    rw [← map_append, take_append_drop]
    rfl
  have hin : s ∈ x.located.take (i + 1) := mem_take_iff_getElem.mpr ⟨i, by omega, rfl⟩
  have hinj : x.located[j] ∈ x.located.drop (i + 1) :=
    mem_drop_iff_getElem.mpr ⟨j - (i + 1), by omega, by congr 1; omega⟩
  have hasc := (pairwise_append.mp ((take_append_drop (i + 1) x.located).symm ▸ x.located_ascending)).2.2
  have hdef : s.1.stop = s.1.offset + s.1.length := rfl
  have hle := x.kept_le_length s.1
  -- only the source of `s` holds the byte
  have honly : ∀ t ∈ x.located, ∀ y, (piece x.headLen x.args t).From y →
      (x.reply (oneByte (s.1.offset + k))).getD y 0 = 0 ∨ y = s.2 + k ∧ t = s := by
    intro t ht y hy
    obtain ⟨l, hl, rfl, hget⟩ := getD_from (oneByte (s.1.offset + k)) ht (hlen t ht) hy
    rw [hget]
    by_cases hbyte : t.1.offset + l = s.1.offset + k
    · have htdef : t.1.stop = t.1.offset + t.1.length := rfl
      obtain rfl := located_eq ht hmem (b := s.1.offset + k) (by omega) (by omega) (by omega) (by omega)
      exact .inr ⟨by omega, rfl⟩
    · exact .inl (oneByte_of_ne hbyte)
  rw [hsplit]
  refine placeAll_lost ?_ ?_ ⟨_, mem_map_of_mem hin, ?_⟩
  · intro q hq y hy
    obtain ⟨t, ht, rfl⟩ := mem_map.mp hq
    rcases honly t (mem_of_mem_drop ht) y hy with hzero | ⟨-, rfl⟩
    · exact hzero
    · -- `s` itself stands before the dropped part
      have hstop : s.1.stop ≤ s.1.offset := hasc s hin s ht
      omega
  · intro p hp y hy
    obtain ⟨t, ht, rfl⟩ := mem_map.mp hp
    rcases honly t (mem_of_mem_take ht) y hy with hzero | ⟨rfl, -⟩
    · exact .inl hzero
    · exact .inr ⟨_, mem_map_of_mem hinj, hover⟩
  · refine (piece_at_iff (hlen s hmem) _).mpr ?_
    omega

theorem dataKept_of_readsLikeRead (hk : kmalloc x.segs.length) (h : x.ReadsLikeRead kmalloc res) : x.DataKept := by
  have hacross := noDataAcross_of_readsLikeRead hk h
  have hholes := holesClipped_of_readsLikeRead hk h
  refine pairwise_iff_getElem.mpr fun i j hi hj hij hdata => ?_
  by_contra hcon
  obtain ⟨hs, ht, hlo, hhi⟩ : _ ∧ _ ∧ _ ∧ _ := by simpa only [Apart, not_or, Nat.not_le] using hcon
  have hmem : x.located[i] ∈ x.located := getElem_mem hi
  have hdef : x.located[i].1.stop = x.located[i].1.offset + x.located[i].1.length := rfl
  have hbegin : x.lo ≤ x.located[i].1.offset := le_of_not_lt fun hlt => by
    have := hacross _ (mem_segs hmem) hdata hlt
    unfold kept at hs
    omega
  -- the first byte of the source that the later segment is placed over
  obtain ⟨k, hlt, hat⟩ : ∃ k < x.kept x.located[i].1, (piece x.headLen x.args x.located[j]).At (x.located[i].2 + k) := by
    refine ⟨x.headLen.toNat + (max x.located[j].1.offset x.lo - x.lo) - x.located[i].2, by omega, ?_⟩
    exact (piece_at_iff (clipped_mod hacross hholes (mem_segs (getElem_mem hj))) _).mpr (by omega)
  have hbounds := (x.covers.bounds _ (mem_segs hmem)).2
  have hle := x.kept_le_length x.located[i].1
  have hright := h _ (describes_oneByte (mem_segs hmem) hdata (b := x.located[i].1.offset + k) (by omega) (by omega))
  have hbyte := hright.bytes (x.located[i].1.offset + k - x.lo) (by
    rw [hright.count]
    unfold kept at hlt
    omega)
  have hone : oneByte (x.located[i].1.offset + k) (x.lo + (x.located[i].1.offset + k - x.lo)) = 1 := if_pos (by omega)
  rw [decode_eq hk] at hbyte
  exact absurd ((bytes_overwritten hacross hholes hi hj hij hlt hbegin hat).symm.trans (hbyte.trans hone)) (by decide)

/-- READ_PLUS returns what READ would exactly if no data segment begins before the request and reaches into it, a hole
    around it happens to be clipped right, and no segment is placed over an earlier one's data. -/
theorem readsLikeRead_iff (hk : kmalloc x.segs.length) :
    x.ReadsLikeRead kmalloc res ↔ x.NoDataAcross ∧ x.HolesClipped ∧ x.DataKept :=
  ⟨fun h => ⟨noDataAcross_of_readsLikeRead hk h, holesClipped_of_readsLikeRead hk h, dataKept_of_readsLikeRead hk h⟩,
    fun ⟨hacross, hholes, hkept⟩ => readsLikeRead_of_conditions hk res hacross hholes hkept⟩

end

def sparse : Exchange where
  args := ⟨0, 108⟩
  headLen := 32
  before := []
  rest := []
  eof := 1
  segs := [⟨false, 0, 4⟩, ⟨true, 4, 100⟩, ⟨false, 104, 4⟩]
  start := 0
  stop := 108
  covers := ⟨rfl, rfl, rfl, rfl⟩
  start_le := by decide
  top_lt := by decide
  stop_lt := by decide
  buffer_lt := by decide
  reply_lt := by decide

theorem readsLikeRead_sparse : sparse.ReadsLikeRead (fun _ => true) {} := by
  refine (readsLikeRead_iff rfl).mpr ⟨?_, ?_, ?_⟩
  · unfold NoDataAcross
    decide
  · unfold HolesClipped
    decide
  · unfold DataKept
    decide

def early : Exchange where
  args := ⟨4, 4⟩
  headLen := 32
  before := []
  rest := []
  eof := 0
  segs := [⟨false, 0, 8⟩]
  start := 0
  stop := 8
  covers := ⟨rfl, rfl⟩
  start_le := by decide
  top_lt := by decide
  stop_lt := by decide
  buffer_lt := by decide
  reply_lt := by decide

/-- The pages get the bytes 0 to 3. -/
theorem not_right_early : early.Describes (BitVec.ofNat 8)
    ∧ ¬early.Right (BitVec.ofNat 8) (early.decode (fun _ => true) {} (BitVec.ofNat 8)) := by
  refine ⟨fun s hs hhole => ?_, fun h => ?_⟩
  · rw [mem_singleton.mp hs] at hhole
    exact absurd hhole (by decide)
  have hwrong : (early.decode (fun _ => true) {} (ofNat 8)).bytes 32 = 0 := by decide
  have hcount : 0 < (early.decode (fun _ => true) {} (ofNat 8)).res.count.toNat := by decide
  have hbyte : (early.decode (fun _ => true) {} (ofNat 8)).bytes 32 = 4 := h.bytes 0 hcount
  exact absurd (hwrong.symm.trans hbyte) (by decide)

end Exchange

end Mynfs
