import Mynfs.Export

/-! Handles made by `nfs_encode_fh` are taken apart by `nfs_fh_to_dentry`, within the words given. -/

namespace Mynfs
open Xdr List

namespace Fid
variable {m m' : Nat → Byte} {i j : Nat} {w : U32} {fh : NfsFh}

theorem load32_store32 : load32 (store32 m i w) i = w := by
  have hbyte : ∀ k < 4, store32 m i w (4 * i + k) = w.extractLsb' (8 * k) 8 := fun k hk => by
    simp only [store32, show (4 * i + k) / 4 = i by omega, if_true, show (4 * i + k) % 4 = k by omega]
  unfold load32
  rw [hbyte 3 (by decide), hbyte 2 (by decide), hbyte 1 (by decide), show 4 * i = 4 * i + 0 from rfl, hbyte 0 (by decide)]
  ext b hb
  grind

theorem load32_congr (h : ∀ a < 4 * i + 4, m a = m' a) : load32 m i = load32 m' i := by
  unfold load32
  rw [h _ (by omega), h _ (by omega), h _ (by omega), h _ (by omega)]

theorem store32_of_ne {a : Nat} (h : a / 4 ≠ i) : store32 m i w a = m a := if_neg h

theorem load32_store32_of_ne (h : i ≠ j) : load32 (store32 m i w) j = load32 m j := by
  unfold load32
  rw [store32_of_ne (by omega), store32_of_ne (by omega), store32_of_ne (by omega), store32_of_ne (by omega)]

theorem storeFh_outside {a : Nat} (h : a < sizeOff ∨ dataOff + fh.size.toNat ≤ a) : storeFh m fh a = m a := by
  unfold storeFh sizeOff dataOff at *
  rw [if_neg (by omega), if_neg (by omega), if_neg (by omega)]

theorem load32_storeFh (h : i < 3) : load32 (storeFh m fh) i = load32 m i :=
  load32_congr fun a ha => storeFh_outside (.inl (by unfold sizeOff; omega))

theorem loadSize_storeFh : loadSize (storeFh m fh) = fh.size := by
  show fh.size.extractLsb' 8 8 ++ fh.size.extractLsb' 0 8 = fh.size
  ext b hb
  grind

/-- A file handle reads back as it was stored. -/
theorem loadFh_storeFh (h : fh.size.toNat ≤ fh.data.length) : loadFh (storeFh m fh) = ⟨fh.size, fh.data.take fh.size.toNat⟩ := by
  have hdata : ∀ k < fh.size.toNat, storeFh m fh (dataOff + k) = fh.data.getD k 0 := fun k hk => by
    unfold storeFh
    rw [if_neg (by unfold dataOff sizeOff; omega), if_neg (by unfold dataOff sizeOff; omega),
      if_pos ⟨by omega, by omega⟩, Nat.add_sub_cancel_left]
  unfold loadFh
  rw [loadSize_storeFh]
  refine congrArg _ (ext_getElem (by simp [h]) fun k hk _ => ?_)
  have hk : k < fh.size.toNat := by simpa using hk
  rw [getElem_map, getElem_range, hdata k hk, getElem_take, getD_eq_getElem?_getD,
    getElem?_eq_getElem (by omega), Option.getD_some]

theorem loadFh_congr {n : Nat} (hsize : dataOff + (loadSize m).toNat ≤ n) (h : ∀ a < n, m a = m' a) : loadFh m = loadFh m' := by
  have hsame : loadSize m = loadSize m' := by
    unfold loadSize
    rw [h _ (by unfold dataOff sizeOff at *; omega), h _ (by unfold dataOff sizeOff at *; omega)]
  unfold loadFh
  rw [← hsame]
  exact congrArg _ (map_congr_left fun k hk => h _ (by rw [mem_range] at hk; omega))

end Fid

variable {inode : ExportInode} {m : Nat → Byte} {maxLen : Int}

theorem nfsEncodeFh_mem {a : Nat} (h : 4 * maxLen ≤ a) : (nfsEncodeFh inode m maxLen).mem a = m a := by
  unfold nfsEncodeFh
  dsimp only
  split
  · rfl
  · next hlen =>
    unfold embedLen at hlen ⊢
    dsimp only
    rw [Fid.storeFh_outside (.inr (by unfold Fid.dataOff; omega)), Fid.store32_of_ne (by omega),
      Fid.store32_of_ne (by omega), Fid.store32_of_ne (by omega), Fid.store32_of_ne (by omega)]

theorem fileid_words (n : U64) : ((n >>> 32).setWidth 32).setWidth 64 <<< 32 + (n.setWidth 32).setWidth 64 = n := by
  apply BitVec.eq_of_toNat_eq
  simp only [BitVec.toNat_add, BitVec.toNat_shiftLeft, BitVec.toNat_setWidth, BitVec.toNat_ushiftRight,
    Nat.shiftLeft_eq, Nat.shiftRight_eq_div_pow]
  omega

theorem mode_word (w : BitVec 16) : (w.setWidth 32).setWidth 16 = w := by
  apply BitVec.eq_of_toNat_eq
  simp only [BitVec.toNat_setWidth]
  omega

theorem nfsFhToDentry_nfsEncodeFh (hdata : inode.fh.size.toNat ≤ inode.fh.data.length) (hmax : maxLen ≤ 32)
    (hok : (nfsEncodeFh inode m maxLen).type ≠ Fid.invalid) :
    nfsFhToDentry (nfsEncodeFh inode m maxLen).mem (nfsEncodeFh inode m maxLen).maxLen
      (nfsEncodeFh inode m maxLen).type =
      some ⟨inode.fileid, inode.mode &&& sIfmt, inode.fh.size, inode.fh.data.take inode.fh.size.toNat⟩ := by
  unfold nfsEncodeFh at hok ⊢
  dsimp only at hok ⊢
  split at hok
  · exact absurd rfl hok
  · next hlen =>
    have hpos : 4 ≤ embedLen inode.fh.size := by unfold embedLen; omega
    -- The padding word comes after the three words of the header.
    have hpad : ∀ i < 3, (embedLen inode.fh.size - 1).toNat ≠ i := fun i hi => by omega
    rw [if_neg hlen]
    unfold nfsFhToDentry
    simp only [Fid.loadSize_storeFh, Fid.loadFh_storeFh hdata]
    rw [if_neg (by rw [show embedLen 0 = 4 from rfl]; omega), if_neg (by simp)]
    simp only [Fid.load32_storeFh, Fid.load32_store32_of_ne (hpad _ _), Fid.load32_store32, Nat.reduceLT, ne_eq,
      OfNat.ofNat_ne_zero, OfNat.ofNat_ne_one, one_ne_zero, not_false_eq_true, Fid.load32_store32_of_ne,
      fileid_words, mode_word]

theorem nfsFhToDentry_congr {m' : Nat → Byte} {fhLen fhType : Int} (h : ∀ a : Nat, a < 4 * fhLen → m a = m' a) :
    nfsFhToDentry m fhLen fhType = nfsFhToDentry m' fhLen fhType := by
  unfold nfsFhToDentry
  split
  · rfl
  · next hlen =>
    rw [show embedLen 0 = 4 from rfl] at hlen
    have hsize : Fid.loadSize m = Fid.loadSize m' := by
      unfold Fid.loadSize Fid.sizeOff
      rw [h _ (by omega), h _ (by omega)]
    rw [← hsize]
    dsimp only
    split
    · rfl
    · next hfit =>
      have hfh : Fid.loadFh m = Fid.loadFh m' :=
        Fid.loadFh_congr (n := (4 * fhLen).toNat) (by unfold embedLen at hfit; unfold Fid.dataOff; omega)
          fun a ha => h a (by omega)
      rw [hfh, Fid.load32_congr (i := 0) fun a ha => h a (by omega),
        Fid.load32_congr (i := 1) fun a ha => h a (by omega), Fid.load32_congr (i := 2) fun a ha => h a (by omega)]

/-- With at most 32 words `nfs_encode_fh` writes only the words it was offered; when it succeeds, `nfs_fh_to_dentry`
    gets back file id, type and handle; and that depends on the words it was given only. -/
theorem export_fh_round_trip (inode : ExportInode) (m : Nat → Byte) (maxLen : Int)
    (hdata : inode.fh.size.toNat ≤ inode.fh.data.length) (hmax : maxLen ≤ 32) :
    (∀ a : Nat, 4 * maxLen ≤ a → (nfsEncodeFh inode m maxLen).mem a = m a) ∧
    ((nfsEncodeFh inode m maxLen).type ≠ Fid.invalid →
      nfsFhToDentry (nfsEncodeFh inode m maxLen).mem (nfsEncodeFh inode m maxLen).maxLen
        (nfsEncodeFh inode m maxLen).type =
        some ⟨inode.fileid, inode.mode &&& sIfmt, inode.fh.size, inode.fh.data.take inode.fh.size.toNat⟩) ∧
    ∀ (fid fid' : Nat → Byte) (fhLen fhType : Int), (∀ a : Nat, a < 4 * fhLen → fid a = fid' a) →
      nfsFhToDentry fid fhLen fhType = nfsFhToDentry fid' fhLen fhType :=
  ⟨fun _ => nfsEncodeFh_mem, nfsFhToDentry_nfsEncodeFh hdata hmax, fun _ _ _ _ => nfsFhToDentry_congr⟩

theorem export_fh_round_trip_regular :
    nfsFhToDentry (nfsEncodeFh ⟨0x100000002, 0x81a4, 5, [1, 2, 3, 4, 5]⟩ (fun _ => 0xff) 5).mem 5 5 =
      some ⟨0x100000002, 0x8000, 5, [1, 2, 3, 4, 5]⟩ :=
  (export_fh_round_trip ⟨0x100000002, 0x81a4, 5, [1, 2, 3, 4, 5]⟩ (fun _ => 0xff) 5 (by decide) (by decide)).2.1
    (by decide)

end Mynfs
