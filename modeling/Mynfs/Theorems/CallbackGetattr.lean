import Mynfs.Callback.Getattr
import Mynfs.Theorems.CallbackReply

/-! The reply to CB_GETATTR against the `fattr4` of the protocol: a bitmap, and the values in an opaque. -/

namespace Mynfs
open Xdr List
open BitVec (ofNat toNat_ofNat twoPow)
open Nfs4err (badxdr resource)

/-- Values of attributes. -/
inductive AttrValue
  | uint64 (x : U64)
  | nfstime4 (time : Timespec)
deriving DecidableEq

def maskAttrs (mask : List U32) : List Nat :=
  (range (32 * mask.length)).filter fun n => (mask.getD (n / 32) 0).getLsbD (n % 32)

/-- Change, size, the three times, and the two times of a delegation; other attributes are not known here. -/
def decodeAttrValue (n : Nat) : Decoder AttrValue :=
  if n ∈ [3, 4] then do
    let p ← inlineDecode 8 Nfs4err.badxdr
    pure (.uint64 (hyper p 0))
  else if n ∈ [47, 52, 53, 84, 85] then do
    let p ← inlineDecode 12 Nfs4err.badxdr
    pure (.nfstime4 ⟨hyper p 0, word p 2⟩)
  else fun _ => .error Nfs4err.badxdr

def decodeAttrValues : List Nat → Decoder (List (Nat × AttrValue))
  | [] => pure []
  | n :: ns => do
    let value ← decodeAttrValue n
    let values ← decodeAttrValues ns
    pure ((n, value) :: values)

def decodeUint32 : Decoder U32 := do
  let p ← inlineDecode 4 Nfs4err.badxdr
  pure (word p 0)

/-- `fattr4`, with the numbers of its attributes. The opaque has to end where the values end. -/
def decodeFattr4 : Decoder (List (Nat × AttrValue)) := do
  let count ← decodeUint32
  let mask ← decodeMany decodeUint32 count.toNat
  let len ← decodeUint32
  let p ← inlineDecode len.toNat Nfs4err.badxdr
  match decodeAttrValues (maskAttrs mask) (p.take len.toNat) with
  | .ok (attrs, []) => pure attrs
  | _ => fun _ => .error Nfs4err.badxdr

def wordBytes (ws : List U32) : List Byte := ws.flatMap bytes32

@[simp] theorem wordBytes_append (ws ws' : List U32) : wordBytes (ws ++ ws') = wordBytes ws ++ wordBytes ws' :=
  flatMap_append

@[simp] theorem wordBytes_singleton (w : U32) : wordBytes [w] = bytes32 w := flatMap_singleton ..

theorem length_wordBytes : ∀ ws : List U32, (wordBytes ws).length = 4 * ws.length
  | [] => rfl
  | w :: ws => by
    rw [← singleton_append, wordBytes_append, wordBytes_singleton, length_append, length_wordBytes ws]
    simp only [length_bytes32, length_cons, singleton_append]
    omega

theorem wordBytes_hyperWords (x : U64) : wordBytes (hyperWords x) = bytes64 x := by
  rfl

def AttrValue.words : AttrValue → List U32
  | .uint64 x => hyperWords x
  | .nfstime4 time => hyperWords time.tvSec ++ [time.tvNsec]

theorem AttrValue.length_words_le (value : AttrValue) : value.words.length ≤ 3 := by
  cases value <;> simp [words, hyperWords]

theorem length_flatMap_words_le : ∀ attrs : List (Nat × AttrValue), (attrs.flatMap (·.2.words)).length ≤ 3 * attrs.length
  | [] => le_rfl
  | attr :: attrs => by
    have hle := length_flatMap_words_le attrs
    have hvalue := attr.2.length_words_le
    rw [flatMap_cons, length_append, length_cons]
    omega

def WellTyped : Nat × AttrValue → Prop
  | (n, .uint64 _) => n ∈ [3, 4]
  | (n, .nfstime4 _) => n ∈ [47, 52, 53, 84, 85]

theorem reads_decodeUint32 (w : U32) : Reads decodeUint32 (bytes32 w) w := by
  have hread : Reads decodeUint32 (bytes32 w ++ []) w := by
    refine reads_inlineDecode_bind rfl fun tail => ?_
    have hw : word ([] ++ (bytes32 w ++ tail)) 0 = w := word_append rfl
    rw [nil_append] at hw
    rw [hw]
    exact reads_pure w
  rwa [append_nil] at hread

theorem reads_decodeAttrValue {n : Nat} {value : AttrValue} (h : WellTyped (n, value)) :
    Reads (decodeAttrValue n) (wordBytes value.words) value := by
  unfold decodeAttrValue
  rw [← append_nil (wordBytes value.words)]
  cases value with
  | uint64 x =>
    have hn : n ∈ [3, 4] := h
    rw [if_pos hn, AttrValue.words, wordBytes_hyperWords]
    refine reads_inlineDecode_bind rfl fun tail => ?_
    have hx : hyper ([] ++ (bytes64 x ++ tail)) 0 = x := hyper_append rfl
    rw [nil_append] at hx
    rw [hx]
    exact reads_pure _
  | nfstime4 time =>
    have hn : n ∈ [47, 52, 53, 84, 85] := h
    have hne : n ∉ [3, 4] := by
      intro hn'
      simp only [mem_cons, not_mem_nil, or_false] at hn hn'
      omega
    rw [if_neg hne, if_pos hn, AttrValue.words, wordBytes_append, wordBytes_hyperWords, wordBytes_singleton]
    refine reads_inlineDecode_bind rfl fun tail => ?_
    have hsec : hyper ([] ++ (bytes64 time.tvSec ++ (bytes32 time.tvNsec ++ tail))) 0 = time.tvSec := hyper_append rfl
    have hnsec : word (bytes64 time.tvSec ++ (bytes32 time.tvNsec ++ tail)) 2 = time.tvNsec := word_append rfl
    rw [nil_append] at hsec
    rw [append_assoc, hsec, hnsec]
    exact reads_pure _

theorem reads_decodeAttrValues : ∀ {attrs : List (Nat × AttrValue)}, (∀ attr ∈ attrs, WellTyped attr) →
    Reads (decodeAttrValues (attrs.map (·.1))) (wordBytes (attrs.flatMap (·.2.words))) attrs
  | [], _ => reads_pure []
  | (n, value) :: attrs, h => by
    have hvalue := reads_decodeAttrValue (h (n, value) mem_cons_self)
    have hvalues := reads_decodeAttrValues fun attr hattr => h attr (mem_cons_of_mem _ hattr)
    rw [flatMap_cons, wordBytes_append]
    have hread := hvalue.bind (f := fun value => decodeAttrValues (attrs.map (·.1)) >>= fun values => pure ((n, value) :: values))
      (hvalues.bind (f := fun values => pure ((n, value) :: values)) (reads_pure _))
    rwa [append_nil] at hread

def fattr4Words (mask body : List U32) : List U32 :=
  BitVec.ofNat 32 mask.length :: mask ++ BitVec.ofNat 32 (4 * body.length) :: body

theorem reads_decodeFattr4 {mask : List U32} {attrs : List (Nat × AttrValue)} (htyped : ∀ attr ∈ attrs, WellTyped attr)
    (hmask : maskAttrs mask = attrs.map (·.1)) (hcount : mask.length < 2 ^ 32)
    (hlen : 4 * (attrs.flatMap (·.2.words)).length < 2 ^ 32) :
    Reads decodeFattr4 (wordBytes (fattr4Words mask (attrs.flatMap (·.2.words)))) attrs := by
  generalize hbody : attrs.flatMap (·.2.words) = body at hlen
  have hcount' : (ofNat 32 mask.length).toNat = mask.length := by rw [toNat_ofNat, Nat.mod_eq_of_lt hcount]
  have hlen' : (ofNat 32 (4 * body.length)).toNat = (wordBytes body).length := by
    rw [toNat_ofNat, Nat.mod_eq_of_lt hlen, length_wordBytes]
  have hvalues : Reads (decodeAttrValues (maskAttrs mask)) (wordBytes body) attrs := by
    rw [hmask, ← hbody]
    exact reads_decodeAttrValues htyped
  have hopaque : Reads (inlineDecode (ofNat 32 (4 * body.length)).toNat badxdr >>= fun p =>
      match decodeAttrValues (maskAttrs mask) (p.take (ofNat 32 (4 * body.length)).toNat) with
      | .ok (attrs, []) => pure attrs
      | _ => fun _ => .error badxdr) (wordBytes body ++ []) attrs := by
    rw [hlen']
    refine reads_inlineDecode_bind (padded_of_dvd ⟨body.length, length_wordBytes body⟩).symm fun tail => ?_
    have hexact := hvalues []
    rw [append_nil] at hexact
    rw [take_left, hexact]
    exact reads_pure attrs
  have hmaskwords : Reads (decodeMany decodeUint32 mask.length) (wordBytes mask) mask := by
    have hread := reads_decodeMany fun w (_ : w ∈ mask) => reads_decodeUint32 w
    rwa [map_id'] at hread
  rw [append_nil] at hopaque
  have hwords : wordBytes (fattr4Words mask body) = bytes32 (ofNat 32 mask.length) ++
      (wordBytes mask ++ (bytes32 (ofNat 32 (4 * body.length)) ++ wordBytes body)) := by
    rw [fattr4Words, ← singleton_append, ← singleton_append (l := body), wordBytes_append, wordBytes_append, wordBytes_append]
    simp
  rw [hwords]
  refine (reads_decodeUint32 _).bind ?_
  rw [hcount']
  exact hmaskwords.bind ((reads_decodeUint32 _).bind hopaque)

/-- An encoder writes these words if there is room for them all, and fails otherwise. -/
structure Writes (out : Out) (ws : List U32) (r : Out × Nat) : Prop where
  fits : ws.length ≤ out.room → r = (⟨out.words ++ ws, out.room - ws.length⟩, 0)
  full : out.room < ws.length → r.2 = Nfs4err.resource

namespace Writes
variable {out : Out} {ws ws' : List U32} {r : Out × Nat} {f : Out → Out × Nat}

theorem encodeWords (ws : List U32) (out : Out) : Writes out ws (encodeWords ws resource out) := by
  rcases CbState.encodeWords_cases ws resource out with ⟨hle, h⟩ | ⟨hlt, h⟩
  · exact ⟨fun _ => h, fun hlt => absurd hle (not_le.mpr hlt)⟩
  · exact ⟨fun hle => absurd hle (not_le.mpr hlt), fun _ => by rw [h]⟩

theorem andThen (h : Writes out ws r) (hf : ∀ out, Writes out ws' (f out)) : Writes out (ws ++ ws') (andThen r f) := by
  constructor
  · intro hle
    rw [length_append] at hle
    rw [h.fits (by omega)]
    refine ((hf _).fits ?_).trans ?_
    · change ws'.length ≤ out.room - ws.length
      omega
    · rw [append_assoc, length_append, Nat.sub_sub]
  · intro hlt
    rw [length_append] at hlt
    by_cases hle : ws.length ≤ out.room
    · rw [h.fits hle]
      refine (hf _).full ?_
      change out.room - ws.length < ws'.length
      omega
    · have hfull := h.full (not_le.mp hle)
      rw [CbState.andThen_of_ne (by rw [hfull]; decide), hfull]

theorem patch {pre : List U32} {front attrs : Out × Nat} (hfront : Writes out (pre ++ [0]) front)
    (hattrs : Writes out (pre ++ [0] ++ ws) attrs) (hf : ∀ out, Writes out ws' (f out)) :
    Writes out (pre ++ ofNat 32 (4 * (ws ++ ws').length) :: (ws ++ ws')) (Mynfs.andThen attrs fun out =>
      ({ (f out).1 with
          words := (f out).1.words.set (front.1.words.length - 1)
            (ofNat 32 (4 * ((f out).1.words.length - front.1.words.length))) }, (f out).2)) := by
  constructor
  · intro hle
    simp only [length_append, length_cons] at hle
    have hlast := (hf ⟨out.words ++ (pre ++ [0] ++ ws), out.room - (pre ++ [0] ++ ws).length⟩).fits (by
      simp only [length_append, length_singleton]
      omega)
    rw [hfront.fits (by simp only [length_append, length_singleton]; omega),
      hattrs.fits (by simp only [length_append, length_singleton]; omega)]
    unfold Mynfs.andThen
    rw [if_pos rfl]
    dsimp only at hlast ⊢
    rw [hlast]
    have hindex : (out.words ++ (pre ++ [0])).length - 1 = (out.words ++ pre).length := by simp
    have hbytes : (out.words ++ (pre ++ [0] ++ ws) ++ ws').length - (out.words ++ (pre ++ [0])).length = (ws ++ ws').length := by
      simp only [length_append, length_singleton]
      omega
    have hwords : out.words ++ (pre ++ [0] ++ ws) ++ ws' = out.words ++ pre ++ 0 :: (ws ++ ws') := by simp
    rw [hindex, hbytes, hwords, set_append_right _ _ le_rfl, Nat.sub_self, set_cons_zero, append_assoc]
    simp only [length_append, length_cons, length_nil, Prod.mk.injEq, Out.mk.injEq, and_true, true_and]
    omega
  · intro hlt
    simp only [length_append, length_cons] at hlt
    by_cases hle : (pre ++ [0] ++ ws).length ≤ out.room
    · rw [hattrs.fits hle]
      refine (hf _).full ?_
      simp only [length_append, length_singleton] at hle ⊢
      omega
    · have hfull := hattrs.full (not_le.mp hle)
      rw [CbState.andThen_of_ne (by rw [hfull]; decide), hfull]

end Writes

def attrWords (set : Bool) (value : AttrValue) : List U32 := if set then value.words else []

theorem and_twoPow_eq_zero_iff {w : U32} {i : Nat} (hi : i < 32) : w &&& twoPow 32 i = 0 ↔ w.getLsbD i = false := by
  rw [BitVec.and_twoPow]
  cases hbit : w.getLsbD i with
  | false => simp
  | true =>
    simp only [if_true, Bool.true_eq_false, iff_false]
    intro hzero
    have := congrArg (fun v => v.getLsbD i) hzero
    simp [hi] at this

variable (w bit : U32) (i : Nat) (hi : i < 32)
include hi

variable (hbit : bit = twoPow 32 i)
include hbit

theorem writes_encodeAttr (value : AttrValue) (out : Out) : Writes out (attrWords (w.getLsbD i) value)
      (if w &&& bit = 0 then (out, 0) else encodeWords value.words resource out) := by
  have hiff : w &&& bit = 0 ↔ w.getLsbD i = false := hbit ▸ and_twoPow_eq_zero_iff hi
  unfold attrWords
  by_cases hset : w.getLsbD i = false
  · rw [if_pos (hiff.mpr hset), hset]
    exact ⟨fun _ => by simp, nofun⟩
  · rw [if_neg (mt hiff.mp hset), if_pos (Bool.of_not_eq_false hset)]
    exact .encodeWords _ out

theorem writes_encodeAttrHyper (x : U64) (out : Out) :
    Writes out (attrWords (w.getLsbD i) (.uint64 x)) (encodeAttrHyper w bit x out) :=
  writes_encodeAttr w bit i hi hbit (.uint64 x) out

theorem writes_encodeAttrTime (time : Timespec)
    (out : Out) : Writes out (attrWords (w.getLsbD i) (.nfstime4 time)) (encodeAttrTime w bit time out) :=
  writes_encodeAttr w bit i hi hbit (.nfstime4 time) out

omit hbit

omit hi

variable {w bit i}

namespace CbGetattrRes
variable (res : CbGetattrRes)

def values : List (Nat × AttrValue) :=
  [(3, .uint64 res.changeAttr), (4, .uint64 res.size), (47, .nfstime4 res.atime), (52, .nfstime4 res.ctime),
    (53, .nfstime4 res.mtime), (84, .nfstime4 res.atime), (85, .nfstime4 res.mtime)]

def mask : List U32 := [res.bitmap.word0, res.bitmap.word1, res.bitmap.word2]

end CbGetattrRes

def Bitmap.has (bitmap : Bitmap) (n : Nat) : Bool := ([bitmap.word0, bitmap.word1, bitmap.word2].getD (n / 32) 0).getLsbD (n % 32)

def CbGetattrRes.contained (res : CbGetattrRes) : List (Nat × AttrValue) := res.values.filter fun attr => res.bitmap.has attr.1

theorem flatMap_filter_cons (p : Nat × AttrValue → Bool) (attr : Nat × AttrValue) (attrs : List (Nat × AttrValue)) :
    ((attr :: attrs).filter p).flatMap (·.2.words) = attrWords (p attr) attr.2 ++ (attrs.filter p).flatMap (·.2.words) := by
  unfold attrWords
  cases hp : p attr <;> simp [hp]

theorem CbGetattrRes.contained_words (res : CbGetattrRes) : res.contained.flatMap (·.2.words) =
    attrWords (res.bitmap.word0.getLsbD 3) (.uint64 res.changeAttr) ++
    attrWords (res.bitmap.word0.getLsbD 4) (.uint64 res.size) ++
    attrWords (res.bitmap.word1.getLsbD 15) (.nfstime4 res.atime) ++
    attrWords (res.bitmap.word1.getLsbD 20) (.nfstime4 res.ctime) ++
    attrWords (res.bitmap.word1.getLsbD 21) (.nfstime4 res.mtime) ++
    attrWords (res.bitmap.word2.getLsbD 20) (.nfstime4 res.atime) ++
    attrWords (res.bitmap.word2.getLsbD 21) (.nfstime4 res.mtime) := by
  simp only [contained, values, flatMap_filter_cons, filter_nil, flatMap_nil, append_nil, append_assoc]
  rfl

theorem encodeGetattrRes_writes (res : CbGetattrRes) (hres : res.status = 0) (out : Out) :
    Writes out (fattr4Words res.mask (res.contained.flatMap (·.2.words))) (encodeGetattrRes res out) := by
  unfold encodeGetattrRes
  rw [if_neg (not_not.mpr hres)]
  dsimp only
  have hfront := (Writes.encodeWords [3, res.bitmap.word0, res.bitmap.word1, res.bitmap.word2] out).andThen
    (Writes.encodeWords [0])
  generalize Mynfs.andThen (encodeWords [3, res.bitmap.word0, res.bitmap.word1, res.bitmap.word2] resource out)
    (encodeWords [0] resource) = front at hfront ⊢
  have hattrs := hfront.andThen (writes_encodeAttrHyper res.bitmap.word0 (1 <<< 3) 3 (by decide) (by decide) res.changeAttr)
    |>.andThen (writes_encodeAttrHyper res.bitmap.word0 (1 <<< 4) 4 (by decide) (by decide) res.size)
    |>.andThen (writes_encodeAttrTime res.bitmap.word1 (1 <<< 15) 15 (by decide) (by decide) res.atime)
    |>.andThen (writes_encodeAttrTime res.bitmap.word1 (1 <<< 20) 20 (by decide) (by decide) res.ctime)
    |>.andThen (writes_encodeAttrTime res.bitmap.word1 (1 <<< 21) 21 (by decide) (by decide) res.mtime)
    |>.andThen (writes_encodeAttrTime res.bitmap.word2 (1 <<< 20) 20 (by decide) (by decide) res.atime)
  have hlast := writes_encodeAttrTime res.bitmap.word2 (1 <<< 21) 21 (by decide) (by decide) res.mtime
  have hwrites := hfront.patch (by simpa only [append_assoc] using hattrs) hlast
  have hwords : ∀ body, fattr4Words res.mask body =
      [3, res.bitmap.word0, res.bitmap.word1, res.bitmap.word2] ++ ofNat 32 (4 * body.length) :: body := fun _ => rfl
  rw [hwords, res.contained_words]
  simpa only [append_assoc] using hwrites

theorem Bitmap.has_and (a b : Bitmap) (n : Nat) :
    Bitmap.has ⟨a.word0 &&& b.word0, a.word1 &&& b.word1, a.word2 &&& b.word2⟩ n = (a.has n && b.has n) := by
  unfold has
  rcases n / 32 with _ | _ | _ | k <;> simp

def getattrSupported : Bitmap where
  word0 := fattr4Word0Change ||| fattr4Word0Size
  word1 := fattr4Word1TimeAccess ||| fattr4Word1TimeMetadata ||| fattr4Word1TimeModify
  word2 := fattr4Word2TimeDelegAccess ||| fattr4Word2TimeDelegModify

theorem nfs4CallbackGetattr_bitmap {clp : Bool} {inode : Except Errno GetattrInode} {requested : Bitmap}
    (h : (nfs4CallbackGetattr clp inode requested {}).status = 0) (n : Nat) :
    (nfs4CallbackGetattr clp inode requested {}).bitmap.has n = (getattrSupported.has n && requested.has n) := by
  rw [← Bitmap.has_and]
  unfold nfs4CallbackGetattr at h ⊢
  split at h
  · cases h
  rcases inode with errno | inode
  · dsimp only at h
    split at h <;> cases h
  rcases hdel : inode.delegation with _ | delegation
  · simp [hdel] at h
  · simp only [hdel] at h ⊢
    split at h
    · cases h
    · rename_i hclp hwrite
      rw [if_neg hclp, if_neg hwrite]
      rfl

theorem filter_range_supported : (range 96).filter getattrSupported.has = [3, 4, 47, 52, 53, 84, 85] := by decide

namespace CbGetattrRes
variable (res : CbGetattrRes) {attr : Nat × AttrValue}

theorem values_numbers : res.values.map (·.1) = [3, 4, 47, 52, 53, 84, 85] := rfl

theorem wellTyped_of_mem_values (h : attr ∈ res.values) : WellTyped attr := by
  simp only [values, mem_cons, not_mem_nil, or_false] at h
  rcases h with rfl | rfl | rfl | rfl | rfl | rfl | rfl <;> simp [WellTyped]

theorem supported_of_mem_values (h : attr ∈ res.values) : getattrSupported.has attr.1 := by
  have hmem : attr.1 ∈ res.values.map (·.1) := mem_map_of_mem h
  rw [values_numbers, ← filter_range_supported] at hmem
  exact (mem_filter.mp hmem).2

end CbGetattrRes

/-- The bitmap has the attributes asked for and answered for, the values follow, and a reader gets what was encoded. -/
theorem encodeGetattrRes_fattr4 (clp : Bool) (inode : Except Errno GetattrInode) (requested : Bitmap) (out : Out)
    (hstatus : (nfs4CallbackGetattr clp inode requested {}).status = 0) :
    let res := nfs4CallbackGetattr clp inode requested {}
    let attrs := res.values.filter fun attr => requested.has attr.1
    let body := attrs.flatMap (·.2.words)
    Writes out (fattr4Words res.mask body) (encodeGetattrRes res out) ∧
      maskAttrs res.mask = attrs.map (·.1) ∧ (attrs.map (·.1)).Pairwise (· < ·) ∧
      (ofNat 32 (4 * body.length)).toNat = (wordBytes body).length ∧
      Reads decodeFattr4 (wordBytes (fattr4Words res.mask body)) attrs := by
  intro res attrs body
  have hcontained : res.contained = attrs := by
    refine filter_congr fun attr hattr => ?_
    rw [nfs4CallbackGetattr_bitmap hstatus, res.supported_of_mem_values hattr, Bool.true_and]
  have hmask : maskAttrs res.mask = attrs.map (·.1) := by
    have hrange : maskAttrs res.mask = (range 96).filter res.bitmap.has := rfl
    have hhas : res.bitmap.has = fun n => requested.has n && getattrSupported.has n := by
      funext n
      rw [nfs4CallbackGetattr_bitmap hstatus, Bool.and_comm]
    rw [hrange, hhas, ← filter_filter, filter_range_supported, ← res.values_numbers, filter_map]
    rfl
  have hlen : 4 * body.length < 2 ^ 32 := by
    have hbody : body.length ≤ 3 * attrs.length := length_flatMap_words_le attrs
    have hattrs : attrs.length ≤ 7 := length_filter_le ..
    omega
  refine ⟨?_, hmask, ?_, ?_, ?_⟩
  · have hwrites := encodeGetattrRes_writes res hstatus out
    rwa [hcontained] at hwrites
  · rw [← hmask]
    exact (pairwise_lt_range).filter _
  · rw [toNat_ofNat, Nat.mod_eq_of_lt hlen, length_wordBytes]
  · exact reads_decodeFattr4 (fun attr hattr => res.wellTyped_of_mem_values (mem_filter.mp hattr).1) hmask
      (Nat.lt_of_le_of_lt (le_refl 3) (by decide)) hlen

/-- An attribute that the client does not answer for is asked for, too. -/
theorem encodeGetattrRes_fattr4_changeCtime :
    let inode : GetattrInode := ⟨some ⟨true, 7⟩, 100, ⟨1, 2⟩, ⟨3, 4⟩, ⟨5, 6⟩, true⟩
    let ws : List U32 := [3, 8, 0x100000, 0, 20, 0, 8, 0, 3, 4]
    encodeGetattrRes (nfs4CallbackGetattr true (.ok inode) ⟨9, 0x100000, 0⟩ {}) ⟨[], 20⟩ = (⟨ws, 10⟩, 0) ∧
      Reads decodeFattr4 (wordBytes ws) [(3, .uint64 8), (52, .nfstime4 ⟨3, 4⟩)] := by
  intro inode ws
  obtain ⟨hwrites, -, -, -, hreads⟩ := encodeGetattrRes_fattr4 true (.ok inode) ⟨9, 0x100000, 0⟩ ⟨[], 20⟩ rfl
  have hattrs : ((nfs4CallbackGetattr true (.ok inode) ⟨9, 0x100000, 0⟩ {}).values.filter fun attr =>
      Bitmap.has ⟨9, 0x100000, 0⟩ attr.1) = [(3, .uint64 8), (52, .nfstime4 ⟨3, 4⟩)] := by decide
  have hws : fattr4Words (nfs4CallbackGetattr true (.ok inode) ⟨9, 0x100000, 0⟩ {}).mask
      ([(3, AttrValue.uint64 8), (52, .nfstime4 ⟨3, 4⟩)].flatMap (·.2.words)) = ws := by decide
  rw [hattrs, hws] at hwrites hreads
  exact ⟨hwrites.fits (by decide), hreads⟩

end Mynfs
