import Mynfs.Callback.Xdr

/-! CB_NOTIFY_DEVICEID, with notifications encoded as the protocol has them. -/

namespace Mynfs
open Xdr List

/-- The two notifications. -/
inductive NotifyDeviceid4
  | change (immediate : Bool)
  | delete

namespace NotifyDeviceid4

def type : NotifyDeviceid4 → U32
  | change _ => notifyDeviceid4Change
  | delete => notifyDeviceid4Delete

def size : NotifyDeviceid4 → U32
  | change _ => 24
  | delete => 20

def flag : NotifyDeviceid4 → List U32
  | change immediate => [if immediate then 1 else 0]
  | delete => []

end NotifyDeviceid4

/-- A notification of the protocol. -/
structure DeviceNotification where
  kind : NotifyDeviceid4
  layoutType : U32
  devId : List Byte
  length_devId : devId.length = 16

namespace DeviceNotification
variable {x : DeviceNotification} {rest mid : List Byte} {y : CbDeviceNotifyItem}

section
variable (x : DeviceNotification)

def encode : List Byte :=
  bytes32 1 ++ (bytes32 x.kind.type ++ (bytes32 x.kind.size ++ (bytes32 x.layoutType ++
    (x.devId ++ x.kind.flag.flatMap bytes32))))

def item : CbDeviceNotifyItem :=
  ⟨x.kind.type, x.layoutType, x.devId, x.kind.flag.headD 0⟩

/-- The decoder expects a flag just when there is one. -/
def Agrees : Prop := x.layoutType = notifyDeviceid4Change ↔ x.kind.type = notifyDeviceid4Change

end

instance (x : DeviceNotification) : Decidable x.Agrees := inferInstanceAs (Decidable (_ ↔ _))

def front (x : DeviceNotification) : List Byte :=
  bytes32 1 ++ (bytes32 x.kind.type ++ (bytes32 x.kind.size ++ (bytes32 x.layoutType ++ x.devId)))

variable (x)

theorem encode_eq : x.encode = x.front ++ x.kind.flag.flatMap bytes32 := by
  simp [encode, front]

@[simp] theorem length_front : x.front.length = 32 := by
  simp [front, x.length_devId]

variable {x}

theorem words_front (tail : List Byte) :
    word (x.front ++ tail) 0 = 1 ∧ word (x.front ++ tail) 1 = x.kind.type ∧ word (x.front ++ tail) 2 = x.kind.size ∧
    word (x.front ++ tail) 3 = x.layoutType ∧ ((x.front ++ tail).drop 16).take 16 = x.devId := by
  refine ⟨?_, ?_, ?_, ?_, ?_⟩
  · exact be32_bytes32 _ _
  · exact word_append (i := 1) (length_bytes32 1)
  · simp only [front, append_assoc]
    rw [← append_assoc (bytes32 1)]
    exact word_append (i := 2) rfl
  · simp only [front, append_assoc]
    rw [← append_assoc (bytes32 1), ← append_assoc (bytes32 1 ++ _)]
    exact word_append (i := 3) rfl
  · have hsplit : x.front ++ tail =
        (bytes32 1 ++ bytes32 x.kind.type ++ bytes32 x.kind.size ++ bytes32 x.layoutType) ++ (x.devId ++ tail) := by
      simp [front]
    rw [hsplit, drop_left' (by simp), take_left' x.length_devId]

theorem size_ok (k : NotifyDeviceid4) : ¬((k.type = notifyDeviceid4Change ∧ k.size ≠ 24) ∨
    (k.type = notifyDeviceid4Delete ∧ k.size ≠ 20)) := by
  cases k <;> simp [NotifyDeviceid4.type, NotifyDeviceid4.size, notifyDeviceid4Change, notifyDeviceid4Delete]

theorem type_ok (k : NotifyDeviceid4) : k.type = notifyDeviceid4Change ∨ k.type = notifyDeviceid4Delete := by
  cases k <;> simp [NotifyDeviceid4.type]

theorem decodeDeviceNotifyItem_front (x : DeviceNotification) (tail : List Byte) :
    decodeDeviceNotifyItem (x.front ++ tail) =
      if x.layoutType = notifyDeviceid4Change then
        if 4 ≤ tail.length then .ok (⟨x.kind.type, x.layoutType, x.devId, word tail 0⟩, tail.drop 4)
        else .error Nfs4err.badxdr
      else .ok (⟨x.kind.type, x.layoutType, x.devId, 0⟩, tail) := by
  obtain ⟨h0, h1, h2, h3, hdev⟩ := words_front (x := x) tail
  unfold decodeDeviceNotifyItem
  rw [bind_of_ok (inlineDecode_append (by simp [padded])), h0, h1, h2, h3, hdev]
  rw [require_bind, if_pos (by simp), require_bind, if_pos (decide_eq_true (type_ok x.kind)), require_bind,
    if_pos (decide_eq_true (size_ok x.kind))]
  split
  · rw [inlineDecode_bind]
    rfl
  · rfl

theorem decodeDeviceNotifyItem_header {input : List Byte} {r : CbDeviceNotifyItem × List Byte}
    (h : decodeDeviceNotifyItem input = .ok r) :
    word input 0 = 1 ∧ ∃ k : NotifyDeviceid4, word input 1 = k.type ∧ word input 2 = k.size := by
  unfold decodeDeviceNotifyItem at h
  rw [inlineDecode_bind] at h
  split at h
  · rw [require_bind] at h
    split at h
    · rename_i hone
      rw [require_bind] at h
      split at h
      · rename_i htype
        rw [require_bind] at h
        split at h
        · rename_i hsize
          have hsize' := of_decide_eq_true hsize
          refine ⟨of_decide_eq_true hone, ?_⟩
          rcases of_decide_eq_true htype with hchange | hdelete
          · exact ⟨.change false, hchange, by_contra fun hne => hsize' (.inl ⟨hchange, hne⟩)⟩
          · exact ⟨.delete, hdelete, by_contra fun hne => hsize' (.inr ⟨hdelete, hne⟩)⟩
        · cases h
      · cases h
    · cases h
  · cases h

def Headed (input : List Byte) : Prop := ∃ (k : NotifyDeviceid4) (tail : List Byte), input = bytes32 1 ++ (bytes32 k.type ++ tail)

theorem headed_encode (x : DeviceNotification) (rest : List Byte) : Headed (x.encode ++ rest) :=
  ⟨x.kind, bytes32 x.kind.size ++ (bytes32 x.layoutType ++ (x.devId ++ x.kind.flag.flatMap bytes32)) ++ rest, by
    simp only [encode, append_assoc]⟩

theorem reads_encode (h : x.Agrees) : Reads decodeDeviceNotifyItem x.encode x.item := fun rest => by
  rw [encode_eq, append_assoc, decodeDeviceNotifyItem_front]
  cases hk : x.kind with
  | change immediate =>
    have hlayout : x.layoutType = notifyDeviceid4Change := h.mpr (by rw [hk]; rfl)
    simp only [if_pos hlayout, NotifyDeviceid4.flag, flatMap_cons, flatMap_nil, append_nil]
    rw [if_pos (by simp), show word (bytes32 (if immediate then 1 else 0) ++ rest) 0 = _ from be32_bytes32 _ _,
      drop_left' (length_bytes32 _)]
    simp [item, hk, NotifyDeviceid4.flag]
  | delete =>
    have hlayout : x.layoutType ≠ notifyDeviceid4Change := fun heq => by
      have := h.mp heq
      rw [hk] at this
      cases this
    rw [if_neg hlayout]
    simp [item, hk, NotifyDeviceid4.flag]

theorem misread (h : ¬x.Agrees) {rest : List Byte} (hd : decodeDeviceNotifyItem (x.encode ++ rest) = .ok (y, mid)) :
    (∃ flag : U32, mid = bytes32 flag ++ rest) ∨ (4 ≤ rest.length ∧ mid = rest.drop 4) := by
  rw [encode_eq, append_assoc, decodeDeviceNotifyItem_front] at hd
  cases hk : x.kind with
  | change immediate =>
    have hlayout : x.layoutType ≠ notifyDeviceid4Change := fun heq => h ⟨fun _ => by rw [hk]; rfl, fun _ => heq⟩
    rw [if_neg hlayout] at hd
    cases hd
    exact .inl ⟨_, by simp [hk, NotifyDeviceid4.flag]; rfl⟩
  | delete =>
    have hlayout : x.layoutType = notifyDeviceid4Change := by_contra fun hne =>
      h ⟨fun heq => absurd heq hne, fun heq => by rw [hk] at heq; cases heq⟩
    rw [if_pos hlayout] at hd
    simp only [hk, NotifyDeviceid4.flag, flatMap_nil, nil_append] at hd
    split at hd
    · rename_i hfour
      cases hd
      exact .inr ⟨hfour, rfl⟩
    · cases hd

theorem misread_next (h : ¬x.Agrees) {rest : List Byte} (hrest : Headed rest)
    (hd : decodeDeviceNotifyItem (x.encode ++ rest) = .ok (y, mid)) (r : CbDeviceNotifyItem × List Byte) :
    decodeDeviceNotifyItem mid ≠ .ok r := by
  obtain ⟨k, tail, rfl⟩ := hrest
  intro hnext
  obtain ⟨hone, k', htype, -⟩ := decodeDeviceNotifyItem_header hnext
  rcases misread h hd with ⟨flag, rfl⟩ | ⟨-, rfl⟩
  · cases k' <;> cases htype
  · rw [drop_left' (length_bytes32 _), show word (bytes32 k.type ++ tail) 0 = _ from be32_bytes32 _ _] at hone
    cases k <;> cases hone

end DeviceNotification

open DeviceNotification

def encodeDevicenotify (ns : List DeviceNotification) : List Byte :=
  bytes32 (BitVec.ofNat 32 ns.length) ++ ns.flatMap encode

theorem decodeDevicenotifyArgs_count (env : DecodeEnv) (n : U32) (rest : List Byte) (hpos : 0 < n.toNat) :
    decodeDevicenotifyArgs env (bytes32 n ++ rest) =
      if env.canAlloc n.toNat then
        (decodeMany decodeDeviceNotifyItem n.toNat >>= fun devs => pure (.devicenotify devs)) rest
      else .error Nfs4err.delay := by
  unfold decodeDevicenotifyArgs
  rw [bind_of_ok (inlineDecode_append (length_bytes32 n)), show word (bytes32 n ++ rest) 0 = n from be32_bytes32 n rest]
  rw [if_neg hpos.ne', require_bind]

theorem reads_devicenotify {ns : List DeviceNotification} (hagrees : ∀ x ∈ ns, x.Agrees) :
    Reads (decodeMany decodeDeviceNotifyItem ns.length) (ns.flatMap encode) (ns.map item) :=
  reads_decodeMany fun x hx => reads_encode (hagrees x hx)

theorem agrees_of_decodeMany : ∀ {ns : List DeviceNotification} {ys : List CbDeviceNotifyItem},
    decodeMany decodeDeviceNotifyItem ns.length (ns.flatMap encode) = .ok (ys, []) → ∀ x ∈ ns, x.Agrees
  | [], _, _, _, hx => absurd hx not_mem_nil
  | x :: ns, ys, h, z, hz => by
    obtain ⟨y, mid, zs, -, hitem, hmany⟩ := decodeMany_succ_eq_ok h
    rw [flatMap_cons] at hitem
    by_cases hx : x.Agrees
    · rw [reads_encode hx] at hitem
      cases hitem
      rcases mem_cons.mp hz with rfl | hz
      · exact hx
      · exact agrees_of_decodeMany hmany z hz
    · cases ns with
      | nil =>
        cases hmany
        rcases misread hx hitem with ⟨flag, hmid⟩ | ⟨hfour, -⟩
        · exact absurd (congrArg length hmid) (by simp)
        · exact absurd hfour (by simp)
      | cons x' ns =>
        obtain ⟨y', mid', -, -, hnext, -⟩ := decodeMany_succ_eq_ok hmany
        exact absurd hnext (misread_next hx (by rw [flatMap_cons]; exact headed_encode x' _) hitem _)

theorem decodeMany_wrong_size {k : NotifyDeviceid4} {size : U32} (hsize : size ≠ k.size) (tail : List Byte)
    {ys : List CbDeviceNotifyItem} {rest : List Byte} (m : Nat) : ∀ ns : List DeviceNotification,
    decodeMany decodeDeviceNotifyItem (ns.length + (m + 1))
      (ns.flatMap encode ++ (bytes32 1 ++ (bytes32 k.type ++ (bytes32 size ++ tail)))) ≠ .ok (ys, rest)
  | [], h => by
    obtain ⟨y, mid, -, -, hitem, -⟩ := decodeMany_succ_eq_ok h
    obtain ⟨-, k', htype, hsize'⟩ := decodeDeviceNotifyItem_header hitem
    rw [flatMap_nil, nil_append] at htype hsize'
    rw [word_append (i := 1) (length_bytes32 1)] at htype
    rw [← append_assoc (bytes32 1), word_append (i := 2) (by simp)] at hsize'
    cases k <;> cases k' <;> first | exact hsize hsize' | cases htype
  | x :: ns, h => by
    rw [length_cons, Nat.succ_add] at h
    obtain ⟨y, mid, zs, -, hitem, hmany⟩ := decodeMany_succ_eq_ok h
    rw [flatMap_cons, append_assoc] at hitem
    by_cases hx : x.Agrees
    · rw [reads_encode hx] at hitem
      cases hitem
      exact decodeMany_wrong_size hsize tail m ns hmany
    · have hheaded : Headed (ns.flatMap encode ++ (bytes32 1 ++ (bytes32 k.type ++ (bytes32 size ++ tail)))) := by
        cases ns with
        | nil => exact ⟨k, _, rfl⟩
        | cons x' ns =>
          rw [flatMap_cons, append_assoc]
          exact headed_encode x' _
      obtain ⟨y', mid', -, -, hnext, -⟩ := decodeMany_succ_eq_ok hmany
      exact misread_next hx hheaded hitem _ hnext

/-- A list of notifications is decoded as sent, with its bytes consumed, just if the layout type asks for a flag where
    the notify type has one; a wrong size is always rejected. -/
theorem decodeDevicenotifyArgs_roundTrip_iff (ns : List DeviceNotification) (hlen : ns.length < 2 ^ 32) :
    ((∀ env rest, env.canAlloc ns.length →
        decodeDevicenotifyArgs env (encodeDevicenotify ns ++ rest) = .ok (.devicenotify (ns.map item), rest)) ↔
      ∀ x ∈ ns, x.Agrees) ∧
    ∀ (env : DecodeEnv) (n size : U32) (k : NotifyDeviceid4) (tail : List Byte), ns.length < n.toNat → size ≠ k.size →
      ∃ err, decodeDevicenotifyArgs env (bytes32 n ++ (ns.flatMap encode ++
        (bytes32 1 ++ (bytes32 k.type ++ (bytes32 size ++ tail))))) = .error err := by
  have hcount : (BitVec.ofNat 32 ns.length).toNat = ns.length := by
    rw [BitVec.toNat_ofNat, Nat.mod_eq_of_lt hlen]
  refine ⟨⟨fun h => ?_, fun hagrees env rest halloc => ?_⟩, fun env n size k tail hn hsize => ?_⟩
  · rcases Nat.eq_zero_or_pos ns.length with hzero | hpos
    · exact fun x hx => absurd (length_pos_of_mem hx) (by omega)
    · have hd := h ⟨fun _ => true, {}, {}, ⟨1, 0⟩, 0⟩ [] rfl
      rw [encodeDevicenotify, append_assoc, decodeDevicenotifyArgs_count _ _ _ (by rwa [hcount]), hcount,
        if_pos rfl, append_nil] at hd
      obtain ⟨ys, mid, hmany, hpure⟩ := bind_eq_ok hd
      cases hpure
      exact agrees_of_decodeMany hmany
  · rcases Nat.eq_zero_or_pos ns.length with hzero | hpos
    · obtain rfl := length_eq_zero_iff.mp hzero
      rfl
    · rw [encodeDevicenotify, append_assoc, decodeDevicenotifyArgs_count _ _ _ (by rwa [hcount]), hcount,
        if_pos halloc, bind_of_ok (reads_devicenotify hagrees rest)]
      rfl
  · rw [decodeDevicenotifyArgs_count _ _ _ (by omega)]
    split
    · obtain ⟨m, hm⟩ : ∃ m, n.toNat = ns.length + (m + 1) := ⟨n.toNat - ns.length - 1, by omega⟩
      rw [hm]
      cases hd : (decodeMany decodeDeviceNotifyItem (ns.length + (m + 1)) >>= fun devs =>
          (pure (.devicenotify devs) : Decoder CbArgs))
          (ns.flatMap encode ++ (bytes32 1 ++ (bytes32 k.type ++ (bytes32 size ++ tail)))) with
      | error err => exact ⟨err, rfl⟩
      | ok r =>
        obtain ⟨ys, mid, hmany, -⟩ := bind_eq_ok hd
        exact absurd hmany (decodeMany_wrong_size hsize tail m ns)
    · exact ⟨_, rfl⟩

theorem decodeDevicenotifyArgs_roundTrip_delete : decodeDevicenotifyArgs ⟨fun _ => true, {}, {}, ⟨1, 0⟩, 64⟩
      (encodeDevicenotify [⟨.delete, 1, replicate 16 7, rfl⟩]) =
        .ok (.devicenotify [⟨4, 1, replicate 16 7, 0⟩], []) :=
  (decodeDevicenotifyArgs_roundTrip_iff [⟨.delete, 1, replicate 16 7, rfl⟩] (by decide)).1.mpr
    (by decide) _ [] rfl

/-- A change of a file layout's device loses its flag; after a deletion with layout type 2 a flag is missed. -/
theorem decodeDevicenotifyArgs_misread : decodeDevicenotifyArgs ⟨fun _ => true, {}, {}, ⟨1, 0⟩, 64⟩
      (encodeDevicenotify [⟨.change true, 1, replicate 16 7, rfl⟩]) =
        .ok (.devicenotify [⟨2, 1, replicate 16 7, 0⟩], bytes32 1) ∧
    decodeDevicenotifyArgs ⟨fun _ => true, {}, {}, ⟨1, 0⟩, 64⟩
      (encodeDevicenotify [⟨.delete, 2, replicate 16 7, rfl⟩]) = .error Nfs4err.badxdr := by
  constructor <;> rfl

end Mynfs
