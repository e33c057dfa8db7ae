import Mathlib.Data.BitVec
import Mathlib.Tactic

/-! XDR streams of bytes. A decoder consumes the front of the input or fails with a code, `inlineDecode` gives a view
    and reads zero beyond the end, and an encoder has a bounded number of free words. -/

namespace Xdr

abbrev Byte := BitVec 8

/-- The big-endian word at the front of a view. -/
def be32 : List Byte → BitVec 32
  | a :: b :: c :: d :: _ => a ++ b ++ c ++ d
  | _ => 0

def word (view : List Byte) (i : Nat) : BitVec 32 := be32 (view.drop (4 * i))

/-- The big-endian double word at word index `i` of a view. -/
def hyper (view : List Byte) (i : Nat) : BitVec 64 := word view i ++ word view (i + 1)

/-- `n` bytes rounded up to whole words. -/
def padded (n : Nat) : Nat := (n + 3) / 4 * 4

abbrev Decoder := StateT (List Byte) (Except Nat)

/-- Consume `n` bytes, or fail with `err` if the input has fewer. -/
def inlineDecode (n : Nat) (err : Nat) : Decoder (List Byte) := fun input =>
  if padded n ≤ input.length then .ok (input, input.drop (padded n)) else .error err

def require (ok : Bool) (err : Nat) : Decoder Unit := fun input => if ok then .ok ((), input) else .error err

def decodeMany {α : Type} (item : Decoder α) : Nat → Decoder (List α)
  | 0 => pure []
  | n + 1 => do
    let x ← item
    let xs ← decodeMany item n
    pure (x :: xs)

variable {rest input pre view : List Byte} {α β : Type} {i n err : Nat}

theorem bind_of_ok {d : Decoder α} {f : α → Decoder β} {x : α} (h : d input = .ok (x, rest)) : (d >>= f) input = f x rest := by
  simp [bind, StateT.bind, Except.bind, h]

theorem bind_eq_ok {d : Decoder α} {f : α → Decoder β} {y : β}
    (h : (d >>= f) input = .ok (y, rest)) : ∃ x mid, d input = .ok (x, mid) ∧ f x mid = .ok (y, rest) := by
  cases hd : d input with
  | error err => simp [bind, StateT.bind, Except.bind, hd] at h
  | ok r => exact ⟨r.1, r.2, rfl, (bind_of_ok hd).symm.trans h⟩

/-- Every error of the decoder satisfies `P`. -/
def FailsWith {α : Type} (P : Nat → Prop) (d : Decoder α) : Prop := ∀ input err, d input = .error err → P err

section
variable {P : Nat → Prop}

theorem failsWith_inlineDecode {n : Nat} (h : P err) : FailsWith P (inlineDecode n err) := fun input e he => by
  unfold inlineDecode at he
  split at he
  · cases he
  · cases he
    exact h

theorem failsWith_require {ok : Bool} (h : P err) : FailsWith P (require ok err) := fun input e he => by
  unfold require at he
  split at he
  · cases he
  · cases he
    exact h

theorem FailsWith.pure (x : α) : FailsWith P (pure x : Decoder α) := fun _ _ he => by cases he

theorem FailsWith.bind {d : Decoder α} {f : α → Decoder β} (hd : FailsWith P d) (hf : ∀ x, FailsWith P (f x)) :
    FailsWith P (d >>= f) := fun input e he => by
  cases hr : d input with
  | error e' =>
    have : (d >>= f) input = .error e' := by simp [Bind.bind, StateT.bind, Except.bind, hr]
    obtain rfl := Except.error.inj (this.symm.trans he)
    exact hd input e' hr
  | ok r =>
    exact hf r.1 r.2 e ((bind_of_ok hr).symm.trans he)

/-- A list fails only as its items do. -/
theorem failsWith_decodeMany {item : Decoder α} (h : FailsWith P item) : ∀ n, FailsWith P (decodeMany item n)
  | 0 => .pure []
  | n + 1 => h.bind fun _ => (failsWith_decodeMany h n).bind fun _ => .pure _

end

def bytes32 (w : BitVec 32) : List Byte :=
  [w.extractLsb' 24 8, w.extractLsb' 16 8, w.extractLsb' 8 8, w.extractLsb' 0 8]

def bytes64 (w : BitVec 64) : List Byte := bytes32 (w.extractLsb' 32 32) ++ bytes32 (w.extractLsb' 0 32)

@[simp] theorem length_bytes32 (w : BitVec 32) : (bytes32 w).length = 4 := rfl

@[simp] theorem length_bytes64 (w : BitVec 64) : (bytes64 w).length = 8 := rfl

@[simp] theorem be32_bytes32 (w : BitVec 32) (rest : List Byte) : be32 (bytes32 w ++ rest) = w := by
  show w.extractLsb' 24 8 ++ w.extractLsb' 16 8 ++ w.extractLsb' 8 8 ++ w.extractLsb' 0 8 = w
  ext i hi
  grind

theorem word_append {w : BitVec 32} (hpre : pre.length = 4 * i) : word (pre ++ (bytes32 w ++ rest)) i = w := by
  unfold word
  rw [← hpre, List.drop_left, be32_bytes32]

theorem hyper_append {w : BitVec 64} (hpre : pre.length = 4 * i) : hyper (pre ++ (bytes64 w ++ rest)) i = w := by
  have hhi : word (pre ++ (bytes64 w ++ rest)) i = w.extractLsb' 32 32 := by
    rw [bytes64, List.append_assoc, word_append hpre]
  have hlo : word (pre ++ (bytes64 w ++ rest)) (i + 1) = w.extractLsb' 0 32 := by
    rw [bytes64, List.append_assoc, ← List.append_assoc pre]
    exact word_append (by rw [List.length_append, hpre, length_bytes32]; omega)
  unfold hyper
  ext j hj
  grind

theorem word_bytes32_append (w : BitVec 32) (rest : List Byte) : word (bytes32 w ++ rest) 0 = w := be32_bytes32 w rest

theorem hyper_bytes64_append (w : BitVec 64) (rest : List Byte) : hyper (bytes64 w ++ rest) 0 = w :=
  @hyper_append rest [] 0 w rfl

theorem inlineDecode_append (hpre : pre.length = padded n) : inlineDecode n err (pre ++ rest) = .ok (pre ++ rest, rest) := by
  unfold inlineDecode
  rw [if_pos (by rw [List.length_append]; omega), ← hpre, List.drop_left]

theorem inlineDecode_bind_append {g : List Byte → Decoder β} (pre : List Byte)
    (hpre : pre.length = padded n) : (inlineDecode n err >>= g) (pre ++ rest) = g (pre ++ rest) rest :=
  bind_of_ok (inlineDecode_append hpre)

theorem be32_take (h : 4 ≤ n) : be32 (view.take n) = be32 view := by
  obtain ⟨m, rfl⟩ := Nat.exists_eq_add_of_le' h
  rcases view with _ | ⟨a, _ | ⟨b, _ | ⟨c, _ | ⟨d, view⟩⟩⟩⟩ <;> simp [be32]

theorem word_take (h : 4 * (i + 1) ≤ n) : word (view.take n) i = word view i := by
  unfold word
  rw [List.drop_take, be32_take (by omega)]

theorem word_append_left (h : 4 * (i + 1) ≤ pre.length) : word (pre ++ rest) i = word pre i := by
  rw [← word_take (le_refl (4 * (i + 1))), List.take_append_of_le_length h, word_take le_rfl]

theorem padded_of_dvd (h : 4 ∣ n) : padded n = n := by
  unfold padded
  omega

section
variable {ε : Type} {d item : Decoder α} {f : α → Decoder β} {x : α} {y : β} {pre' : List Byte} {ok : Bool}

theorem inlineDecode_bind (g : List Byte → Decoder β) (input : List Byte) : (inlineDecode n err >>= g) input =
      if padded n ≤ input.length then g input (input.drop (padded n)) else .error err := by
  simp only [bind, StateT.bind, inlineDecode]
  split <;> rfl

theorem require_bind (g : Unit → Decoder β) (input : List Byte) :
    (require ok err >>= g) input = if ok then g () input else .error err := by
  simp only [bind, StateT.bind, require]
  split <;> rfl

/-- The decoder consumes exactly these bytes and gives this value, whatever follows them. -/
def Reads (d : Decoder α) (pre : List Byte) (x : α) : Prop := ∀ rest, d (pre ++ rest) = .ok (x, rest)

theorem reads_pure (x : α) : Reads (pure x) [] x := fun _ => rfl

theorem Reads.bind (hd : Reads d pre x) (hf : Reads (f x) pre' y) : Reads (d >>= f) (pre ++ pre') y := fun rest => by
  rw [List.append_assoc, bind_of_ok (hd _), hf]

/-- A decoder that gets a view of the input reads as much as it takes from there. -/
theorem reads_inlineDecode_bind {g : List Byte → Decoder β} (hpre : pre.length = padded n)
    (hg : ∀ tail, Reads (g (pre ++ tail)) pre' y) : Reads (inlineDecode n err >>= g) (pre ++ pre') y := fun rest => by
  rw [List.append_assoc, bind_of_ok (inlineDecode_append hpre), hg]

/-- A list reads back if its items do. -/
theorem reads_decodeMany {γ : Type} {enc : γ → List Byte} {val : γ → α} : ∀ {xs : List γ},
    (∀ x ∈ xs, Reads item (enc x) (val x)) → Reads (decodeMany item xs.length) (xs.flatMap enc) (xs.map val)
  | [], _ => reads_pure []
  | x :: xs, h => by
    have hxs := reads_decodeMany fun y hy => h y (List.mem_cons_of_mem _ hy)
    have hread : Reads (item >>= fun y => decodeMany item xs.length >>= fun ys => pure (y :: ys))
        (enc x ++ (xs.flatMap enc ++ [])) (val x :: xs.map val) :=
      (h x List.mem_cons_self).bind (hxs.bind (reads_pure _))
    rwa [List.append_nil] at hread

theorem decodeMany_succ_eq_ok {rest : List Byte} {ys : List α} (h : decodeMany item (n + 1) input = .ok (ys, rest)) :
    ∃ y mid zs, ys = y :: zs ∧ item input = .ok (y, mid) ∧ decodeMany item n mid = .ok (zs, rest) := by
  obtain ⟨y, mid, hitem, htail⟩ := bind_eq_ok h
  obtain ⟨zs, last, hmany, hpure⟩ := bind_eq_ok htail
  cases hpure
  exact ⟨y, mid, zs, rfl, hitem, hmany⟩

theorem reads_require_bind {g : Unit → Decoder β} (hok : ok) (hg : Reads (g ()) pre y) :
    Reads (require ok err >>= g) pre y := fun rest => by
  rw [require_bind, if_pos hok, hg]

/-- The value depends on the bytes that are consumed only, in every environment. -/
def DeterminedAt (d : ε → Decoder α) (input : List Byte) : Prop :=
  ∀ env env' pre rest rest' x x', input = pre ++ rest → d env input = .ok (x, rest) →
    d env' (pre ++ rest') = .ok (x', rest') → x = x'

theorem determinedAt_of_reads {d : ε → Decoder α}
    (h : ∀ env pre rest x, input = pre ++ rest → d env input = .ok (x, rest) → ∀ env', Reads (d env') pre x) :
    DeterminedAt d input := by
  intro env env' pre rest rest' x x' hinput hd hd'
  have hsame := (h env pre rest x hinput hd env' rest').symm.trans hd'
  simpa using hsame

end

/-- The words written so far, and the number of words that still fit. -/
structure Out where
  words : List (BitVec 32)
  room : Nat
deriving DecidableEq

def Out.put (out : Out) (ws : List (BitVec 32)) : Option Out :=
  if ws.length ≤ out.room then some ⟨out.words ++ ws, out.room - ws.length⟩ else none

end Xdr
