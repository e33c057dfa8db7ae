import Mynfs.Read.System
import Mathlib.Data.Nat.Bitwise

/-! What a buffered read writes to memory (`addr f j` is byte `j` of folio `f`), and what replies make of its header. -/

namespace Mynfs

open Scatter List
open BitVec (le_def ofNat toNat_add toNat_ofNat)

namespace PageCache
variable {shift n : Nat} {c : PageCache shift n} {f g : Fin n} {i j : Nat}

theorem div_lt_of_lt_size (h : j < c.size f) : j / 2 ^ shift < 2 ^ c.order f :=
  Nat.div_lt_of_lt_mul (by rwa [Nat.mul_comm])

/-- Two folios share no memory. -/
theorem addr_inj (hi : i < c.size f) (hj : j < c.size g) (h : c.addr f i = c.addr g j) : f = g ∧ i = j := by
  have hpage : c.head f + i / 2 ^ shift = c.head g + j / 2 ^ shift := (Prod.mk.inj h).1
  have hoff : i % 2 ^ shift = j % 2 ^ shift := (Prod.mk.inj h).2
  have hi' := div_lt_of_lt_size hi
  have hj' := div_lt_of_lt_size hj
  have hfg : f = g := by
    by_contra hne
    have hapart := c.apart f g hne
    generalize i / 2 ^ shift = p at hpage hi'
    generalize j / 2 ^ shift = q at hpage hj'
    omega
  subst hfg
  refine ⟨rfl, ?_⟩
  rw [← Nat.div_add_mod i (2 ^ shift), ← Nat.div_add_mod j (2 ^ shift), hoff, Nat.add_left_cancel hpage]

theorem folioZeroSegment_addr {mem : Page × Nat → UInt8} {start stop : Nat} (hstop : stop ≤ c.size f) (hj : j < c.size g) :
    c.folioZeroSegment f start stop mem (c.addr g j) =
      if g = f ∧ start ≤ j ∧ j < stop then 0 else mem (c.addr g j) := by
  split
  next hin =>
    obtain ⟨rfl, hle, hlt⟩ := hin
    refine scatter_of_unique (i := j - start) (by omega) (by rw [Nat.add_sub_cancel' hle]) fun k hk hk' => ?_
    have := (addr_inj (by omega) hj (Option.some.inj hk')).2
    omega
  next hout =>
    refine scatter_of_forall_ne fun k hk hk' => hout ?_
    obtain ⟨rfl, rfl⟩ := addr_inj (by omega) hj (Option.some.inj hk')
    omega

theorem size_pos : 0 < c.size f := Nat.mul_pos (Nat.two_pow_pos _) (Nat.two_pow_pos _)

theorem folioLength_le {iSize : Nat} : c.nfsFolioLength f iSize ≤ c.size f := by
  have hmod := Nat.mod_lt (iSize - 1) (size_pos (c := c) (f := f))
  unfold nfsFolioLength
  dsimp only
  split
  · split
    · exact le_rfl
    · split
      · exact hmod
      · exact Nat.zero_le _
  · exact Nat.zero_le _

theorem le_add_and_not (x m : U32) (h : x.toNat + m.toNat < 2 ^ 32) : x.toNat ≤ ((x + m) &&& ~~~m).toNat := by
  have hsplit : ((x + m) &&& m) + ((x + m) &&& ~~~m) = x + m := by
    rw [BitVec.add_eq_or_of_and_eq_zero, ← BitVec.and_or_distrib_left, BitVec.or_not_self, BitVec.and_allOnes]
    ext i
    simp +contextual
  have hmask : ((x + m) &&& m).toNat ≤ m.toNat := Nat.and_le_right
  have hsum := congrArg BitVec.toNat hsplit
  rw [toNat_add, toNat_add, Nat.mod_eq_of_lt h] at hsum
  omega

theorem le_alignedLen {len : Nat} (hlen : len ≤ c.size f) : len ≤ c.alignedLen f len := by
  have hsize := c.size_le f
  have hrsize := c.rsize_le
  have hpos := c.rsize_pos
  have hlt : len < 2 ^ 32 := by unfold size at hlen; omega
  have hmask : (c.rsize - 1).toNat = c.rsize.toNat - 1 := BitVec.toNat_sub_of_le (by simpa [le_def] using Nat.succ_le_of_lt hpos)
  have hnat : (ofNat 32 len).toNat = len := by rw [toNat_ofNat, Nat.mod_eq_of_lt hlt]
  have hle := le_add_and_not (ofNat 32 len) (c.rsize - 1) (by rw [hnat, hmask]; unfold size at hlen; omega)
  rw [hnat] at hle
  exact le_min hle hlen

end PageCache

theorem decodeRead_le (pageLen : Nat) (eof : Bool) (count avail : Nat) : (decodeRead pageLen eof count avail).1 ≤ pageLen := by
  unfold decodeRead xdrReadPages
  dsimp only
  split <;> omega

namespace ReadHeader
variable {hdr hdr' : ReadHeader} {o cnt : Nat} {b : UInt8} {bytes : Nat → UInt8} {eof : Bool}

section
variable (hdr : ReadHeader) (o : Nat)

/-- The server sent byte `b` for the file offset `o`, in a reply to the header. -/
def Delivered (b : UInt8) : Prop :=
  ∃ a ∈ hdr.answers, a.offset ≤ o ∧ o < a.offset + a.count ∧ a.bytes (o - a.offset) = b

/-- A reply to the header reported an end of file at `o` or before it. -/
def PastEof : Prop := ∃ a ∈ hdr.answers, a.eof ∧ a.offset + a.count ≤ o

/-- What may stand in memory for the file offset `o`: the server's byte, or zero from the end of the file on. -/
def Sent (b : UInt8) : Prop := hdr.Delivered o b ∨ hdr.PastEof o ∧ b = 0

end

theorem Delivered.mono (h : hdr.Delivered o b) (hsub : hdr.answers ⊆ hdr'.answers) : hdr'.Delivered o b := by
  obtain ⟨a, ha, hb⟩ := h
  exact ⟨a, hsub ha, hb⟩

theorem PastEof.mono (h : hdr.PastEof o) (hsub : hdr.answers ⊆ hdr'.answers) : hdr'.PastEof o := by
  obtain ⟨a, ha, hb⟩ := h
  exact ⟨a, hsub ha, hb⟩

theorem Sent.mono (h : hdr.Sent o b) (hsub : hdr.answers ⊆ hdr'.answers) : hdr'.Sent o b :=
  h.imp (·.mono hsub) fun ⟨heof, hb⟩ => ⟨heof.mono hsub, hb⟩

section
variable (hdr : ReadHeader)

/-- The call of the header asks for what is still missing of its bytes, and nothing has ended early. -/
structure Asks : Prop where
  start_le : hdr.ioStart ≤ hdr.args.offset
  stop : hdr.args.offset + hdr.args.count.toNat = hdr.ioStart + hdr.goodBytes
  count_pos : 0 < hdr.args.count.toNat
  good_lt : hdr.goodBytes < 2 ^ 32
  noEof : hdr.iohdrEof = false
  noError : hdr.iohdrError = false

/-- What the end of a call says. -/
structure Ended (total : Nat) : Prop where
  eof : hdr.iohdrEof → ∀ o, hdr.ioStart + hdr.goodBytes ≤ o → hdr.PastEof o
  error : hdr.iohdrError → hdr.error < 0
  full : hdr.iohdrEof = false → hdr.iohdrError = false → hdr.goodBytes = total

/-- A reply brings the first `m` bytes asked for. The call goes on behind them or ends with them. -/
structure Brings (bytes : Nat → UInt8) (m : Nat) (hdr' : ReadHeader) : Prop where
  pages : hdr'.pages = hdr.pages
  ioStart : hdr'.ioStart = hdr.ioStart
  answers : hdr.answers ⊆ hdr'.answers
  delivered : ∀ i < m, hdr'.Delivered (hdr.args.offset + i) (bytes i)
  next : hdr'.phase = .running ∧ hdr'.Asks ∧ hdr'.goodBytes = hdr.goodBytes ∧ hdr'.args.pages = hdr.args.pages ∧
      hdr'.args.offset = hdr.args.offset + m ∧ hdr'.args.pgbase = hdr.args.pgbase + m ∨
    hdr'.phase = .completing 0 ∧
      (hdr'.pnfsError ≠ 0 ∨ hdr'.Ended hdr.goodBytes ∧ hdr'.ioStart + hdr'.goodBytes = hdr.args.offset + m)

end

theorem Asks.sub_mod (h : hdr.Asks) {m : Nat} (hm : m ≤ hdr.args.count.toNat) :
    (hdr.args.offset + m - hdr.ioStart) % 2 ^ 32 = hdr.args.offset + m - hdr.ioStart :=
  Nat.mod_eq_of_lt (by have := h.start_le; have := h.stop; have := h.good_lt; omega)

theorem Asks.nfsSetPgioError (h : hdr.Asks) {error : Int} (herror : error < 0)
    (hsame : hdr'.args = hdr.args ∧ hdr'.ioStart = hdr.ioStart ∧ hdr'.goodBytes = hdr.goodBytes ∧ hdr'.pages = hdr.pages ∧
      hdr'.iohdrError = hdr.iohdrError) (hsub : hdr.answers ⊆ hdr'.answers) :
    hdr.Brings bytes 0 (hdr'.nfsSetPgioError error hdr'.args.offset).ended := by
  obtain ⟨hargs, hstart, hgood, hpages, hflag⟩ := hsame
  have hmod := h.sub_mod (Nat.zero_le _)
  rw [Nat.add_zero] at hmod
  have hlt : hdr.args.offset - hdr.ioStart < hdr.goodBytes := by
    have := h.start_le; have := h.stop; have := h.count_pos; omega
  have hset : hdr'.nfsSetPgioError error hdr'.args.offset = { hdr' with
      goodBytes := hdr.args.offset - hdr.ioStart, iohdrEof := false, iohdrError := true, error := error } := by
    unfold ReadHeader.nfsSetPgioError
    rw [hargs, hstart, hgood, hmod, if_pos hlt, hflag, h.noError]
    rfl
  rw [hset]
  refine ⟨hpages, hstart, hsub, nofun, .inr ⟨rfl, .inr ⟨⟨nofun, fun _ => herror, nofun⟩, ?_⟩⟩⟩
  show hdr'.ioStart + (hdr.args.offset - hdr.ioStart) = hdr.args.offset + 0
  rw [hstart, Nat.add_sub_cancel' h.start_le, Nat.add_zero]

theorem delivered_of_mem {off i : Nat} (ha : ⟨off, cnt, eof, bytes⟩ ∈ hdr.answers)
    (hi : i < cnt) : hdr.Delivered (off + i) (bytes i) :=
  ⟨_, ha, Nat.le_add_right _ _, Nat.add_lt_add_left hi off, by rw [Nat.add_sub_cancel_left]⟩

variable {hdr₁ : ReadHeader}

variable (h : hdr.Asks)
include h

/-- A short read asks again for the rest. -/
theorem Asks.nfsReadpageRetry (hrun : hdr.phase = .running) (hshort : cnt < hdr.args.count.toNat)
    (heq : hdr₁ = { hdr with resCount := cnt, resEof := false, answers := ⟨hdr.args.offset, cnt, false, bytes⟩ :: hdr.answers }) :
    ∃ m, hdr.Brings bytes m hdr₁.nfsReadpageRetry := by
  have hsub : hdr.answers ⊆ hdr₁.answers := by rw [heq]; exact subset_cons_self _ _
  have hmem : ⟨hdr.args.offset, cnt, false, bytes⟩ ∈ hdr₁.answers := by rw [heq]; exact mem_cons_self
  have hcount : hdr₁.resCount = cnt := by rw [heq]
  unfold ReadHeader.nfsReadpageRetry
  split
  · refine ⟨0, h.nfsSetPgioError (by decide) ?_ hsub⟩
    rw [heq]
    exact ⟨rfl, rfl, rfl, rfl, rfl⟩
  · split
    · refine ⟨cnt, ?_, ?_, hsub, fun i hi => ?_, .inr ⟨rfl, .inl (show negErrno .eagain ≠ 0 by decide)⟩⟩
      · rw [heq]; rfl
      · rw [heq]; rfl
      · exact (delivered_of_mem hmem hi).mono (.refl _)
    · have hle : ofNat 32 cnt ≤ hdr.args.count := by
        rw [le_def, toNat_ofNat, Nat.mod_eq_of_lt (by omega)]
        exact hshort.le
      have hsubNat : (hdr.args.count - ofNat 32 cnt).toNat = hdr.args.count.toNat - cnt := by
        rw [BitVec.toNat_sub_of_le hle, toNat_ofNat, Nat.mod_eq_of_lt (by omega)]
      refine ⟨cnt, ?_, ?_, hsub, fun i hi => ?_, .inl ?_⟩
      · rw [heq]
      · rw [heq]
      · exact (delivered_of_mem hmem hi).mono (.refl _)
      · subst heq
        refine ⟨hrun, ⟨?_, ?_, ?_, h.good_lt, h.noEof, h.noError⟩, rfl, rfl, rfl, rfl⟩
        · exact h.start_le.trans (Nat.le_add_right _ _)
        · rw [hsubNat, Nat.add_assoc, Nat.add_sub_cancel' hshort.le]
          exact h.stop
        · rw [hsubNat]
          exact Nat.sub_pos_of_lt hshort

theorem Asks.ended_full (heof : hdr₁.iohdrEof = hdr.iohdrEof)
    (herror : hdr₁.iohdrError = hdr.iohdrError) (hgood : hdr₁.goodBytes = hdr.goodBytes) : hdr₁.Ended hdr.goodBytes := by
  rw [h.noEof] at heof
  rw [h.noError] at herror
  exact ⟨by simp [heof], by simp [herror], fun _ _ => hgood⟩

theorem Asks.nfsReadpageResult (hrun : hdr.phase = .running) (hcnt : cnt ≤ hdr.args.count.toNat)
    (heq : hdr₁ = { hdr with resCount := cnt, resEof := eof, answers := ⟨hdr.args.offset, cnt, eof, bytes⟩ :: hdr.answers }) :
    ∃ m, hdr.Brings bytes m hdr₁.nfsReadpageResult := by
  have hstart := h.start_le
  have hstop := h.stop
  unfold ReadHeader.nfsReadpageResult
  split
  next heof =>
    subst heq
    have hmem : ⟨hdr.args.offset, cnt, true, bytes⟩ ∈ (⟨hdr.args.offset, cnt, eof, bytes⟩ : ReadAnswer) :: hdr.answers := by
      rw [show eof = true from heof]
      exact mem_cons_self
    dsimp only
    rw [h.sub_mod hcnt]
    split
    next hlt =>
      refine ⟨cnt, rfl, rfl, subset_cons_self _ _, fun i hi => delivered_of_mem hmem hi, .inr ⟨rfl, .inr ⟨?_, ?_⟩⟩⟩
      · refine ⟨fun _ o ho => ⟨_, hmem, rfl, ?_⟩, nofun, nofun⟩
        have ho' : hdr.ioStart + (hdr.args.offset + cnt - hdr.ioStart) ≤ o := ho
        show hdr.args.offset + cnt ≤ o
        omega
      · show hdr.ioStart + (hdr.args.offset + cnt - hdr.ioStart) = hdr.args.offset + cnt
        omega
    next hge =>
      -- the file ends with the last byte asked for, or after it
      have hfull : hdr.ioStart + hdr.goodBytes = hdr.args.offset + cnt := by
        omega
      refine ⟨cnt, rfl, rfl, subset_cons_self _ _, fun i hi => delivered_of_mem hmem hi, .inr ⟨rfl, .inr ⟨?_, hfull⟩⟩⟩
      exact h.ended_full rfl rfl rfl
  next heof =>
    have hfalse : eof = false := by
      rw [heq] at heof
      exact Bool.eq_false_iff.mpr heof
    subst hfalse
    split
    next hshort =>
      refine h.nfsReadpageRetry hrun ?_ heq
      rw [heq] at hshort
      exact hshort
    next hfull =>
      subst heq
      have hfull' : cnt = hdr.args.count.toNat := Nat.le_antisymm hcnt (not_lt.mp hfull)
      refine ⟨cnt, rfl, rfl, subset_cons_self _ _, fun i hi => delivered_of_mem mem_cons_self hi, .inr ⟨rfl, .inr ⟨?_, ?_⟩⟩⟩
      · exact h.ended_full rfl rfl rfl
      · show hdr.ioStart + hdr.goodBytes = hdr.args.offset + cnt
        omega

/-- What any reply makes of a header that waits for it. -/
theorem Asks.nfsPgioResult (hrun : hdr.phase = .running) (rep : ReadReply) :
    ∃ m, hdr.Brings rep.bytes m (hdr.nfsPgioResult rep) := by
  unfold ReadHeader.nfsPgioResult
  cases rep.outcome with
  | restarted =>
    exact ⟨0, rfl, rfl, .refl _, nofun, .inl ⟨hrun, h, rfl, rfl, rfl, rfl⟩⟩
  | failed tkStatus =>
    exact ⟨0, h.nfsSetPgioError tkStatus.property ⟨rfl, rfl, rfl, rfl, rfl⟩ (.refl _)⟩
  | result eof count avail => exact h.nfsReadpageResult hrun (decodeRead_le _ _ _ _) rfl

end ReadHeader

end Mynfs
