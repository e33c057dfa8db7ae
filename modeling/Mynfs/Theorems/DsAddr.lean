import Mynfs.Layout.DsAddr

/-! Universal addresses. What `sscanf` scans of the port is not looked at, so that it may come from the stack, or be cut. -/

namespace Mynfs

open Kstrtox List Option
open BitVec (ofNat)

variable {c : UInt8} {s t before after addr portstr x y : List UInt8} {n a b : Nat}

theorem strrchr_eq_none_iff : strrchr c s = none ↔ c ∉ s := by
  induction s with
  | nil => simp [strrchr]
  | cons a s ih =>
    rw [strrchr, mem_cons, not_or, ← ih]
    cases hs : strrchr c s with
    | some p => simp
    | none => simp [eq_comm]

theorem strrchr_append (h : c ∉ t) (s : List UInt8) : strrchr c (s ++ t) = (strrchr c s).map fun p => (p.1, p.2 ++ t) := by
  induction s with
  | nil => exact strrchr_eq_none_iff.mpr h
  | cons a s ih =>
    simp only [cons_append, strrchr, ih]
    cases strrchr c s with
    | some p => rfl
    | none =>
      by_cases ha : a = c
      · simp only [map_none, if_pos ha, map_some]
      · simp only [map_none, if_neg ha]

theorem strrchr_cons (h : c ∉ after) : ∀ before, strrchr c (before ++ c :: after) = some (before, after)
  | [] => by simp only [nil_append, strrchr, strrchr_eq_none_iff.mpr h, if_true]
  | a :: before => by simp only [cons_append, strrchr, strrchr_cons h before]

theorem strrchr_eq_some (h : strrchr c s = some (before, after)) : s = before ++ c :: after ∧ c ∉ after := by
  induction s generalizing before with
  | nil => cases h
  | cons a s ih =>
    rw [strrchr] at h
    split at h
    next hs =>
      cases h
      obtain ⟨rfl, hafter⟩ := ih hs
      exact ⟨rfl, hafter⟩
    next hs =>
      split at h
      next ha =>
        cases h
        exact ⟨by rw [ha, nil_append], strrchr_eq_none_iff.mp hs⟩
      · cases h

theorem splitUaddr_eq_some (h : splitUaddr s = some (addr, portstr)) :
    ∃ x y, s = addr ++ 46 :: (x ++ 46 :: y) ∧ 46 ∉ x ∧ 46 ∉ y := by
  obtain ⟨⟨before, y⟩, hlast, hdash⟩ := bind_eq_some_iff.mp h
  obtain ⟨rfl, hy⟩ := strrchr_eq_some hlast
  rw [strrchr_append (by simpa using hy)] at hdash
  obtain ⟨⟨addr, x⟩, hfirst, heq⟩ := map_eq_some_iff.mp hdash
  cases heq
  obtain ⟨rfl, hx⟩ := strrchr_eq_some hfirst
  exact ⟨x, y, by simp, hx, hy⟩

theorem splitUaddr_dots (hx : 46 ∉ x) (hy : 46 ∉ y) (addr : List UInt8) :
    splitUaddr (addr ++ 46 :: (x ++ 46 :: y)) = some (addr, x ++ 45 :: y) := by
  refine bind_eq_some_iff.mpr ⟨(addr ++ 46 :: x, y), ?_, ?_⟩
  · rw [← cons_append, ← append_assoc]
    exact strrchr_cons hy _
  · rw [strrchr_append (by simpa using hy), strrchr_cons hx]
    rfl

theorem last_dots_inj {addr' x' y' : List UInt8} (h : addr ++ 46 :: (x ++ 46 :: y) = addr' ++ 46 :: (x' ++ 46 :: y')) (hx : 46 ∉ x)
    (hy : 46 ∉ y) (hx' : 46 ∉ x') (hy' : 46 ∉ y') : x = x' ∧ y = y' := by
  rw [← cons_append, ← append_assoc, ← cons_append, ← append_assoc] at h
  have hlast := (strrchr_cons hy (addr ++ 46 :: x)).symm.trans ((congrArg (strrchr 46) h).trans (strrchr_cons hy' _))
  obtain ⟨hbefore, rfl⟩ := Prod.mk.inj (some.inj hlast)
  have hfirst := (strrchr_cons hx addr).symm.trans ((congrArg (strrchr 46) hbefore).trans (strrchr_cons hx' _))
  exact ⟨(Prod.mk.inj (some.inj hfirst)).2, rfl⟩

def IsOctet (s : List UInt8) (n : Nat) : Prop := decimal? s = some n ∧ n ≤ 255

theorem IsOctet.no_byte (h : IsOctet s n) (hc : isDigit c = false) : c ∉ s := by
  obtain ⟨-, hdigits, -⟩ := decimal?_eq_some_iff.mp h.1
  intro hmem
  rw [hdigits c hmem] at hc
  cases hc

theorem IsOctet.no_nul (h : IsOctet s a) : 0 ∉ s := h.no_byte (by decide)

theorem IsOctet.no_dot (h : IsOctet s a) : 46 ∉ s := h.no_byte (by decide)

theorem no_nul_of_octets (haddr : 0 ∉ addr) (hx : IsOctet x a) (hy : IsOctet y b) : 0 ∉ addr ++ 46 :: (x ++ 46 :: y) := by
  simp [haddr, hx.no_nul, hy.no_nul]

theorem scanInt_octet (h : IsOctet s n) (ht : t = [] ∨ t = 45 :: y) : scanInt (s ++ t) = some (ofNat 32 n, t) := by
  obtain ⟨hne, hdigits, hvalue⟩ := decimal?_eq_some_iff.mp h.1
  obtain ⟨d, s', rfl⟩ := exists_cons_of_ne_nil hne
  have hd := isDigit_iff.mp (hdigits d mem_cons_self)
  have hspace : isSpace d = false := decide_eq_false (by omega)
  have hdash : d ≠ 45 := by
    rintro rfl
    exact absurd (hdigits 45 mem_cons_self) (by decide)
  have hparse : parseInteger 10 0 (d :: s' ++ t) = (n, t) := by
    rw [parseInteger_append 0 hdigits fun c hc => by have := isDigit_iff.mp (hdigits c hc); omega, ← hvalue]
    rcases ht with rfl | rfl <;> rfl
  have hdrop : (d :: s' ++ t).dropWhile isSpace = d :: s' ++ t := dropWhile_cons_of_neg (by rw [hspace]; nofun)
  have hhead : (d :: s' ++ t).head? = some d := rfl
  simp only [scanInt, hdrop, hhead, Option.some.injEq, if_neg hdash, any_some, hdigits d mem_cons_self, if_true, hparse]
  rfl

theorem scanPort_octets (hx : IsOctet x a) (hy : IsOctet y b) (tmp : U32 × U32) :
    scanPort (x ++ 45 :: y) tmp = (ofNat 32 a, ofNat 32 b) := by
  have hlast : scanInt y = some (ofNat 32 b, []) := by
    simpa using scanInt_octet hy (t := []) (y := []) (.inl rfl)
  simp only [scanPort, scanInt_octet hx (.inr rfl), hlast]

theorem port_octets (ha : a ≤ 255) (hb : b ≤ 255) : portOf (ofNat 32 a, ofNat 32 b) = ofNat 16 (a * 256 + b) := by
  apply BitVec.eq_of_toNat_eq
  have hor := Nat.shiftLeft_add_eq_or_of_lt (show b < 2 ^ 8 by omega) a
  rw [Nat.shiftLeft_eq] at hor
  simp only [portOf, BitVec.toNat_setWidth, BitVec.toNat_or, BitVec.toNat_shiftLeft, BitVec.toNat_ofNat, Nat.shiftLeft_eq]
  rw [Nat.mod_eq_of_lt (show a < 2 ^ 32 by omega), Nat.mod_eq_of_lt (show b < 2 ^ 32 by omega),
    Nat.mod_eq_of_lt (show a * 2 ^ 8 < 2 ^ 32 by omega), ← hor]

namespace DsAddrEnv

/-- The kernel's parser takes the address, as one of a family that is supported. -/
def Accepts (env : DsAddrEnv) (addr : List UInt8) : Prop := ∃ sa, env.rpcPton addr = some sa ∧ (familySep sa.ssFamily).isSome

section
variable (env : DsAddrEnv) (netid raddr : List UInt8)

/-- The strings are short enough, the transport is known and there is memory. -/
def Serves : Prop :=
  (netid.length ≤ xdrMaxNetobj ∧ env.dupNetid) ∧ (raddr.length ≤ uaddrMaxlen ∧ env.dupAddr) ∧
    env.allocAddr ∧ 0 ≤ env.xprtFindTransportIdent (cString netid)

/-- The string is an address and two octets, which denote the port. -/
def Denotes (env : DsAddrEnv) (raddr : List UInt8) (port : BitVec 16) : Prop :=
  ∃ addr x y a b, raddr = addr ++ 46 :: (x ++ 46 :: y) ∧ (0 ∉ addr ∧ env.Accepts addr) ∧ IsOctet x a ∧ IsOctet y b ∧
    port = BitVec.ofNat 16 (a * 256 + b)

/-- Exactly the strings that denote a port get an address, with that port, whatever the stack holds. -/
def Decodes : Prop :=
  (∀ tmp port, (∃ da, mynfs4DecodeMpDsAddr env tmp netid raddr = some da ∧ da.port = port) ↔ env.Denotes raddr port) ∧
    ∀ tmp tmp', mynfs4DecodeMpDsAddr env tmp netid raddr = mynfs4DecodeMpDsAddr env tmp' netid raddr

/-- Of the strings with two dots after an address, the ones with two octets there are those that can be served. -/
def OctetsServed : Prop :=
  ∀ addr x y, cString raddr = addr ++ 46 :: (x ++ 46 :: y) → 46 ∉ x → 46 ∉ y → env.Accepts addr →
    (env.Serves netid raddr ↔ 0 ∉ raddr ∧ (∃ a, IsOctet x a) ∧ ∃ b, IsOctet y b)

end

variable {env : DsAddrEnv} {tmp : U32 × U32} {netid raddr : List UInt8} {da : PnfsDsAddr}

theorem decode_eq_some_iff : mynfs4DecodeMpDsAddr env tmp netid raddr = some da ↔ env.Serves netid raddr ∧
    ∃ addr portstr sa sep, splitUaddr (cString raddr) = some (addr, portstr) ∧ env.rpcPton addr = some sa ∧
      familySep sa.ssFamily = some sep ∧ env.dsAddr (cString netid) addr sa sep (portOf (scanPort portstr tmp)) = da := by
  simp only [mynfs4DecodeMpDsAddr, Serves, bind_eq_bind, bind_eq_some_iff, guard_eq_some', exists_const, pure, Option.some.injEq]
  constructor
  · rintro ⟨hnetid, hraddr, ⟨addr, portstr⟩, hsplit, halloc, sa, hpton, sep, hsep, htransport, hda⟩
    exact ⟨⟨hnetid, hraddr, halloc, htransport⟩, addr, portstr, sa, sep, hsplit, hpton, hsep, hda⟩
  · rintro ⟨⟨hnetid, hraddr, halloc, htransport⟩, addr, portstr, sa, sep, hsplit, hpton, hsep, hda⟩
    exact ⟨hnetid, hraddr, (addr, portstr), hsplit, halloc, sa, hpton, sep, hsep, htransport, hda⟩

theorem Denotes.split {port : BitVec 16} (h : env.Denotes raddr port) : ∃ addr x y a b, 0 ∉ raddr ∧
    cString raddr = addr ++ 46 :: (x ++ 46 :: y) ∧ env.Accepts addr ∧ IsOctet x a ∧ IsOctet y b ∧
      port = ofNat 16 (a * 256 + b) := by
  obtain ⟨addr, x, y, a, b, rfl, ⟨haddr, haccepts⟩, hx, hy, hport⟩ := h
  have hnul := no_nul_of_octets haddr hx hy
  exact ⟨addr, x, y, a, b, hnul, cString_eq_self fun c hc => ne_of_mem_of_not_mem hc hnul, haccepts, hx, hy, hport⟩

theorem decode_octets {a b : Nat} {sa : Sockaddr} {sep : Nat × List UInt8 × List UInt8} (hserves : env.Serves netid raddr)
    (hraddr : cString raddr = addr ++ 46 :: (x ++ 46 :: y)) (hpton : env.rpcPton addr = some sa)
    (hsep : familySep sa.ssFamily = some sep) (hx : IsOctet x a) (hy : IsOctet y b) : mynfs4DecodeMpDsAddr env tmp netid raddr =
      some (env.dsAddr (cString netid) addr sa sep (ofNat 16 (a * 256 + b))) := by
  refine decode_eq_some_iff.mpr ⟨hserves, addr, x ++ 45 :: y, sa, sep, ?_, hpton, hsep, ?_⟩
  · rw [hraddr, splitUaddr_dots hx.no_dot hy.no_dot]
  · rw [scanPort_octets hx hy, port_octets hx.2 hy.2]

theorem OctetsServed.decode (h : env.OctetsServed netid raddr) (hda : mynfs4DecodeMpDsAddr env tmp netid raddr = some da) :
    env.Denotes raddr da.port ∧ ∀ tmp', mynfs4DecodeMpDsAddr env tmp' netid raddr = some da := by
  obtain ⟨hserves, addr, portstr, sa, sep, hsplit, hpton, hsep, -⟩ := decode_eq_some_iff.mp hda
  obtain ⟨x, y, hraddr, hx, hy⟩ := splitUaddr_eq_some hsplit
  have haccepts : env.Accepts addr := ⟨sa, hpton, isSome_of_eq_some hsep⟩
  obtain ⟨hnul, ⟨a, ha⟩, b, hb⟩ := (h addr x y hraddr hx hy haccepts).mp hserves
  obtain rfl : _ = da := some.inj ((decode_octets hserves hraddr hpton hsep ha hb).symm.trans hda)
  have hself : cString raddr = raddr := cString_eq_self fun c hc => ne_of_mem_of_not_mem hc hnul
  rw [hself] at hraddr
  refine ⟨⟨addr, x, y, a, b, hraddr, ⟨fun hmem => hnul ?_, haccepts⟩, ha, hb, rfl⟩, fun tmp' => ?_⟩
  · rw [hraddr]
    exact mem_append_left _ hmem
  · exact decode_octets hserves (hself.trans hraddr) hpton hsep ha hb

/-- A string is decoded to the port that it denotes exactly if two octets follow the address whenever it can be served. -/
theorem decode_mp_ds_addr_exact (env : DsAddrEnv) (netid raddr : List UInt8) :
    env.Decodes netid raddr ↔ env.OctetsServed netid raddr := by
  constructor
  · rintro ⟨hport, -⟩ addr x y hraddr hx hy ⟨sa, hpton, hfamily⟩
    constructor
    · intro hserves
      obtain ⟨sep, hsep⟩ := isSome_iff_exists.mp hfamily
      have hsplit : splitUaddr (cString raddr) = some (addr, x ++ 45 :: y) := by rw [hraddr, splitUaddr_dots hx hy]
      have hsome : mynfs4DecodeMpDsAddr env (0, 0) netid raddr = some _ :=
        decode_eq_some_iff.mpr ⟨hserves, addr, _, sa, sep, hsplit, hpton, hsep, rfl⟩
      obtain ⟨addr', x', y', a, b, hnul, hraddr', -, ha, hb, -⟩ := ((hport (0, 0) _).mp ⟨_, hsome, rfl⟩).split
      obtain ⟨rfl, rfl⟩ := last_dots_inj (hraddr.symm.trans hraddr') hx hy ha.no_dot hb.no_dot
      exact ⟨hnul, ⟨a, ha⟩, b, hb⟩
    · rintro ⟨hnul, ⟨a, ha⟩, b, hb⟩
      rw [cString_eq_self fun c hc => ne_of_mem_of_not_mem hc hnul] at hraddr
      have haddr : 0 ∉ addr := fun hmem => hnul (hraddr ▸ mem_append_left _ hmem)
      obtain ⟨da, hda, -⟩ := (hport (0, 0) _).mpr ⟨addr, x, y, a, b, hraddr, ⟨haddr, sa, hpton, hfamily⟩, ha, hb, rfl⟩
      exact (decode_eq_some_iff.mp hda).1
  · intro h
    refine ⟨fun tmp port => ⟨?_, fun hdenotes => ?_⟩, fun tmp tmp' => ext fun da => ?_⟩
    · rintro ⟨da, hda, rfl⟩
      exact (h.decode hda).1
    · obtain ⟨addr, x, y, a, b, hnul, hraddr, haccepts, ha, hb, rfl⟩ := hdenotes.split
      have hserves := (h addr x y hraddr ha.no_dot hb.no_dot haccepts).mpr ⟨hnul, ⟨a, ha⟩, b, hb⟩
      obtain ⟨sa, hpton, hfamily⟩ := haccepts
      obtain ⟨sep, hsep⟩ := isSome_iff_exists.mp hfamily
      exact ⟨_, decode_octets hserves hraddr hpton hsep ha hb, rfl⟩
    · exact ⟨fun hda => (h.decode hda).2 tmp', fun hda => (h.decode hda).2 tmp⟩

/-- `1.2.3.4.x.y` gets the port that is left on the stack, and `1.2.3.4.300.1` one that only fits after it is cut. -/
theorem decode_mp_ds_addr_garbage : ∃ env : DsAddrEnv,
    (mynfs4DecodeMpDsAddr env (8, 1) [116, 99, 112] [49, 46, 50, 46, 51, 46, 52, 46, 120, 46, 121]).map PnfsDsAddr.port = some 2049 ∧
      (mynfs4DecodeMpDsAddr env (0, 22) [116, 99, 112] [49, 46, 50, 46, 51, 46, 52, 46, 120, 46, 121]).map PnfsDsAddr.port = some 22 ∧
      (mynfs4DecodeMpDsAddr env (0, 0) [116, 99, 112] [49, 46, 50, 46, 51, 46, 52, 46, 51, 48, 48, 46, 49]).map PnfsDsAddr.port
        = some 11265 ∧ ¬ env.Decodes [116, 99, 112] [49, 46, 50, 46, 51, 46, 52, 46, 120, 46, 121] := by
  refine ⟨{ rpcPton := fun s => if s = [49, 46, 50, 46, 51, 46, 52] then some ⟨2, [1, 2, 3, 4]⟩ else none
            xprtFindTransportIdent := fun _ => 6 }, by decide, by decide, by decide, fun h => ?_⟩
  exact absurd (congrArg (Option.map PnfsDsAddr.port) (h.2 (8, 1) (0, 22))) (by decide)

end DsAddrEnv

end Mynfs
