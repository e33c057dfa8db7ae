import Mynfs.Theorems.DirListing

/-! `telldir` and `seekdir`: in the cookie mode the position after an entry is its cookie, which leads back there. -/

namespace Mynfs

open List

namespace Directory
variable {dir : Directory} {useCookie : Bool} {i j k : Nat}

theorem posAt_inj (hi : i ≤ dir.entries.length) (hj : j ≤ dir.entries.length) (h : dir.posAt useCookie i = dir.posAt useCookie j) :
    i = j := by
  cases useCookie with
  | true => exact cookieAt_inj hi hj (BitVec.eq_of_toInt_eq h)
  | false => exact Int.ofNat_inj.mp h

theorem posAt_nonneg (hsmall : ∀ e ∈ dir.entries, e.cookie.toNat < 2 ^ 63) (hk : k ≤ dir.entries.length) :
    0 ≤ dir.posAt useCookie k := by
  cases useCookie with
  | false => exact Int.natCast_nonneg k
  | true =>
    have hlt : (dir.cookieAt k).toNat < 2 ^ 63 := by
      cases k with
      | zero => exact (by decide : (0 : U64).toNat < 2 ^ 63)
      | succ k =>
        rw [cookieAt_succ (getElem?_eq_getElem hk)]
        exact hsmall _ (getElem_mem hk)
    show 0 ≤ (dir.cookieAt k).toInt
    rw [BitVec.toInt_eq_toNat_of_lt (by omega)]
    exact Int.natCast_nonneg _

end Directory

namespace OpenDir
variable {dir : Directory} {useCookie : Bool} {s t : OpenDir} {k j : Nat}

theorem Lists.positions (h : s.Lists dir useCookie True 0 [] k) :
    s.emitted.map (·.2) = (range' 1 k).map (dir.posAt useCookie) := by
  obtain ⟨-, new, hnew, -, hpos⟩ := h.emits
  rw [hnew, nil_append, hpos trivial, Nat.sub_zero]

theorem rests_seekTo (h : s.Rests dir useCookie True k) (hj : j ≤ dir.entries.length) (hpos : 0 < j) :
    Rests dir useCookie False (s.seekTo useCookie (dir.posAt useCookie j)) j := by
  unfold seekTo
  split
  next hsame =>
    obtain rfl := Directory.posAt_inj hj h.inside (hsame.trans (h.told trivial))
    exact ⟨hj, False.elim, h.eof, h.cursor⟩
  · refine ⟨hj, False.elim, nofun, fun _ => ?_⟩
    cases useCookie with
    | true =>
      have hcookie : BitVec.ofInt 64 (dir.posAt true j) = dir.cookieAt j := BitVec.ofInt_toInt
      exact ⟨j, le_rfl, hj, hcookie, .inl ⟨hpos, hcookie⟩, False.elim⟩
    | false => exact ⟨0, Nat.zero_le j, hj, rfl, .inr ⟨rfl, rfl, rfl, nofun⟩, False.elim⟩

section
variable (offset : Int)

@[simp] theorem cache_seekTo : (s.seekTo useCookie offset).cache = s.cache := by
  unfold seekTo
  split <;> rfl

@[simp] theorem emitted_seekTo : (s.seekTo useCookie offset).emitted = s.emitted := by
  unfold seekTo
  split <;> rfl

@[simp] theorem call_seekTo : (s.seekTo useCookie offset).call = s.call := by
  unfold seekTo
  split <;> rfl

end

theorem Lists.seekTo (h : s.Lists dir useCookie True 0 [] k) (hidle : s.call = none) (hj : j < dir.entries.length) :
    Lists dir useCookie False (j + 1) s.emitted (s.seekTo useCookie (dir.posAt useCookie (j + 1))) (j + 1) where
  paged := by rw [cache_seekTo]; exact h.paged
  emits := by rw [emitted_seekTo]; exact .refl _ _
  rests _ := rests_seekTo (h.rests hidle) hj (Nat.succ_pos j)
  reads call hsome := by
    rw [call_seekTo, hidle] at hsome
    cases hsome

theorem lists_of_exec {cache : DirCache} {verf : U64} {events : List DirEvent} (hpaged : dir.Paged cache)
    (hseek : ∀ e ∈ events, ¬IsSeek e)
    (hguard : Machine.Along (step dir useCookie) (FromFirstPage useCookie) { cache := cache, cookieverf := verf } events)
    (hrun : Machine.exec (step dir useCookie) { cache := cache, cookieverf := verf } events = some s) :
    ∃ k, s.Lists dir useCookie True 0 [] k := by
  obtain ⟨k, -, h⟩ := lists_exec hseek (fun _ => hguard) (lists_open verf hpaged) hrun
  exact ⟨k, h⟩

theorem Lists.head_getdents {pre : List (Dirent × Int)} (h : s.Lists dir useCookie False j pre j) (hcall : s.call = none) {g : Getdents}
    (hroom : 0 < g.room) : (∃ u, Calls dir useCookie s [g] u) ∧ ∀ u, Calls dir useCookie s [g] u →
      ∃ new, u.emitted = pre ++ new ∧ (new.map (·.1)).head? = (dir.entries[j]?).map (·.dirent) := by
  obtain ⟨m, t, hrun, k, hnone, hlists, hle, hmore⟩ := h.getdents hcall False.elim g
  refine ⟨⟨t, m, t, hrun, hnone, rfl⟩, ?_⟩
  rintro u ⟨m', _, hrun', hnone', rfl⟩
  obtain rfl := exec_events_unique hrun hnone hrun' hnone'
  obtain ⟨-, new, hnew, hdirents, -⟩ := hlists.emits
  refine ⟨new, hnew, ?_⟩
  have hrests := hlists.rests hnone
  rw [hdirents, head?_map, head?_take, head?_drop]
  split
  next hzero =>
    -- nothing was emitted, so there is nothing left
    have heof := (hmore hroom).resolve_left (by omega)
    have hend := hrests.eof heof
    rw [getElem?_eq_none (by omega)]
  · rfl

/-- Positions after entries differ from each other, and a seek to one of them leads to the entry that follows. -/
theorem nfsLlseekDir_resumes (dir : Directory) (useCookie : Bool) (cache : DirCache) (verf : U64) (events : List DirEvent) (s : OpenDir)
    (hpaged : dir.Paged cache) (hsmall : ∀ e ∈ dir.entries, e.cookie.toNat < 2 ^ 63) (hseek : ∀ e ∈ events, ¬IsSeek e)
    (hguard : Machine.Along (step dir useCookie) (FromFirstPage useCookie) { cache := cache, cookieverf := verf } events)
    (hrun : Machine.exec (step dir useCookie) { cache := cache, cookieverf := verf } events = some s) (hidle : s.call = none) :
    (s.emitted.map (·.2)).Nodup ∧
    ∀ (i : Nat) (pos : Int), (s.emitted.map (·.2))[i]? = some pos → ∀ g : Getdents, 0 < g.room →
      ∃ t, step dir useCookie s (.llseek pos false) = some t ∧ (∃ u, Calls dir useCookie t [g] u) ∧
        ∀ u, Calls dir useCookie t [g] u →
          ∃ new, u.emitted = s.emitted ++ new ∧ (new.map (·.1)).head? = (dir.entries[i + 1]?).map (·.dirent) := by
  obtain ⟨k, h⟩ := lists_of_exec hpaged hseek hguard hrun
  have hrests := h.rests hidle
  have hinside := hrests.inside
  rw [h.positions]
  refine ⟨List.Nodup.map_on (fun x hx y hy hxy => ?_) nodup_range', fun i pos hpos g hroom => ?_⟩
  · rw [mem_range'_1] at hx hy
    exact Directory.posAt_inj (by omega) (by omega) hxy
  · rw [getElem?_map, Option.map_eq_some_iff] at hpos
    obtain ⟨j, hj, rfl⟩ := hpos
    obtain ⟨hi, rfl⟩ := List.getElem?_eq_some_iff.mp hj
    simp only [length_range'] at hi
    rw [getElem_range', Nat.one_mul, Nat.add_comm]
    have hstep : step dir useCookie s (.llseek (dir.posAt useCookie (i + 1)) false) =
        some (s.seekTo useCookie (dir.posAt useCookie (i + 1))) := by
      have hnn : 0 ≤ dir.posAt useCookie (i + 1) := Directory.posAt_nonneg hsmall (by omega)
      simp [step, hidle, hnn]
    exact ⟨_, hstep, (h.seekTo hidle (by omega)).head_getdents (by rw [call_seekTo, hidle]) hroom⟩

/-- One call lists both entries; a seek to the position after the first one leads to the second. -/
theorem nfsLlseekDir_resumes_twoEntries :
    ∃ s t, Machine.exec (step twoEntries true) {} [.readdir 9 false, .iterate ⟨⟨1, true⟩, []⟩] = some s ∧
      s.emitted.map (·.2) = [9, 4] ∧ step twoEntries true s (.llseek 9 false) = some t ∧
      ∀ u, Calls twoEntries true t [{ room := 1, envs := fun _ => ⟨⟨0, true⟩, []⟩ }] u →
        ∃ new, u.emitted = s.emitted ++ new ∧ (new.map (·.1)).head? = some ⟨[98], 2, 8⟩ := by
  have hend : (Machine.exec (step twoEntries true) {} [.readdir 9 false, .iterate ⟨⟨1, true⟩, []⟩]).map
      (fun s => (s.call, s.emitted.map (·.2))) = some (none, [9, 4]) := by
    decide +kernel
  obtain ⟨s, hrun, hs⟩ := Option.map_eq_some_iff.mp hend
  obtain ⟨hidle, hpos⟩ := Prod.mk.inj hs
  obtain ⟨-, hseek⟩ := nfsLlseekDir_resumes twoEntries true (fun _ => none) 0 _ s Directory.paged_empty (by decide)
    (by simp [IsSeek]) (by decide +kernel) hrun hidle
  obtain ⟨t, ht, -, hnext⟩ := hseek 0 9 (by rw [hpos]; rfl) { room := 1, envs := fun _ => ⟨⟨0, true⟩, []⟩ } Nat.one_pos
  exact ⟨s, t, hrun, hpos, ht, hnext⟩

def longDirectory : Directory where
  entries := (range 130).map fun i =>
    ⟨BitVec.ofNat 64 (i + 1), ⟨[UInt8.ofNat (97 + i / 26), UInt8.ofNat (97 + i % 26)], BitVec.ofNat 64 (i + 1), 8⟩⟩
  cookies_nodup := by decide +kernel
  cookies_nonzero := by decide +kernel
  changeAttr := 7
  verf := 1
  hash64 := fun cookie => cookie.toNat
  maxentries := 127
  maxentries_pos := twoEntries.maxentries_pos

def threeCalls : List DirEvent :=
  [.readdir 1000 false, .iterate ⟨⟨200, true⟩, []⟩, .readdir 109 false, .iterate ⟨⟨0, true⟩, []⟩, .iterate ⟨⟨200, true⟩, []⟩,
    .readdir 1 false, .iterate ⟨⟨0, true⟩, []⟩]

/-- In the index mode the entry at index 128 leaves the same position as the one at index 1. -/
theorem nfsLlseekDir_goes_back : (Machine.exec (step longDirectory false) {} threeCalls).map
        (fun s => (s.call, s.emitted.length, (s.emitted[1]?).map (·.2), (s.emitted[128]?).map (·.2))) =
      some (none, 129, some 2, some 2) ∧ (Machine.exec (step longDirectory false) {}
        (threeCalls ++ [.llseek 0 false, .llseek 2 false, .readdir 1 false, .iterate ⟨⟨0, true⟩, []⟩])).map
        (fun s => (s.call, s.emitted.length, (s.emitted[129]?).map (·.1))) =
      some (none, 130, (longDirectory.entries[2]?).map (·.dirent)) := by
  decide +kernel

end OpenDir

end Mynfs
