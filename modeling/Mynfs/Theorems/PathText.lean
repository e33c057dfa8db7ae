import Mathlib.Tactic.Common
import Mynfs.Mount.Path

/-! The path of a dentry is exact, and only its buffer is written. -/

namespace Mynfs

open List Function

variable {n k : Nat} {mem mem' : Int → UInt8} {text b dev rest : List UInt8} {s : PathBuf}

def Untouched (n : Nat) (mem mem' : Int → UInt8) : Prop := ∀ i : Int, i < 0 ∨ n ≤ i → mem' i = mem i

def Holds (mem : Int → UInt8) (pos : Int) (text : List UInt8) : Prop := ∀ (i : Nat) c, text[i]? = some c → mem (pos + i) = c

namespace PathBuf

/-- The end of the buffer is `text`, and `k` bytes that `buflen` does not count any more are still to be written. -/
structure Ends (n : Nat) (mem : Int → UInt8) (text : List UInt8) (k : Nat) (s : PathBuf) : Prop where
  nonneg : 0 ≤ s.buflen
  buflen : s.buflen + k = s.endp
  length : s.endp + text.length = n
  text : Holds s.mem s.endp text
  outside : Untouched n mem s.mem

theorem Ends.head {c : UInt8} (h : Ends n mem (c :: text) k s) : s.mem s.endp = c := by
  simpa using h.text 0 c rfl

theorem Ends.poke (h : Ends n mem text (k + 1) s) (c : UInt8) : Ends n mem (c :: text) k (s.poke c) := by
  obtain ⟨hnn, hbuflen, hlen, htext, hout⟩ := h
  refine ⟨hnn, ?_, ?_, fun i c' hi => ?_, fun i hi => ?_⟩
  · simp only [PathBuf.poke]
    omega
  · simp only [PathBuf.poke, length_cons]
    omega
  · cases i with
    | zero =>
      cases hi
      simp [PathBuf.poke]
    | succ i =>
      have hpos : s.endp - 1 + (i + 1 : Nat) = s.endp + i := by omega
      exact (congrArg _ hpos).trans ((update_of_ne (by omega) ..).trans (htext i c' hi))
  · exact (update_of_ne (by omega) ..).trans (hout i hi)

theorem Ends.put {bytes : List UInt8} (h : Ends n mem text (k + bytes.length) s) : Ends n mem (bytes ++ text) k (s.put bytes) := by
  induction bytes generalizing k with
  | nil => exact h
  | cons c bytes ih =>
    rw [length_cons, Nat.add_left_comm, Nat.add_comm] at h
    exact (ih (k := k + 1) h).poke c

/-- The bytes are written if `buflen` allows it. -/
theorem Ends.fit (h : Ends n mem text 0 s) (bytes : List UInt8) (hroom : ¬(s.use bytes.length).buflen < 0) :
    Ends n mem (bytes ++ text) 0 ((s.use bytes.length).put bytes) := by
  have hbuflen := h.buflen
  refine Ends.put ⟨Int.not_lt.mp hroom, ?_, h.length, h.text, h.outside⟩
  simp only [PathBuf.use]
  omega

theorem Ends.long (h : Ends n mem text 0 s) (hroom : (s.use k).buflen < 0) : n < k + text.length := by
  have hbuflen := h.buflen
  have hlen := h.length
  simp only [PathBuf.use] at hroom
  omega

theorem ends_start (hn : 0 < n) (h : Untouched n mem mem') : Ends n mem [0] 0 (start mem' n) := by
  have hempty : Ends n mem [] 0 ⟨mem', n, n⟩ := ⟨Int.natCast_nonneg n, Int.add_zero _, Int.add_zero _, fun _ _ hi => absurd hi nofun, h⟩
  exact hempty.fit [0] (by simp [use]; omega)

/-- The names below the root, each after a slash. -/
def slashed (names : List (List UInt8)) : List UInt8 := names.flatMap (47 :: ·)

theorem Ends.walk (h : Ends n mem text 0 s) (dentries : List (List UInt8)) : Untouched n mem (walk dentries s).1.mem ∧
      if (walk dentries s).2 then Ends n mem (slashed dentries.reverse ++ text) 0 (walk dentries s).1
      else n < (slashed dentries.reverse ++ text).length := by
  induction dentries generalizing s text with
  | nil => exact ⟨h.outside, h⟩
  | cons name dentries ih =>
    have hcons : slashed (name :: dentries).reverse = slashed dentries.reverse ++ 47 :: name := by simp [slashed]
    rw [hcons, append_assoc]
    unfold PathBuf.walk
    split
    next hlong =>
      have hn := h.long hlong
      refine ⟨h.outside, ?_⟩
      simp only [Bool.false_eq_true, if_false, length_append, length_cons]
      omega
    next hroom => exact ih (h.fit (47 :: name) hroom)

end PathBuf

open PathBuf

/-- The path is `dev` and `rest` if they fit. -/
structure Rebuilt (n : Nat) (mem : Int → UInt8) (dev rest : List UInt8) (r : PathResult) : Prop where
  outside : Untouched n mem r.mem
  fits : dev.length + rest.length < n → ∃ pos : Int, r.path = some pos ∧ r.p = some (pos + dev.length) ∧
    pos + dev.length + rest.length + 1 = n ∧ Holds r.mem pos (dev ++ (rest ++ [0]))
  long : n ≤ dev.length + rest.length → r.path = none

theorem PathBuf.Ends.base (h : Ends n mem (rest ++ [0]) 0 s)
    (hdev : (if s.mem s.endp = 47 then b.rdropWhile (· = 47) else b) = dev) : Rebuilt n mem dev rest (pathBase (some b) s) := by
  have hlen := h.length
  simp only [pathBase, hdev]
  split
  next hlong =>
    have hn := h.long hlong
    rw [length_append, length_singleton] at hn
    exact ⟨h.outside, by omega, fun _ => rfl⟩
  next hroom =>
    have hput := h.fit dev hroom
    have hend := hput.length
    have hnn := hput.nonneg
    have hbuflen := hput.buflen
    simp only [length_append, length_singleton] at hlen hend
    exact ⟨hput.outside, fun _ => ⟨_, rfl, congrArg some (by omega), by omega, hput.text⟩, by omega⟩

/-- What follows the device, of which slashes at the end are removed then. -/
def pathRest (canonical : Bool) (names : List (List UInt8)) : List UInt8 := if canonical ∧ names = [] then [47] else slashed names

def pathDev (b rest : List UInt8) : List UInt8 := if rest = [] then b else b.rdropWhile (· = 47)

theorem untouched_renamed (hn : 0 < n) (renamed : List (List (List UInt8))) (h : Untouched n mem mem') :
    Untouched n mem (renamed.foldl (fun mem dentries => (PathBuf.walk dentries (.start mem n)).1.mem) mem') := by
  induction renamed generalizing mem' with
  | nil => exact h
  | cons dentries renamed ih => exact ih ((ends_start hn h).walk dentries).1

/-- For every buffer with room for the end of the string. -/
theorem path_rebuilt (renamed : List (List (List UInt8))) (names : List (List UInt8)) (b : List UInt8) (buffer : Int → UInt8)
    (hn : 0 < n) (canonical : Bool) : Rebuilt n buffer (pathDev b (pathRest canonical names)) (pathRest canonical names)
      (mynfsPath renamed names.reverse (some b) buffer n canonical) := by
  have hmem : Untouched n buffer _ := untouched_renamed hn renamed fun _ _ => rfl
  obtain ⟨hout, hwalk⟩ := (ends_start hn hmem).walk names.reverse
  rw [names.reverse_reverse] at hwalk
  unfold mynfsPath
  dsimp only
  generalize PathBuf.walk names.reverse (.start (renamed.foldl _ buffer) n) = r at hout hwalk
  obtain ⟨s, _ | _⟩ := r
  · replace hwalk : n < (slashed names ++ [0]).length := hwalk
    rw [length_append, length_singleton] at hwalk
    have hle : (slashed names).length ≤ (pathRest canonical names).length := by
      unfold pathRest
      split
      next h => simp [h.2, slashed]
      · exact le_rfl
    exact ⟨hout, by omega, fun _ => rfl⟩
  replace hwalk : Ends n buffer (slashed names ++ [0]) 0 s := hwalk
  cases names with
  | nil =>
    have hhead : s.mem s.endp ≠ 47 := by simp [show s.mem s.endp = 0 from hwalk.head]
    cases canonical with
    | false => exact hwalk.base (if_neg hhead)
    | true =>
      dsimp only
      rw [if_pos ⟨rfl, hhead⟩]
      split
      next hlong =>
        have hn : n ≤ 1 := Nat.le_of_lt_succ (hwalk.long hlong)
        exact ⟨hout, fun hfits => absurd hfits (not_lt.mpr (hn.trans (Nat.le_add_left ..))), fun _ => rfl⟩
      next hroom =>
        have hput := hwalk.fit [47] hroom
        exact hput.base (if_pos hput.head)
  | cons name names =>
    have hhead : s.mem s.endp = 47 := hwalk.head
    have hrest : pathRest canonical (name :: names) = slashed (name :: names) := by simp [pathRest]
    rw [hrest]
    dsimp only
    rw [if_neg fun h => h.2 hhead]
    exact hwalk.base (if_pos hhead)

/-- `s:/` with `a` below it is `s:/a`. -/
theorem path_rebuilt_one : (mynfsPath [] [[97]] (some [115, 58, 47]) (fun _ => 1) (5 : Nat) true).path = some 0 := by
  have h := path_rebuilt [] [[97]] [115, 58, 47] (fun _ => 1) (n := 5) (by decide) true
  obtain ⟨pos, hpath, -, hpos, -⟩ := h.fits (by decide)
  obtain rfl : pos = 0 := by
    change pos + 2 + 2 + 1 = 5 at hpos
    omega
  exact hpath

/-- An empty buffer has its terminator in front of it. -/
theorem path_before_buffer : ¬Rebuilt 0 (fun _ => 1) (pathDev [] (pathRest false [])) (pathRest false [])
    (mynfsPath [] [].reverse (some []) (fun _ => 1) (0 : Nat) false) :=
  fun h => absurd (h.outside (-1) (by decide)) (by decide)

end Mynfs
