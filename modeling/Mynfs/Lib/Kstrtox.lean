import Mathlib.Data.Nat.Digits.Lemmas
import Mathlib.Tactic

/-! Numerals in C strings, as the kernel parses them (`kstrtoull`, `kstrtoll`) and prints them (`%u`). -/

namespace Kstrtox

/-- The string that starts at the head of a buffer. -/
def cString (buf : List UInt8) : List UInt8 := buf.takeWhile (· ≠ 0)

def digit? (c : UInt8) : Option Nat :=
  if 48 ≤ c.toNat ∧ c.toNat ≤ 57 then some (c.toNat - 48)
  else if 97 ≤ c.toNat ∧ c.toNat ≤ 102 then some (c.toNat - 87)
  else if 65 ≤ c.toNat ∧ c.toNat ≤ 70 then some (c.toNat - 55)
  else none

/-- `_parse_integer`, without a bound on the value: the value and what follows the digits. -/
def parseInteger (base : Nat) : Nat → List UInt8 → Nat × List UInt8
  | acc, [] => (acc, [])
  | acc, c :: s =>
    match digit? c with
    | some d => if d < base then parseInteger base (acc * base + d) s else (acc, c :: s)
    | none => (acc, c :: s)

def isX (c : UInt8) : Bool := c == 120 || c == 88

def fixupRadix (base : Nat) (s : List UInt8) : Nat × List UInt8 :=
  let base :=
    if base = 0 then
      match s with
      | c :: s' =>
        if c = 48 then
          match s' with
          | x :: h :: _ => if isX x && (digit? h).isSome then 16 else 8
          | _ => 8
        else 10
      | [] => 10
    else base
  match s with
  | c :: x :: s' => if base = 16 && c == 48 && isX x then (base, s') else (base, s)
  | _ => (base, s)

/-- `-EINVAL` and `-ERANGE`. -/
inductive Error
  | inval
  | range
deriving DecidableEq

section
variable (base : Nat) (s : List UInt8)

def kstrtoullUnsigned : Except Error Nat :=
  let (base, s) := fixupRadix base s
  let (value, rest) := parseInteger base 0 s
  if 2 ^ 64 ≤ value then .error .range
  else if rest.length = s.length then .error .inval
  else if rest = [] ∨ rest = [10] then .ok value
  else .error .inval

/-- `kstrtoull`, and `kstrtoul` where a long has 64 bits. -/
def kstrtoull : Except Error Nat :=
  if s.head? = some 43 then kstrtoullUnsigned base s.tail else kstrtoullUnsigned base s

/-- `kstrtoll`, and `kstrtol` where a long has 64 bits. -/
def kstrtoll : Except Error Int :=
  if s.head? = some 45 then
    match kstrtoullUnsigned base s.tail with
    | .error e => .error e
    | .ok value => if 2 ^ 63 < value then .error .range else .ok (-value)
  else
    match kstrtoull base s with
    | .error e => .error e
    | .ok value => if 2 ^ 63 ≤ value then .error .range else .ok value

def isDigit (c : UInt8) : Bool := decide (48 ≤ c.toNat ∧ c.toNat ≤ 57)

def valueIn : Nat := s.foldl (fun acc c => acc * base + (c.toNat - 48)) 0

end

/-- The number that a decimal numeral denotes: digits only, and at least one. -/
def decimal? (s : List UInt8) : Option Nat := if s ≠ [] ∧ s.all isDigit then some (valueIn 10 s) else none

/-- What `%u` prints. -/
def decimal (n : Nat) : List UInt8 :=
  if n = 0 then [48] else (Nat.digits 10 n).reverse.map fun d => UInt8.ofNat (48 + d)

section
variable {base n : Nat} {c : UInt8} {s : List UInt8}

theorem isDigit_iff : isDigit c = true ↔ 48 ≤ c.toNat ∧ c.toNat ≤ 57 := decide_eq_true_iff

theorem digit?_of_isDigit (h : isDigit c) : digit? c = some (c.toNat - 48) := if_pos (isDigit_iff.mp h)

theorem decimal?_eq_some_iff : decimal? s = some n ↔ s ≠ [] ∧ (∀ c ∈ s, isDigit c) ∧ valueIn 10 s = n := by
  unfold decimal?
  split
  next h => exact ⟨fun hn => ⟨h.1, List.all_eq_true.mp h.2, Option.some.inj hn⟩, fun hn => congrArg some hn.2.2⟩
  next h => exact ⟨nofun, fun hn => absurd ⟨hn.1, List.all_eq_true.mpr hn.2.1⟩ h⟩

theorem cString_append (h : ∀ c ∈ s, c ≠ 0) (rest : List UInt8) : cString (s ++ rest) = s ++ cString rest :=
  List.takeWhile_append_of_pos fun c hc => decide_eq_true (h c hc)

theorem cString_eq_self (h : ∀ c ∈ s, c ≠ 0) : cString s = s := by
  have happend := cString_append h []
  rwa [List.append_nil, show cString [] = [] from rfl, List.append_nil] at happend

theorem ne_zero_of_isDigit (h : isDigit c) : c ≠ 0 := by
  rintro rfl
  exact absurd h (by decide)

/-- In base 10 a string of digits is taken as it is, in base 0 a first digit 0 stands for base 8. -/
theorem fixupRadix_of_digits (hs : ∀ c ∈ s, isDigit c) (hne : s ≠ []) : fixupRadix 10 s = (10, s) ∧
    fixupRadix 0 s = (if s.head? = some 48 then 8 else 10, s) := by
  have hx : ∀ c ∈ s, isX c = false := fun c hc => by
    have hc := isDigit_iff.mp (hs c hc)
    have hcodes : (120 : UInt8).toNat = 120 ∧ (88 : UInt8).toNat = 88 := by decide
    simp only [isX, Bool.or_eq_false_iff, beq_eq_false_iff_ne, ne_eq, ← UInt8.toNat_inj]
    omega
  match s, hne with
  | [c], _ => by_cases hc : c = 48 <;> simp [fixupRadix, hc]
  | c :: d :: s, _ =>
    have hd := hx d (List.mem_cons_of_mem c List.mem_cons_self)
    by_cases hc : c = 48
    · cases s <;> simp [fixupRadix, hc, hd]
    · simp [fixupRadix, hc, hd]

variable (acc : Nat) (hs : ∀ c ∈ s, isDigit c)
include hs

theorem parseInteger_append (hbase : ∀ c ∈ s, c.toNat - 48 < base) (t : List UInt8) : parseInteger base acc (s ++ t) =
      parseInteger base (s.foldl (fun acc c => acc * base + (c.toNat - 48)) acc) t := by
  induction s generalizing acc with
  | nil => rfl
  | cons c s ih =>
    have hc := digit?_of_isDigit (hs c List.mem_cons_self)
    simp only [List.cons_append, parseInteger, hc, if_pos (hbase c List.mem_cons_self), List.foldl_cons]
    exact ih _ (fun d hd => hs d (List.mem_cons_of_mem c hd)) fun d hd => hbase d (List.mem_cons_of_mem c hd)

theorem parseInteger_eq (hbase : ∀ c ∈ s, c.toNat - 48 < base) :
    parseInteger base acc s = (s.foldl (fun acc c => acc * base + (c.toNat - 48)) acc, []) := by
  have happend := parseInteger_append acc hs hbase []
  rwa [List.append_nil] at happend

/-- What is left after parsing is the end of the string; if it is empty, all digits were digits of the base. -/
theorem parseInteger_rest : (∀ c ∈ (parseInteger base acc s).2, isDigit c) ∧
      ((parseInteger base acc s).2 = [] → ∀ c ∈ s, c.toNat - 48 < base) := by
  induction s generalizing acc with
  | nil => exact ⟨nofun, fun _ => nofun⟩
  | cons c s ih =>
    have hc := digit?_of_isDigit (hs c List.mem_cons_self)
    simp only [parseInteger, hc]
    split
    next hlt =>
      obtain ⟨hrest, hall⟩ := ih (acc * base + (c.toNat - 48)) fun d hd => hs d (List.mem_cons_of_mem c hd)
      refine ⟨hrest, fun hnil d hd => ?_⟩
      rcases List.mem_cons.mp hd with rfl | hd
      · exact hlt
      · exact hall hnil d hd
    · exact ⟨hs, nofun⟩

omit hs

variable {acc}

/-- A numeral of decimal digits is accepted in a base if they are all digits of it, with its value there. -/
theorem kstrtoullUnsigned_ok_iff {base₀ : Nat} (hfix : fixupRadix base₀ s = (base, s))
    (hs : ∀ c ∈ s, isDigit c) : kstrtoullUnsigned base₀ s = .ok n ↔
      s ≠ [] ∧ (∀ c ∈ s, c.toNat - 48 < base) ∧ valueIn base s < 2 ^ 64 ∧ valueIn base s = n := by
  obtain ⟨hrest, hall⟩ : (∀ c ∈ (parseInteger base 0 s).2, isDigit c)
      ∧ ((parseInteger base 0 s).2 = [] → ∀ c ∈ s, c.toNat - 48 < base) := parseInteger_rest 0 hs
  simp only [kstrtoullUnsigned, hfix]
  constructor
  · intro h
    split at h
    · cases h
    next hsmall =>
      split at h
      · cases h
      next hsome =>
        split at h
        next hend =>
          have hnil : (parseInteger base 0 s).2 = [] := by
            refine hend.resolve_right fun hnl => ?_
            rw [hnl] at hrest
            exact absurd (hrest 10 List.mem_cons_self) (by decide)
          have hparse : parseInteger base 0 s = (valueIn base s, []) := parseInteger_eq 0 hs (hall hnil)
          rw [hparse] at h hsmall hsome
          refine ⟨fun hempty => hsome (by rw [hempty]), hall hnil, not_le.mp hsmall, Except.ok.inj h⟩
        · cases h
  · rintro ⟨hne, hdigits, hsmall, rfl⟩
    have hparse : parseInteger base 0 s = (valueIn base s, []) := parseInteger_eq 0 hs hdigits
    have hlen : ¬([] : List UInt8).length = s.length := fun h => hne (List.length_eq_zero_iff.mp h.symm)
    simp only [hparse, if_neg (not_le.mpr hsmall), if_neg hlen, true_or, if_true]

theorem valueIn_concat (base : Nat) (s : List UInt8) (c : UInt8) :
    valueIn base (s ++ [c]) = valueIn base s * base + (c.toNat - 48) := by
  simp [valueIn]

theorem valueIn_mono {base' : Nat} (h : base ≤ base') (s : List UInt8) : valueIn base s ≤ valueIn base' s := by
  induction s using List.reverseRecOn with
  | nil => exact le_rfl
  | append_singleton s c ih =>
    rw [valueIn_concat, valueIn_concat]
    exact Nat.add_le_add_right (Nat.mul_le_mul ih h) _

/-- Octal digits denote the same number in both bases exactly if they denote a single digit. -/
theorem valueIn_eight_eq_ten_iff (h : ∀ c ∈ s, c.toNat - 48 < 8) : valueIn 8 s = valueIn 10 s ↔ valueIn 10 s < 8 := by
  induction s using List.reverseRecOn with
  | nil => simp [valueIn]
  | append_singleton s c ih =>
    have hlast := h c (List.mem_append_right s (List.mem_singleton_self c))
    have hmono := valueIn_mono (show 8 ≤ 10 by decide) s
    rw [valueIn_concat, valueIn_concat]
    omega

theorem toNat_digitByte {d : Nat} (h : d < 10) : (UInt8.ofNat (48 + d)).toNat = 48 + d := by
  exact Nat.mod_eq_of_lt (by omega)

theorem valueIn_digits : ∀ {ds : List Nat}, (∀ d ∈ ds, d < 10) →
    valueIn 10 (ds.reverse.map fun d => UInt8.ofNat (48 + d)) = Nat.ofDigits 10 ds
  | [], _ => rfl
  | d :: ds, h => by
    have hd := toNat_digitByte (h d List.mem_cons_self)
    rw [List.reverse_cons, List.map_append, List.map_singleton, valueIn_concat, hd,
      valueIn_digits fun x hx => h x (List.mem_cons_of_mem d hx), Nat.ofDigits_cons]
    omega

theorem decimal?_decimal (n : Nat) : decimal? (decimal n) = some n := by
  unfold decimal
  split
  next h => rw [h]; rfl
  next h =>
    have hlt : ∀ d ∈ Nat.digits 10 n, d < 10 := fun d hd => Nat.digits_lt_base (by decide) hd
    refine decimal?_eq_some_iff.mpr ⟨?_, fun c hc => ?_, ?_⟩
    · simpa using Nat.digits_ne_nil_iff_ne_zero.mpr h
    · obtain ⟨d, hd, rfl⟩ := List.mem_map.mp hc
      have hd := hlt d (List.mem_reverse.mp hd)
      rw [isDigit_iff, toNat_digitByte hd]
      omega
    · rw [valueIn_digits hlt, Nat.ofDigits_digits]

theorem head?_decimal (h : n ≠ 0) : (decimal n).head? ≠ some 48 := by
  have hne : Nat.digits 10 n ≠ [] := Nat.digits_ne_nil_iff_ne_zero.mpr h
  have hlast := Nat.getLast_digit_ne_zero 10 h
  have hlt := Nat.digits_lt_base (show 1 < 10 by decide) (List.getLast_mem hne)
  rw [decimal, if_neg h, List.head?_map, List.head?_reverse, List.getLast?_eq_some_getLast hne, Option.map_some, ne_eq,
    Option.some.injEq, ← UInt8.toNat_inj, toNat_digitByte hlt]
  change ¬48 + _ = 48
  omega

theorem length_decimal_le {k : Nat} (h : n < 10 ^ k) (hk : 0 < k) : (decimal n).length ≤ k := by
  unfold decimal
  split
  · exact hk
  · rw [List.length_map, List.length_reverse]
    exact (Nat.digits_length_le_iff (by decide) n).mpr h

end

end Kstrtox
