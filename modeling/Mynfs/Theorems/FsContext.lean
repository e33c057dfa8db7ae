import Mynfs.Lib.LastWrite
import Mynfs.Mount.FsContext

/-! Settings are those of the last parameter of their group, but for four shared ones. -/

namespace Mynfs

open List Option
namespace FsContext
open NfsFsContext

/-- What of a context the parameters may share. -/
inductive Field
  | flag (f : MountFlag)
  | version
  | minorversion
deriving DecidableEq

def Field.get : Field → NfsFsContext → Nat
  | .flag f, ctx => (ctx.flags f).toNat
  | .version, ctx => ctx.version
  | .minorversion, ctx => ctx.minorversion

/-- The groups of parameters of which the last is to win. -/
inductive Group
  | localLock
  | lookupcache
  | write
  | rdirplus
  | soft
  | vers

def Group.names : Group → FsParam → Bool
  | .localLock, .localLock _ | .lookupcache, .lookupcache _ | .write, .write _ | .rdirplus, .rdirplus _ => true
  | .rdirplus, .nordirplus | .soft, .soft | .soft, .softerr | .soft, .hard | .vers, .vers _ => true
  | _, _ => false

/-- What the parameters of a group write. -/
def Group.fields : Group → List Field
  | .localLock => [.flag .localFlock, .flag .localFcntl]
  | .lookupcache => [.flag .lookupCacheNoneg, .flag .lookupCacheNone]
  | .write => [.flag .writeEager, .flag .writeWait]
  | .rdirplus => [.flag .nordirplus, .flag .forceRdirplus]
  | .soft => [.flag .soft, .flag .softerr, .flag .softreval]
  | .vers => [.flag .ver3, .version, .minorversion]

def Group.last (g : Group) (params : List FsParam) : Option FsParam := (params.filter g.names).getLast?

/-- The fields of every group are those that its last parameter gives on a fresh context. -/
def LastWins (params : List FsParam) (ctx : NfsFsContext) : Prop :=
  ∀ g : Group, ∃ ctx', parseParams {} (g.last params).toList = some ctx' ∧ ∀ f ∈ g.fields, f.get ctx = f.get ctx'

/-- The context after a parameter, unchanged if it is refused. -/
def apply (ctx : NfsFsContext) (p : FsParam) : NfsFsContext := (ctx.nfsFsContextParseParam p).getD ctx

/-- The bits that are set and those that are cleared. -/
def bits (on off : List MountFlag) : List (Field × Nat) :=
  off.map (fun f => (.flag f, 0)) ++ on.map fun f => (.flag f, 1)

/-- What the parameters write, by field. -/
def writes : FsParam → List (Field × Nat)
  | .soft => bits [.soft] [.softerr]
  | .softerr => bits [.softerr, .softreval] [.soft]
  | .hard => bits [] [.soft, .softerr, .softreval]
  | .softreval => bits [.softreval] []
  | .lock true => bits [.nonlm, .localFlock, .localFcntl] []
  | .lock false => bits [] [.nonlm, .localFlock, .localFcntl]
  | .nordirplus => bits [.nordirplus] [.forceRdirplus]
  | .rdirplus none => bits [] [.nordirplus, .forceRdirplus]
  | .rdirplus (some string) =>
    if string = "none" then bits [.nordirplus] [.forceRdirplus]
    else if string = "force" then bits [.forceRdirplus] [.nordirplus]
    else []
  | .minorversion n => if 2 < n then [] else [(.minorversion, n)]
  | .vers string =>
    if string = "2" then [(.flag .ver3, 0), (.version, 2)]
    else if string = "3" then [(.flag .ver3, 1), (.version, 3)]
    else if string = "4" then [(.flag .ver3, 0), (.version, 4)]
    else if string = "4.0" then [(.flag .ver3, 0), (.version, 4), (.minorversion, 0)]
    else if string = "4.1" then [(.flag .ver3, 0), (.version, 4), (.minorversion, 1)]
    else if string = "4.2" then [(.flag .ver3, 0), (.version, 4), (.minorversion, 2)]
    else []
  | .lookupcache .all => bits [] [.lookupCacheNoneg, .lookupCacheNone]
  | .lookupcache .positive => bits [.lookupCacheNoneg] [.lookupCacheNone]
  | .lookupcache .none => bits [.lookupCacheNoneg, .lookupCacheNone] []
  | .localLock .all => bits [.localFlock, .localFcntl] []
  | .localLock .flock => bits [.localFlock] []
  | .localLock .posix => bits [.localFcntl] []
  | .localLock .none => bits [] [.localFlock, .localFcntl]
  | .write .lazy => bits [] [.writeEager, .writeWait]
  | .write .eager => bits [.writeEager] [.writeWait]
  | .write .wait => bits [.writeEager, .writeWait] []
  | .migration _ | .sloppy | .other _ | .noparam => []

/-- What a parameter writes to a field, if it does. -/
def written (f : Field) (p : FsParam) : Option Nat := (writes p).lookup f

/-- The fields that other parameters of their group leave, or that other groups write. -/
def shared : List (Group × Field) :=
  [(.localLock, .flag .localFlock), (.localLock, .flag .localFcntl), (.soft, .flag .softreval), (.vers, .minorversion)]

def unshared : List (Group × Field) :=
  [(.lookupcache, .flag .lookupCacheNoneg), (.lookupcache, .flag .lookupCacheNone), (.write, .flag .writeEager),
    (.write, .flag .writeWait), (.rdirplus, .flag .nordirplus), (.rdirplus, .flag .forceRdirplus), (.soft, .flag .soft),
    (.soft, .flag .softerr), (.vers, .flag .ver3), (.vers, .version)]

theorem mem_fields_iff {g : Group} {f : Field} : f ∈ g.fields ↔ (g, f) ∈ shared ∨ (g, f) ∈ unshared := by
  cases g <;> simp [Group.fields, shared, unshared] <;> tauto

/-- The field has been written last, or not at all, with the value that the last parameter of its group gives. -/
def Settled (params : List FsParam) (g : Group) (f : Field) : Prop :=
  (params.filterMap (written f)).getLast?.getD 0 = ((g.last params).bind (written f)).getD 0

variable {ctx ctx' : NfsFsContext} {p : FsParam} {params : List FsParam} {f : Field} {g : Group}

theorem lookup_bits (on off : List MountFlag) (f : MountFlag) :
    (bits on off).lookup (.flag f) = if f ∈ off then some 0 else if f ∈ on then some 1 else none := by
  have hmap (v : Nat) (l : List MountFlag) : (l.map fun f => (Field.flag f, v)).lookup (.flag f) = if f ∈ l then some v else none := by
    induction l with
    | nil => rfl
    | cons x l ih =>
      rw [map_cons, lookup_cons, ih]
      by_cases hx : f = x
      · simp [hx]
      · have hne : (Field.flag f == Field.flag x) = false := by simpa using hx
        simp [hne, hx]
  rw [bits, lookup_append, hmap, hmap]
  split <;> rfl

theorem get_setFlags (ctx : NfsFsContext) (on off : List MountFlag) (f : Field) :
    f.get (ctx.setFlags on off) = ((bits on off).lookup f).getD (f.get ctx) := by
  have hnone (hf : ∀ g, f ≠ .flag g) : (bits on off).lookup f = none := by
    refine lookup_eq_none_iff.mpr fun x hx => ?_
    rcases mem_append.mp hx with hx | hx <;> obtain ⟨g, -, rfl⟩ := mem_map.mp hx <;> simp [hf g]
  cases f with
  | flag f =>
    rw [lookup_bits]
    simp only [Field.get, setFlags, contains_eq_mem]
    by_cases hoff : f ∈ off <;> by_cases hon : f ∈ on <;> simp [hoff, hon]
  | version => rw [hnone nofun]; rfl
  | minorversion => rw [hnone nofun]; rfl

theorem get_vers (ctx : NfsFsContext) (string : String) (f : Field) :
    f.get (apply ctx (.vers string)) = (written f (.vers string)).getD (f.get ctx) := by
  simp only [apply, nfsFsContextParseParam, nfsParseVersionString, written, writes]
  cases f with
  | flag f =>
    by_cases hf : f = .ver3
    · subst hf
      split_ifs <;> simp [Field.get, setFlags]
    · have hne : (Field.flag f == Field.flag .ver3) = false := by simpa using hf
      have hversion : (Field.flag f == Field.version) = false := rfl
      have hminor : (Field.flag f == Field.minorversion) = false := rfl
      split_ifs <;> simp [Field.get, setFlags, lookup_cons, hne, hversion, hminor, hf]
  | version => split_ifs <;> rfl
  | minorversion => split_ifs <;> rfl

/-- The parser does what the table says. -/
theorem get_apply (f : Field) (ctx : NfsFsContext) (p : FsParam) : f.get (apply ctx p) = (written f p).getD (f.get ctx) := by
  have hsame : (∀ ctx, apply ctx p = ctx) → writes p = [] → f.get (apply ctx p) = (written f p).getD (f.get ctx) := by
    intro h hnone
    rw [h, written, hnone]
    rfl
  cases p with
  | lock negated => cases negated <;> exact get_setFlags ctx _ _ f
  | rdirplus string =>
    rcases string with _ | string
    · exact get_setFlags ctx _ _ f
    · simp only [apply, nfsFsContextParseParam, written, writes]
      split_ifs
      · exact get_setFlags ctx _ _ f
      · exact get_setFlags ctx _ _ f
      · rfl
  | minorversion n =>
    simp only [apply, nfsFsContextParseParam, written, writes]
    split_ifs
    · rfl
    · cases f <;> rfl
  | vers string => exact get_vers ctx string f
  | lookupcache v => cases v <;> exact get_setFlags ctx _ _ f
  | localLock v => cases v <;> exact get_setFlags ctx _ _ f
  | write v => cases v <;> exact get_setFlags ctx _ _ f
  | other ok => exact hsame (fun ctx => by cases ok <;> rfl) rfl
  | noparam => exact hsame (fun ctx => by simp only [apply, nfsFsContextParseParam]; split <;> rfl) rfl
  | migration | sloppy => cases f <;> rfl
  | _ => exact get_setFlags ctx _ _ f

/-- The parameter is not refused, in whichever context. -/
def Accepted (p : FsParam) : Prop := ∃ ctx ctx', nfsFsContextParseParam ctx p = some ctx'

theorem foldl_of_parseParams : ∀ {params : List FsParam} {ctx : NfsFsContext}, parseParams ctx params = some ctx' →
    ctx' = params.foldl apply ctx ∧ ∀ p ∈ params, Accepted p
  | [], ctx, h => ⟨(some.inj h).symm, fun p hp => absurd hp not_mem_nil⟩
  | p :: params, ctx, h => by
    obtain ⟨mid, hp, hrest⟩ := bind_eq_some_iff.mp h
    obtain ⟨hctx, hall⟩ := foldl_of_parseParams hrest
    refine ⟨?_, fun q hq => ?_⟩
    · rw [foldl_cons, show apply ctx p = mid by rw [apply, hp]; rfl]
      exact hctx
    · rcases mem_cons.mp hq with rfl | hq
      · exact ⟨ctx, mid, hp⟩
      · exact hall q hq

/-- Only a parameter that is not in the table depends on the context for being accepted. -/
theorem parse_fresh (h : Accepted p) (hp : p ≠ .noparam) : nfsFsContextParseParam {} p = some (apply {} p) := by
  have hsome : (nfsFsContextParseParam {} p).isSome := by
    obtain ⟨ctx, ctx', h⟩ := h
    have hsame : (nfsFsContextParseParam {} p).isSome = (nfsFsContextParseParam ctx p).isSome := by
      unfold nfsFsContextParseParam nfsParseVersionString
      split <;> first | rfl | exact absurd rfl hp | (split_ifs <;> rfl)
    rw [hsame, h]
    rfl
  obtain ⟨ctx', h⟩ := isSome_iff_exists.mp hsome
  rw [apply, h]
  rfl

theorem get_fresh (f : Field) : f.get {} = 0 := by cases f <;> rfl

theorem parseParams_last (h : ∀ p ∈ params, Accepted p) (g : Group) : ∃ ctx', parseParams {} (g.last params).toList = some ctx' ∧
    ∀ f : Field, f.get ctx' = ((g.last params).bind (written f)).getD 0 := by
  cases hlast : g.last params with
  | none => exact ⟨{}, rfl, get_fresh⟩
  | some p =>
    obtain ⟨hmem, hname⟩ := mem_filter.mp (mem_of_getLast? hlast)
    have hp : p ≠ .noparam := by
      rintro rfl
      cases g <;> cases hname
    refine ⟨apply {} p, ?_, fun f => ?_⟩
    · simp [parseParams, parse_fresh (h p hmem) hp]
    · rw [get_apply, get_fresh]
      rfl

theorem lastWins_iff (h : parseParams {} params = some ctx) :
    LastWins params ctx ↔ ∀ g : Group, ∀ f ∈ g.fields, Settled params g f := by
  obtain ⟨rfl, hall⟩ := foldl_of_parseParams h
  refine forall_congr' fun g => ?_
  obtain ⟨ctx', hparse, hget⟩ := parseParams_last hall g
  have hfold (f : Field) : f.get (params.foldl apply {}) = (params.filterMap (written f)).getLast?.getD 0 := by
    rw [LastWrite.get_foldl (get_apply f), get_fresh]
  simp only [hparse, Option.some.injEq, exists_eq_left', hfold, hget, Settled]

/-- An unshared field is written by the parameters of its group, each of them, and by no others. -/
theorem isSome_written (hp : Accepted p) : ∀ x ∈ unshared, (written x.2 p).isSome = x.1.names p := by
  obtain ⟨ctx, ctx', hp⟩ := hp
  cases p with
  | lock negated => cases negated <;> decide
  | migration negated => cases negated <;> decide
  | other ok => cases ok <;> decide
  | rdirplus string =>
    rcases string with _ | string
    · decide
    · simp only [nfsFsContextParseParam] at hp
      split_ifs at hp <;> subst string <;> decide
  | minorversion n =>
    simp only [nfsFsContextParseParam] at hp
    split_ifs at hp with hn
    obtain rfl | rfl | rfl : n = 0 ∨ n = 1 ∨ n = 2 := by omega
    all_goals decide
  | vers string =>
    simp only [nfsFsContextParseParam, nfsParseVersionString] at hp
    split_ifs at hp <;> subst string <;> decide
  | lookupcache v => cases v <;> decide
  | localLock v => cases v <;> decide
  | write v => cases v <;> decide
  | _ => decide

/-- The last parameter of every group wins just when it does in each of the four shared fields. -/
theorem last_wins_iff_shared (params : List FsParam) (ctx : NfsFsContext) (h : parseParams {} params = some ctx) :
    LastWins params ctx ↔ ∀ x ∈ shared, Settled params x.1 x.2 := by
  have hall := (foldl_of_parseParams h).2
  rw [lastWins_iff h]
  constructor
  · intro hset x hx
    exact hset x.1 x.2 (mem_fields_iff.mpr (.inl hx))
  · intro hset g f hf
    rcases mem_fields_iff.mp hf with hshared | hown
    · exact hset _ hshared
    · exact congrArg (·.getD 0) (LastWrite.getLast?_filterMap fun p hp => isSome_written (hall p hp) _ hown)

instance (params : List FsParam) (g : Group) (f : Field) : Decidable (Settled params g f) :=
  inferInstanceAs (Decidable (_ = _))

theorem last_wins_after_hard : LastWins [.softerr, .localLock .flock, .soft, .vers "4.1", .hard]
    (([.softerr, .localLock .flock, .soft, .vers "4.1", .hard] : List FsParam).foldl apply {}) :=
  (last_wins_iff_shared _ _ rfl).mpr (by decide)

/-- `local_lock=posix,local_lock=flock` keeps both, `softerr,soft` keeps revalidations soft, `vers=4.1,vers=3` is
    refused. -/
theorem last_parameter_overruled :
    (parseParams {} [.localLock .posix, .localLock .flock]).map (·.flags .localFcntl) = some true ∧
    (parseParams {} [.localLock .flock]).map (·.flags .localFcntl) = some false ∧
    (parseParams {} [.softerr, .soft]).map (·.flags .softreval) = some true ∧
    (parseParams {} [.soft]).map (·.flags .softreval) = some false ∧
    (parseParams {} [.vers "4.1", .vers "3"]).map versionsAgree = some false ∧
    (parseParams {} [.vers "3"]).map versionsAgree = some true := by
  decide

end FsContext
end Mynfs
