import Mynfs.Pageio.Add
import Mynfs.Theorems.Coalesce
import Mathlib.Data.Set.Lattice

/-! What a call into pagelist.c does with its requests: but for splitting one, an iteration only moves them. -/

namespace Mynfs

open List

section
variable {shift : Nat} {req : NfsPage shift} {desc : PgioDescriptor shift} {env : AddEnv} {ans : AddAnswers}
  {r : CallStep shift}

def NfsPage.Has (req : NfsPage shift) (b : Nat) : Prop := req.reqOffset ≤ b ∧ b < req.reqOffset + req.wbBytes

def spans (reqs : List (NfsPage shift)) : Set Nat := { b | ∃ req ∈ reqs, req.Has b }

@[simp] theorem mem_spans {reqs : List (NfsPage shift)} {b : Nat} : b ∈ spans reqs ↔ ∃ req ∈ reqs, req.Has b := Iff.rfl

@[simp] theorem spans_nil : spans ([] : List (NfsPage shift)) = ∅ := by
  ext b
  simp

@[simp] theorem spans_cons (reqs : List (NfsPage shift)) : spans (req :: reqs) = { b | req.Has b } ∪ spans reqs := by
  ext b
  simp

@[simp] theorem spans_append (l l' : List (NfsPage shift)) : spans (l ++ l') = spans l ∪ spans l' := by
  ext b
  simp only [mem_spans, mem_append, or_and_right, exists_or, Set.mem_union]

/-- The requests lie one after another from offset `a` to offset `e`. -/
def Tiles : Nat → List (NfsPage shift) → Nat → Prop
  | a, [], e => a = e
  | a, req :: reqs, e => req.reqOffset = a ∧ Tiles (a + req.wbBytes) reqs e

namespace Tiles
variable {a e : Nat} {reqs l l' : List (NfsPage shift)}

@[simp] theorem nil_iff : Tiles a ([] : List (NfsPage shift)) e ↔ a = e := Iff.rfl

@[simp] theorem cons_iff : Tiles a (req :: reqs) e ↔ req.reqOffset = a ∧ Tiles (a + req.wbBytes) reqs e := Iff.rfl

theorem append_iff : ∀ {l : List (NfsPage shift)} {a : Nat}, Tiles a (l ++ l') e ↔ ∃ m, Tiles a l m ∧ Tiles m l' e
  | [], a => by simp
  | req :: l, a => by
    simp only [cons_append, cons_iff, append_iff]
    constructor
    · rintro ⟨hoff, m, hl, hl'⟩
      exact ⟨m, ⟨hoff, hl⟩, hl'⟩
    · rintro ⟨m, ⟨hoff, hl⟩, hl'⟩
      exact ⟨hoff, m, hl, hl'⟩

theorem le : ∀ {reqs : List (NfsPage shift)} {a : Nat}, Tiles a reqs e → a ≤ e
  | [], _, h => le_of_eq h
  | _ :: _, _, h => (Nat.le_add_right _ _).trans (le h.2)

theorem mem_spans_iff : ∀ {reqs : List (NfsPage shift)} {a : Nat}, Tiles a reqs e → ∀ b, b ∈ spans reqs ↔ a ≤ b ∧ b < e
  | [], a, h, b => by
    obtain rfl := nil_iff.mp h
    simp
  | req :: reqs, a, h, b => by
    obtain ⟨rfl, hrest⟩ := cons_iff.mp h
    have hle := hrest.le
    rw [spans_cons, Set.mem_union, mem_spans_iff hrest b]
    simp only [NfsPage.Has, Set.mem_ofPred_eq]
    omega

end Tiles

/-- Contiguous requests tile their range. -/
theorem Contiguous.tiles : ∀ {reqs : List (NfsPage shift)} {req : NfsPage shift}, Contiguous (req :: reqs) →
    Tiles req.reqOffset (req :: reqs) (req.reqOffset + totalBytes (req :: reqs))
  | [], req, _ => by simp [totalBytes]
  | req' :: reqs, req, h => by
    obtain ⟨hcont, hrest⟩ := isChain_cons_cons.mp h
    have hoff := (pageIsContiguous_cases hcont).1
    have htotal : req.reqOffset + totalBytes (req :: req' :: reqs) = req'.reqOffset + totalBytes (req' :: reqs) := by
      simp only [totalBytes, map_cons, sum_cons, hoff]
      omega
    refine ⟨rfl, ?_⟩
    rw [htotal, ← hoff]
    exact Contiguous.tiles hrest

/-- Requests are cut. -/
inductive Resplit : List (NfsPage shift) → List (NfsPage shift) → Prop
  | refl (l : List (NfsPage shift)) : Resplit l l
  | split (l l' : List (NfsPage shift)) (req : NfsPage shift) (size : req.SubSize) :
      Resplit (l ++ req :: l') (l ++ req.createSubreq size :: req.advance size :: l')

variable (size : req.SubSize)

@[simp] theorem reqOffset_createSubreq : (req.createSubreq size).reqOffset = req.reqOffset := rfl

@[simp] theorem wbBytes_createSubreq : (req.createSubreq size).wbBytes = size.val := rfl

@[simp] theorem reqOffset_advance : (req.advance size).reqOffset = req.reqOffset + size.val := by
  simp only [NfsPage.reqOffset, NfsPage.advance]
  omega

@[simp] theorem wbBytes_advance : (req.advance size).wbBytes = req.wbBytes - size.val := rfl

variable {size}

namespace Resplit
variable {l l' : List (NfsPage shift)}

theorem append_right (h : Resplit l l') (r : List (NfsPage shift)) : Resplit (l ++ r) (l' ++ r) := by
  cases h with
  | refl => exact .refl _
  | split p q req size =>
    simp only [append_assoc, cons_append]
    exact .split p (q ++ r) req size

theorem spans_eq (h : Resplit l l') : spans l' = spans l := by
  cases h with
  | refl => rfl
  | split p q req size =>
    ext b
    simp only [spans_append, spans_cons, Set.mem_union, Set.mem_ofPred_eq, NfsPage.Has, reqOffset_createSubreq,
      wbBytes_createSubreq, reqOffset_advance, wbBytes_advance]
    have hsplit : (req.reqOffset ≤ b ∧ b < req.reqOffset + size.val) ∨ (req.reqOffset + size.val ≤ b ∧
        b < req.reqOffset + size.val + (req.wbBytes - size.val)) ↔ req.reqOffset ≤ b ∧ b < req.reqOffset + req.wbBytes := by
      omega
    rw [← hsplit, or_assoc]

theorem tiles (h : Resplit l l') {a e : Nat} (ht : Tiles a l e) : Tiles a l' e := by
  cases h with
  | refl => exact ht
  | split p q req size =>
    obtain ⟨m, hp, hoff, hq⟩ := Tiles.append_iff.mp ht
    refine Tiles.append_iff.mpr ⟨m, hp, hoff, ?_, ?_⟩
    · rw [reqOffset_advance, hoff, wbBytes_createSubreq]
    · have hsum : m + size.val + (req.wbBytes - size.val) = m + req.wbBytes := by have := size.property.2; omega
      rwa [wbBytes_createSubreq, wbBytes_advance, hsum]

end Resplit

/-- A header as it goes out: the requests tile the range of its RPC. -/
structure PgioHeader.Fresh (hdr : PgioHeader shift) : Prop where
  tiles : Tiles hdr.ioStart hdr.pages (hdr.ioStart + hdr.goodBytes)
  nonempty : hdr.pages ≠ []
  offset_eq : hdr.argsOffset = hdr.ioStart
  count_eq : hdr.argsCount = hdr.goodBytes
  flags : hdr.iohdrError = false ∧ hdr.iohdrRedo = false ∧ hdr.iohdrUnstableWrites = false

def sentPages : Option (PgioHeader shift) → List (NfsPage shift)
  | some hdr => hdr.pages
  | none => []

theorem Mirrors.fresh {first : NfsPage shift} {rest : List (NfsPage shift)}
    (h : Mirrors desc) (hlist : desc.mirror.pgList = first :: rest) : (mynfsPgheaderInit desc.mirror first).Fresh := by
  have hcontiguous := h.contiguous
  have hcount := (h.first first rest hlist).2
  refine ⟨?_, by simp [mynfsPgheaderInit, hlist], rfl, rfl, rfl, rfl, rfl⟩
  simp only [mynfsPgheaderInit]
  rw [hlist] at hcontiguous hcount ⊢
  rw [hcount]
  exact hcontiguous.tiles

/-- What `nfs_pageio_doio` does not send stays listed. -/
theorem pageioDoio_spec (doio : Doio) (hm : Mirrors desc) :
    desc.mirror.pgList = sentPages (nfsPageioDoio doio desc).2 ++ (nfsPageioDoio doio desc).1.mirror.pgList ∧
    Mirrors (nfsPageioDoio doio desc).1 ∧ (∀ hdr ∈ (nfsPageioDoio doio desc).2, hdr.Fresh) ∧
    ((nfsPageioDoio doio desc).1.mirror.pgList = [] ∨ (nfsPageioDoio doio desc).1.mirror.pgRecoalesce ∨
      (nfsPageioDoio doio desc).1.pgError < 0) := by
  unfold nfsPageioDoio
  split
  next hnil => exact ⟨by simp [sentPages], hm, by simp, .inl hnil⟩
  next first rest hlist =>
    cases doio with
    | sent =>
      refine ⟨by simp [sentPages, mynfsPgheaderInit], .of_nil rfl, ?_, .inl rfl⟩
      intro hdr hhdr
      obtain rfl := Option.mem_some_iff.mp hhdr
      exact hm.fresh hlist
    | tryAgain => exact ⟨rfl, ⟨hm.contiguous, hm.first⟩, by simp, .inr (.inl rfl)⟩
    | failed error => exact ⟨rfl, ⟨hm.contiguous, hm.first⟩, by simp, .inr (.inr error.property)⟩

theorem doAddRequestTo_refused {prev : Option (NfsPage shift)} (h : (doAddRequestTo env desc prev req).1 ≠ req.wbBytes) :
    (doAddRequestTo env desc prev req).1 < req.wbBytes ∧ (doAddRequestTo env desc prev req).2.mirror = desc.mirror := by
  unfold doAddRequestTo at h ⊢
  dsimp only at h ⊢
  split at h
  next hretr =>
    rw [if_pos hretr]
    exact ⟨req.bytes_pos, rfl⟩
  next hretr =>
    rw [if_neg hretr]
    split at h
    next hlt =>
      rw [if_pos hlt]
      exact ⟨hlt, rfl⟩
    · exact absurd rfl h

theorem pageioDoAddRequest_refused (h : (nfsPageioDoAddRequest env desc req).1 ≠ req.wbBytes) :
    (nfsPageioDoAddRequest env desc req).1 < req.wbBytes ∧ ((nfsPageioDoAddRequest env desc req).2.mirror = desc.mirror ∨
      (nfsPageioDoAddRequest env desc req).2.mirror.pgList = [] ∧ desc.mirror.pgList = []) := by
  unfold nfsPageioDoAddRequest at h ⊢
  cases hlast : desc.mirror.pgList.getLast? with
  | some prev =>
    rw [hlast] at h
    exact ⟨(doAddRequestTo_refused h).1, .inl (doAddRequestTo_refused h).2⟩
  | none =>
    have hnil := getLast?_eq_none_iff.mp hlast
    rw [hlast] at h
    dsimp only at h ⊢
    generalize hinit : (if env.initError < 0 then { desc with pgError := env.initError } else desc) = d at h ⊢
    have hmirror : d.mirror = desc.mirror := by
      rw [← hinit]
      split <;> rfl
    split at h
    next herror =>
      rw [if_pos herror]
      exact ⟨req.bytes_pos, .inl hmirror⟩
    next herror =>
      rw [if_neg herror]
      refine ⟨(doAddRequestTo_refused h).1, .inr ⟨?_, hnil⟩⟩
      rw [(doAddRequestTo_refused h).2]
      exact hmirror ▸ hnil

theorem pageioDoAddRequest_spec (env : AddEnv) (req : NfsPage shift) (hm : Mirrors desc) :
    Mirrors (nfsPageioDoAddRequest env desc req).2 ∧ ((nfsPageioDoAddRequest env desc req).1 = req.wbBytes ∧
        (nfsPageioDoAddRequest env desc req).2.mirror.pgList = desc.mirror.pgList ++ [req] ∨
      (nfsPageioDoAddRequest env desc req).1 < req.wbBytes ∧
        (nfsPageioDoAddRequest env desc req).2.mirror.pgList = desc.mirror.pgList) := by
  by_cases hsize : (nfsPageioDoAddRequest env desc req).1 = req.wbBytes
  · have hadd : addStep desc (env, req) = some (nfsPageioDoAddRequest env desc req).2 := by
      simp only [addStep, hsize, if_true]
    exact ⟨hm.addStep hadd, .inl ⟨hsize, (addStep_inv hadd).1⟩⟩
  · obtain ⟨hlt, hmirror | ⟨hnil, hnil'⟩⟩ := pageioDoAddRequest_refused hsize
    · refine ⟨⟨?_, ?_⟩, .inr ⟨hlt, by rw [hmirror]⟩⟩
      · rw [hmirror]
        exact hm.contiguous
      · rw [hmirror]
        exact hm.first
    · exact ⟨.of_nil hnil, .inr ⟨hlt, hnil.trans hnil'.symm⟩⟩

def AddNext.held : AddNext shift → List (NfsPage shift)
  | .again loop => [loop.req]
  | .returned1 => []
  | .returned0 req => [req]

/-- What an iteration of `__nfs_pageio_add_request` for `req` can do. -/
structure AddSpec (desc : PgioDescriptor shift) (req : NfsPage shift)
    (r : PgioDescriptor shift × Option (PgioHeader shift) × AddNext shift) : Prop where
  resplit : Resplit (desc.mirror.pgList ++ [req]) (sentPages r.2.1 ++ r.1.mirror.pgList ++ r.2.2.held)
  mirrors : Mirrors r.1
  fresh : ∀ hdr ∈ r.2.1, hdr.Fresh

theorem addRefused_spec (ans : AddAnswers) (size : Nat) (hm : Mirrors desc) :
    AddSpec desc req (addRefused ans size desc req) := by
  unfold addRefused
  split
  next h =>
    cases ans.createSubreq with
    | none => exact ⟨.refl _, hm, by simp⟩
    | some error => exact ⟨.refl _, ⟨hm.contiguous, hm.first⟩, by simp⟩
  · obtain ⟨hlist, hm', hfresh, -⟩ := pageioDoio_spec ans.doio hm
    dsimp only
    split
    · refine ⟨?_, hm', hfresh⟩
      rw [hlist]
      exact .refl _
    · refine ⟨?_, hm', hfresh⟩
      rw [hlist]
      exact .refl _

theorem AddSpec.of_list_eq {desc' : PgioDescriptor shift}
    {r : PgioDescriptor shift × Option (PgioHeader shift) × AddNext shift} (h : AddSpec desc' req r)
    (hlist : desc'.mirror.pgList = desc.mirror.pgList) : AddSpec desc req r :=
  ⟨hlist ▸ h.resplit, h.mirrors, h.fresh⟩

/-- One round of `__nfs_pageio_add_request`. -/
theorem AddLoop.step_spec (ans : AddAnswers) (loop : AddLoop shift)
    (hm : Mirrors desc) : AddSpec desc loop.req (loop.step ans desc) := by
  obtain ⟨req, subreq⟩ := loop
  cases subreq with
  | none =>
    obtain ⟨hm', ⟨hsize, hlist⟩ | ⟨hlt, hlist⟩⟩ := pageioDoAddRequest_spec ans.env req hm
    · simp only [AddLoop.step, if_pos hsize]
      refine ⟨?_, hm', by simp⟩
      simp only [sentPages, AddNext.held, hlist, nil_append, append_nil]
      exact .refl _
    · simp only [AddLoop.step, if_neg hlt.ne]
      exact (addRefused_spec ans _ hm').of_list_eq hlist
  | some sub =>
    obtain ⟨hm', ⟨hsize, hlist⟩ | ⟨hlt, hlist⟩⟩ := pageioDoAddRequest_spec ans.env (req.createSubreq sub) hm
    · rw [wbBytes_createSubreq] at hsize
      simp only [AddLoop.step, if_pos hsize]
      refine ⟨?_, hm', by simp⟩
      simp only [sentPages, AddNext.held, hlist, nil_append, append_assoc, cons_append]
      exact .split _ [] req sub
    · rw [wbBytes_createSubreq] at hlt
      simp only [AddLoop.step, if_neg hlt.ne]
      exact (addRefused_spec ans _ hm').of_list_eq hlist

def heldBy : Option (Call shift) → List (NfsPage shift)
  | some call => call.held
  | none => []

/-- Requests go to `error_cleanup` only when the call ends, and then all that are in the mirror. -/
structure CallSpec (before : List (NfsPage shift)) (completing : Bool) (r : CallStep shift) : Prop where
  resplit : Resplit before (sentPages r.hdr ++ r.cleanup ++ r.desc.mirror.pgList ++ heldBy r.next)
  mirrors : Mirrors r.desc
  fresh : ∀ hdr ∈ r.hdr, hdr.Fresh
  completing_eq : ∀ call, r.next = some call → call.completing = completing
  finished : completing → r.next = none → r.desc.mirror.pgList = []
  failed : ∀ req, r.next = some (.failed req) → r.desc.mirror.pgList = [] ∧ r.desc.pgError < 0
  cleaned : r.cleanup ≠ [] → r.desc.mirror.pgList = [] ∧
    (completing ∧ r.next = none ∨ ∃ req, r.next = some (.failed req))

section
variable {before : List (NfsPage shift)} {hdr : Option (PgioHeader shift)} {outer : Option (NfsPage shift)}

theorem completing_recoalesced (outer : Option (NfsPage shift)) :
    (recoalesced outer).completing = outer.isNone := by
  cases outer <;> rfl

theorem held_recoalesced (outer : Option (NfsPage shift)) : (recoalesced outer).held = outer.toList := by
  cases outer <;> rfl

theorem recoalesced_ne_failed : recoalesced outer ≠ .failed req := by
  cases outer <;> nofun

theorem completing_recoalesce (loop : AddLoop shift) (rest : List (NfsPage shift))
    (outer : Option (NfsPage shift)) : (Call.recoalesce loop rest outer).completing = outer.isNone := by
  cases outer <;> rfl

theorem CallSpec.goOn {call : Call shift}
    (h : Resplit before (sentPages hdr ++ desc.mirror.pgList ++ call.held)) (hm : Mirrors desc)
    (hfresh : ∀ h ∈ hdr, h.Fresh) (hne : ∀ req, call ≠ .failed req) :
    CallSpec before call.completing { desc, hdr, next := some call } := by
  refine ⟨by simpa [heldBy] using h, hm, hfresh, fun c hc => ?_, nofun, fun req hreq => ?_, fun h => absurd rfl h⟩
  · rw [← Option.some.inj hc]
  · exact absurd (Option.some.inj hreq) (hne req)

theorem startRecoalesce_spec {rest : List (NfsPage shift)}
    (h : Resplit before (sentPages hdr ++ desc.mirror.pgList ++ (rest ++ outer.toList)))
    (hfresh : ∀ h ∈ hdr, h.Fresh) : CallSpec before outer.isNone (startRecoalesce desc hdr rest outer) := by
  unfold startRecoalesce
  dsimp only
  split
  next hnil =>
    obtain ⟨hlist, rfl⟩ := append_eq_nil_iff.mp hnil
    rw [← completing_recoalesced]
    refine .goOn ?_ (.of_nil rfl) hfresh fun req => recoalesced_ne_failed
    simpa [hlist, held_recoalesced] using h
  next req rest' hcons =>
    rw [← completing_recoalesce ⟨req, none⟩ rest']
    refine .goOn ?_ (.of_nil rfl) hfresh nofun
    have hheld : desc.mirror.pgList ++ (rest ++ outer.toList) = req :: rest' ++ outer.toList := by
      rw [← hcons, append_assoc]
    rw [append_assoc, hheld] at h
    simpa [Call.held] using h

theorem failCall_spec (h : Resplit before (sentPages hdr ++ desc.mirror.pgList ++ outer.toList)) (hfresh : ∀ h ∈ hdr, h.Fresh)
    (herror : desc.pgError < 0) : CallSpec before outer.isNone (failCall desc hdr outer) := by
  cases outer with
  | none => exact ⟨by simpa [failCall, heldBy] using h, .of_nil rfl, hfresh, nofun, fun _ _ => rfl, nofun,
      fun _ => ⟨rfl, .inl ⟨rfl, rfl⟩⟩⟩
  | some req =>
    refine ⟨by simpa [failCall, heldBy, Call.held] using h, .of_nil rfl, hfresh, fun c hc => ?_, nofun,
      fun _ _ => ⟨rfl, herror⟩, fun _ => ⟨rfl, .inr ⟨req, rfl⟩⟩⟩
    rw [← Option.some.inj hc]
    rfl

end

/-- No step of a call loses a request. -/
theorem Call.step_spec {call : Call shift} (hm : Mirrors desc) (hs : call.step ans desc = some r) :
    CallSpec (desc.mirror.pgList ++ call.held) call.completing r := by
  cases call with
  | add loop =>
    obtain ⟨hsplit, hm', hfresh⟩ := loop.step_spec ans hm
    simp only [Call.step] at hs
    generalize loop.step ans desc = q at hsplit hm' hfresh hs
    obtain ⟨desc', hdr, next⟩ := q
    rw [Call.held]
    cases next with
    | again loop' =>
      cases hs
      change CallSpec _ (Call.add loop').completing _
      exact .goOn hsplit hm' hfresh (by simp)
    | returned1 =>
      cases hs
      exact ⟨by simpa [heldBy, AddNext.held] using hsplit, hm', hfresh, by simp, fun h => absurd h Bool.false_ne_true, by simp, fun h => absurd rfl h⟩
    | returned0 req =>
      dsimp only at hs
      change CallSpec _ (some req).isNone _
      split at hs
      next herror =>
        cases hs
        exact failCall_spec hsplit hfresh herror
      · cases hs
        exact startRecoalesce_spec hsplit hfresh
  | recoalesce loop rest outer =>
    obtain ⟨hsplit, hm', hfresh⟩ := loop.step_spec ans hm
    simp only [Call.step] at hs
    generalize loop.step ans desc = q at hsplit hm' hfresh hs
    obtain ⟨desc', hdr, next⟩ := q
    replace hsplit := hsplit.append_right (rest ++ outer.toList)
    have hbefore : desc.mirror.pgList ++ [loop.req] ++ (rest ++ outer.toList) =
        desc.mirror.pgList ++ (Call.recoalesce loop rest outer).held := by
      simp [Call.held]
    rw [hbefore] at hsplit
    rw [completing_recoalesce]
    cases next with
    | again loop' =>
      cases hs
      rw [← completing_recoalesce loop' rest]
      refine .goOn ?_ hm' hfresh (by simp)
      simpa [Call.held, AddNext.held] using hsplit
    | returned1 =>
      cases rest with
      | nil =>
        dsimp only at hs
        split at hs
        · cases hs
          refine startRecoalesce_spec ?_ hfresh
          simpa [AddNext.held] using hsplit
        · cases hs
          rw [← completing_recoalesced]
          refine .goOn ?_ hm' hfresh fun req => recoalesced_ne_failed
          simpa [AddNext.held, held_recoalesced] using hsplit
      | cons req rest =>
        cases hs
        rw [← completing_recoalesce ⟨req, none⟩ rest]
        refine .goOn ?_ hm' hfresh (by simp)
        simpa [Call.held, AddNext.held] using hsplit
    | returned0 req =>
      dsimp only at hs
      split at hs
      next herror =>
        cases hs
        refine failCall_spec ?_ hfresh herror
        simpa [AddNext.held] using hsplit
      · cases hs
        refine startRecoalesce_spec ?_ hfresh
        simpa [AddNext.held] using hsplit
  | complete =>
    obtain ⟨hlist, hm', hfresh, hleft⟩ := pageioDoio_spec ans.doio hm
    simp only [Call.step] at hs
    generalize nfsPageioDoio ans.doio desc = q at hlist hm' hfresh hleft hs
    obtain ⟨desc', hdr⟩ := q
    have hsplit : Resplit (desc.mirror.pgList ++ Call.complete.held) (sentPages hdr ++ desc'.mirror.pgList ++ []) := by
      rw [hlist, Call.held]
      exact .refl _
    change CallSpec _ (none : Option (NfsPage shift)).isNone _
    split at hs
    next herror =>
      cases hs
      exact failCall_spec hsplit hfresh herror
    next hok =>
      split at hs
      · cases hs
        exact startRecoalesce_spec hsplit hfresh
      next hdone =>
        cases hs
        have hnil : desc'.mirror.pgList = [] := hleft.resolve_right fun h => h.elim hdone hok
        exact ⟨by simpa [heldBy] using hsplit, hm', hfresh, by simp, fun _ _ => hnil, by simp, fun h => absurd rfl h⟩
  | failed req => cases hs

theorem Call.step_complete_nil
    (hnil : desc.mirror.pgList = []) (hs : Call.complete.step ans desc = some r) : r.desc.pgError = desc.pgError := by
  have hdoio : nfsPageioDoio ans.doio desc = (desc, none) := by
    unfold nfsPageioDoio
    rw [hnil]
  simp only [Call.step, hdoio] at hs
  split at hs
  · cases hs
    rfl
  · split at hs
    · cases hs
      simp only [startRecoalesce, hnil, append_nil]
    · cases hs
      rfl

end

end Mynfs
