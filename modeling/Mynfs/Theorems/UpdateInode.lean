import Mathlib.Tactic.Common
import Mynfs.Inode.Update

/-! A flag of `cache_validity` that stands for attributes is cleared only by a reply that brings them. -/

namespace Mynfs

def InvalidFlag.attrs : InvalidFlag → List FattrBit
  | .change => [.change]
  | .ctime => [.ctime]
  | .mtime => [.mtime]
  | .atime => [.atime]
  | .size => [.size]
  | .mode => [.mode]
  | .nlink => [.nlink]
  | .other => [.owner, .group]
  | .blocks => [.spaceUsed, .blocksUsed]
  | .btime => [.btime]
  | .data | .access | .acl | .revalForced | .dataInvalDefer | .xattr => []

namespace AttrInode
variable {env : UpdateEnv} {i : AttrInode} {f : Fattr} {g : InvalidFlag} {b : FattrBit} {flags : List InvalidFlag}
  {saved : InvalidFlag → Bool}

theorem validity_setCacheInvalid (hb : b ∈ g.attrs) (h : i.validity g) :
    (i.mynfsSetCacheInvalid env flags).validity g := by
  simp only [mynfsSetCacheInvalid]
  split <;> cases g <;> simp_all [InvalidFlag.attrs]

theorem validity_restore (h : saved g) (hg : g ∈ flags) : (i.restore saved flags).validity g := by
  simp [restore, h, hg]

theorem validity_restore_of_set (h : i.validity g) : (i.restore saved flags).validity g := by
  simp [restore, h]

theorem validity_updateChange (hf : f.valid .change = false) (h : saved .change) :
    (i.updateChange env f saved).1.validity .change := by
  rw [updateChange, if_neg (by simp [hf])]
  exact validity_restore h (by simp)

theorem saved_updateChange (h : saved g) : (i.updateChange env f saved).2.1 g := by
  unfold updateChange
  split
  · simp only
    split
    · split
      · simp [h]
      · split <;> exact h
    · exact h
  · exact h

theorem validity_update (hb : b ∈ g.attrs) (h : i.validity g)
    (hf : (sizeZero (i.fixupDelegated env f)).valid b = false) (hs : env.supported b) :
    (i.update env f).validity g := by
  apply validity_setCacheInvalid hb
  by_cases hchange : g = .change
  · subst hchange
    obtain rfl : b = .change := by simpa [InvalidFlag.attrs] using hb
    apply validity_restore_of_set
    exact validity_updateChange (by unfold sizeZero at hf; split at hf <;> simp_all) h
  · refine validity_restore (saved_updateChange h) (List.mem_map.mpr ⟨(b, g), List.mem_filter.mpr ⟨?_, by simp [hf, hs]⟩, rfl⟩)
    cases g <;> simp_all [InvalidFlag.attrs, missing]

/-- The reply carries the attribute, where one with a size of 0 and without the space used carries that too. -/
def Carries (f : Fattr) (b : FattrBit) : Prop :=
  f.valid b ∨ b = .spaceUsed ∧ f.valid .size ∧ f.value .size = 0 ∧ f.valid .blocksUsed = false

theorem carries_of_sizeZero (h : (sizeZero f).valid b) : Carries f b := by
  unfold sizeZero at h
  split at h
  next hz =>
    simp only [Bool.and_eq_true, Bool.not_eq_true', Bool.or_eq_false_iff, decide_eq_true_eq, Bool.or_eq_true] at h hz
    rcases h with rfl | h
    · refine .inr ⟨rfl, hz.1.1, ?_, hz.2.2⟩
      have := hz.1.2
      unfold loff at this
      split at this
      · exact this
      · exact absurd this (by decide)
    · exact .inl h
  · exact .inl h

theorem nfsUpdateInode_cases (hok : (i.nfsUpdateInode env f).2 = 0) :
    (i.nfsUpdateInode env f).1 = i ∨ (i.nfsUpdateInode env f).1 = i.update env f := by
  revert hok
  unfold nfsUpdateInode
  split
  · exact fun _ => .inl rfl
  · split
    · split
      · exact fun _ => .inl rfl
      · exact fun hok => absurd (show negErrno .estale = 0 from hok) (by decide)
    · split
      · exact fun hok => absurd (show negErrno .estale = 0 from hok) (by decide)
      · exact fun _ => .inr rfl

/-- Without a delegation, a flag stays set unless the reply carries all that it stands for and the server supports. -/
theorem update_inode_keeps_flags (env : UpdateEnv) (i : AttrInode) (f : Fattr) (g : InvalidFlag)
    (hd : env.delegatedMtime = false ∧ env.delegatedAtime = false) (hset : i.validity g)
    (hok : (i.nfsUpdateInode env f).2 = 0) (hclear : (i.nfsUpdateInode env f).1.validity g = false) :
    ∀ b ∈ g.attrs, Carries f b ∨ env.supported b = false := by
  intro b hb
  by_contra hc
  obtain ⟨hcarries, hs⟩ := not_or.mp hc
  have hfix : i.fixupDelegated env f = f := by simp [fixupDelegated, hd.1, hd.2]
  have hkept : (i.update env f).validity g :=
    validity_update hb hset (by simpa [hfix] using mt carries_of_sizeZero hcarries) (by simpa using hs)
  rcases nfsUpdateInode_cases hok with heq | heq
  · simp [heq, hset] at hclear
  · simp [heq, hkept] at hclear

theorem update_inode_keeps_flags_getattr :
    let env : UpdateEnv := { supported := fun _ => true }
    let i : AttrInode := { validity := fun g => g = .other }
    let f : Fattr := { valid := fun b => b = .owner ∨ b = .group }
    (i.nfsUpdateInode env f).1.validity .other = false ∧
      ∀ b ∈ InvalidFlag.other.attrs, Carries f b ∨ env.supported b = false :=
  ⟨rfl, update_inode_keeps_flags _ { validity := fun g => g = .other } _ _ ⟨rfl, rfl⟩ rfl rfl rfl⟩

/-- A size of 0 clears the flag for the blocks, although the reply has no space used and the server supports it. -/
theorem update_inode_clears_blocks :
    let env : UpdateEnv := { supported := fun b => b ≠ .blocksUsed }
    let i : AttrInode := { validity := fun g => g = .blocks }
    let f : Fattr := { valid := fun b => b = .size }
    i.validity .blocks ∧ (i.nfsUpdateInode env f).2 = 0 ∧ (i.nfsUpdateInode env f).1.validity .blocks = false ∧
      f.valid .spaceUsed = false ∧ env.supported .spaceUsed :=
  ⟨rfl, rfl, rfl, rfl, rfl⟩

end AttrInode
end Mynfs
