import K64.XfsRenameEffect

/-! # Where paths lead after a change

A path is followed name by name, so it leads to the same inode as long as the directories on its way
keep their names. -/
namespace XfsResolving

open XfsFormat XfsInode XfsDirectory XfsOperations XfsVolume XfsConsistency XfsLookup XfsPaths
  XfsDirectoryUpdate XfsContentChanges XfsOperationEffects

variable {c c' : Content}

variable {path : List UInt8}

theorem resolve_of_locate (h : Consistent c) (h0 : (0 : UInt8) ∉ path)
    (hhead : path.head? = some slash) {id : ℕ} (hl : locate c (tokens path) = some id) :
    resolve c path = some (UInt32.ofNat id, c.inode id) := by
  rw [resolve, if_pos hhead, walk_eq h fun _ => noNul_tokens h0, hl]
  rfl

theorem resolve_head {x : UInt32 × Inode} (h : resolve c path = some x) :
    path.head? = some slash := by
  unfold resolve at h
  split at h
  · assumption
  · cases h

theorem resolve_mono (h : Consistent c) (h' : Consistent c')
    (hchild : ∀ dir name id, Used c dir → (0 : UInt8) ∉ name → childOf c dir name = some id →
      childOf c' dir name = some id) (h0 : (0 : UInt8) ∉ path) {id : UInt32}
    {inode : Inode} (hres : resolve c path = some (id, inode)) :
    resolve c' path = some (id, c'.inode id.toNat) := by
  obtain ⟨-, -, -, hloc⟩ := resolve_used h h0 hres
  have hloc' := locate_mono h hchild (tokens path) (fun _ => noNul_tokens h0) 1 _ h.rootInUse hloc
  have := resolve_of_locate h' h0 (resolve_head hres) hloc'
  rwa [UInt32.ofNat_toNat] at this

theorem childOf_regular {dir : ℕ} (ht : (c.inode dir).type = typeRegular) (name : List UInt8) :
    childOf c dir name = none := by
  rw [childOf, dirFind, ht, if_neg (by decide)]
  rfl

theorem childOf_keeps {S : ℕ → Prop} (h : Consistent c) (h' : Consistent c') (hk : Keeps S c c')
    {dir : ℕ} (hs : ¬ S dir) (hu : Used c dir) {name : List UInt8} (h0 : (0 : UInt8) ∉ name) :
    childOf c' dir name = childOf c dir name := by
  have hu' := (hk.used dir hs).mpr hu
  refine Option.ext fun id => ?_
  rw [childOf_eq_some h' hu' h0, childOf_eq_some h hu h0]
  constructor
  · rintro ⟨b, s, e, hl, hrest⟩
    exact ⟨b, s, e, (live_of_keeps hk hs).mp hl, hrest⟩
  · rintro ⟨b, s, e, hl, hrest⟩
    exact ⟨b, s, e, (live_of_keeps hk hs).mpr hl, hrest⟩

theorem childOf_file {id : ℕ} (h : Consistent c) (h' : Consistent c')
    (hk : Keeps (fun k => k = id) c c') (ht : (c.inode id).type = typeRegular) :
    ∀ dir name k, Used c dir → (0 : UInt8) ∉ name → childOf c dir name = some k →
      childOf c' dir name = some k := by
  intro dir name k hu h0 hc
  by_cases hdir : dir = id
  · rw [hdir, childOf_regular ht] at hc
    cases hc
  · rw [childOf_keeps h h' hk hdir hu h0]
    exact hc

theorem resolve_root (h : Consistent c) : resolve c [slash] = some (1, c.inode 1) :=
  resolve_of_locate h (by decide) rfl rfl

end XfsResolving
