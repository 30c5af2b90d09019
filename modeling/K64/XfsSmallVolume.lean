import K64.XfsResolving
import K64.XfsRuns

/-! # The first file of a new volume

What creating and writing `/a` makes of a freshly formatted volume, worked out from the format. -/
namespace XfsSmallVolume

open ByteCodec XfsFormat XfsCache XfsJournal XfsInode XfsCalls XfsDirectory XfsOperations XfsVolume
  XfsVolumeLifecycle XfsConsistency XfsLookup XfsDirectoryUpdate XfsContentChanges
  XfsOperationEffects XfsMounting XfsFormatting XfsResolving XfsSystem XfsRuns

variable {total : ℕ} {data : ℕ → XBlock} {c : Content}

def pathA : List UInt8 := [slash, 97]

theorem pathA_noNul : (0 : UInt8) ∉ pathA := by decide

theorem tokens_pathA : tokens pathA = [[97]] := by decide

theorem split_pathA : xfsSplitParent pathA = some ([slash], [97]) := by decide

theorem slotFree_zero : slotFree Block.zero = some 0 := by
  rw [slotFree, show List.range 25 = 0 :: List.range' 1 24 from rfl, List.find?_cons_of_pos]
  rw [dirent_zero]
  rfl

theorem formatted_find (h84 : 84 ≤ total) (hsmall : total ≤ 32768) {name : List UInt8}
    (h0 : (0 : UInt8) ∉ name) : dirFind (formatted total data) (formatted total data |>.inode 1)
      name = none := by
  have hc := formatted_consistent data h84 hsmall
  rw [dirFind_eq_none hc hc.rootInUse h0]
  exact fun b s e hl => absurd hl (formatted_empty 1 b s e)

theorem resolve_pathA (h84 : 84 ≤ total) (hsmall : total ≤ 32768) :
    resolve (formatted total data) pathA = none := by
  have hc := formatted_consistent data h84 hsmall
  rw [resolve, if_pos (show pathA.head? = some slash from rfl), tokens_pathA,
    walk_eq hc (by decide), locate, List.foldlM_cons, childOf, formatted_find h84 hsmall (by decide)]
  rfl

variable {path : List UInt8}

theorem creatable_first (h84 : 84 ≤ total) (hsmall : total ≤ 32768) {leaf : List UInt8}
    (hsplit : xfsSplitParent path = some ([slash], leaf)) (h0 : (0 : UInt8) ∉ leaf) :
    creatable (formatted total data) path = some (Inode.sealed formatRoot, leaf) := by
  have hc := formatted_consistent data h84 hsmall
  have hfind : dirFind (formatted total data) _ _ = none := formatted_find h84 hsmall h0
  rw [inode_formatted] at hfind
  rw [creatable, hsplit, Option.bind_some]
  dsimp only
  rw [resolve_root hc, Option.bind_some]
  dsimp only
  rw [inode_formatted, if_pos ⟨rfl, hfind⟩]

/-- The volume with an empty file `/a`. -/
def firstFile (total : ℕ) (data : ℕ → XBlock) (generation : UInt64) (mode uid gid : UInt32) :
    Content :=
  putIn (freshFile (formatted total data) (newInode generation 2 typeRegular mode uid gid))
    (Inode.sealed formatRoot) (makeDirent [97] 2 typeRegular) 0 0 82

theorem sizeBlocks_formatRoot : sizeBlocks (Inode.sealed formatRoot).size = 1 := by
  change sizeBlocks 4096 = 1
  decide

theorem dataOf_root (i : Inode) :
    (freshFile (formatted total data) i).dataOf (Inode.sealed formatRoot) 0 = Block.zero := by
  rw [Content.dataOf, lookup_formatRoot]
  rfl

theorem spareInode_formatted : (formatted total data).spareInode = some 2 := rfl

theorem create_first (h84 : 84 ≤ total) (hsmall : total ≤ 32768) {leaf : List UInt8}
    (hsplit : xfsSplitParent path = some ([slash], leaf)) (h0 : (0 : UInt8) ∉ leaf)
    (generation : UInt64) (mode uid gid : UInt32) :
    createEffect (formatted total data) generation path typeRegular mode uid gid =
      .done 1 (putIn (freshFile (formatted total data)
        (newInode generation 2 typeRegular mode uid gid)) (Inode.sealed formatRoot)
          (makeDirent leaf 2 typeRegular) 0 0 82) := by
  have hslot : ∀ i, freeSlot (freshFile (formatted total data) i) (Inode.sealed formatRoot) =
      some (0, 0) := by
    intro i
    rw [freeSlot, sizeBlocks_formatRoot, freeFrom, dataOf_root, slotFree_zero]
  have hadd : ∀ i, added (freshFile (formatted total data) i) (Inode.sealed formatRoot)
      (makeDirent leaf 2 typeRegular) = some (1, putIn (freshFile (formatted total data) i)
        (Inode.sealed formatRoot) (makeDirent leaf 2 typeRegular) 0 0 82) := by
    intro i
    rw [added, hslot i]
    simp only [lookup_formatRoot, Option.map_some]
  rw [createEffect, creatable_first h84 hsmall hsplit h0]
  simp only [spareInode_formatted, prepared, if_neg (show ¬ typeRegular = typeDirectory by decide)]
  rw [show (UInt32.ofNat 2) = 2 from rfl, hadd]

theorem create_pathA (h84 : 84 ≤ total) (hsmall : total ≤ 32768) (generation : UInt64)
    (mode uid gid : UInt32) :
    createEffect (formatted total data) generation pathA typeRegular mode uid gid =
      .done 1 (firstFile total data generation mode uid gid) :=
  create_first h84 hsmall split_pathA (by decide) generation mode uid gid

variable {mode uid gid : UInt32} {generation : UInt64}

theorem firstFile_used {id : ℕ}
    (h : Used (firstFile total data generation mode uid gid) id)
    (hnot : ¬ Used (formatted total data) id) : id = 2 := by
  by_contra hne
  refine hnot ⟨h.pos, h.le, ?_⟩
  have hbit : Function.update (formatted total data).inodeUsed 2 true id = true := h.bit
  rwa [Function.update_of_ne hne] at hbit

theorem firstFile_extents :
    Inode.extents ((firstFile total data generation mode uid gid).inode 2) = [] := rfl

theorem formatted_alloc (h84 : 84 ≤ total) (hsmall : total ≤ 32768)
    (i : Inode) : allocRun (freshFile (formatted total data) i) 1 = some 83 := by
  have hfree : (freshFile (formatted total data) i).freeBlocks.toNat = total - 83 :=
    UInt64.toNat_ofNat'.trans (Nat.mod_eq_of_lt (by omega))
  rw [allocRun, hfree, if_neg (by omega)]
  obtain ⟨n, rfl⟩ : ∃ n, total = n + 84 := ⟨total - 84, by omega⟩
  have htotal : (freshFile (formatted (n + 84) data) i).total - 82 = n + 2 :=
    show n + 84 - 82 = n + 2 by omega
  rw [Content.spareRun, htotal]
  rfl

theorem firstFile_alloc (h84 : 84 ≤ total) (hsmall : total ≤ 32768) :
    allocRun (firstFile total data generation mode uid gid) 1 = some 83 :=
  @formatted_alloc _ data h84 hsmall (newInode generation 2 typeRegular mode uid gid)

variable {bytes : List UInt8}

theorem overwrite_first (h84 : 84 ≤ total) (hsmall : total ≤ 32768) (hlen : blocksFor bytes = 1)
    (uid gid : UInt32)
    (ht : ((firstFile total data generation 0o644 uid gid).inode 2).type = typeRegular) :
    ∃ c, overwriteEffect (firstFile total data generation 0o644 uid gid) (generation + 1)
      ((firstFile total data generation 0o644 uid gid).inode 2) bytes uid gid = .done 1 c := by
  have hcond : ¬ (((firstFile total data generation 0o644 uid gid).inode 2).type ≠ typeRegular ∨
      2 ^ 32 - 1 < 1) := fun h => h.elim (fun hne => hne ht) (by omega)
  rw [overwriteEffect, hlen, if_neg hcond, if_neg (by decide), firstFile_extents, dropExtents,
    firstFile_alloc h84 hsmall]
  exact ⟨_, rfl⟩

theorem write_created {c c₁ c₂ : Content} {k j : ℕ} {id : UInt32} {inode : Inode}
    (hnone : resolve c path = none)
    (hcreate : createEffect c generation path typeRegular 0o644 uid gid = .done k c₁)
    (hres : resolve c₁ path = some (id, inode))
    (hover : overwriteEffect c₁ (generation + 1) inode bytes uid gid = .done j c₂) :
    writeEffect c generation path bytes uid gid = .done 2 c₂ := by
  rw [writeEffect, hnone, hcreate]
  simp only [hres, hover]

theorem resolve_first (h84 : 84 ≤ total) (hsmall : total ≤ 32768) :
    Consistent (firstFile total data generation mode uid gid) ∧
      resolve (firstFile total data generation mode uid gid) pathA =
        some (2, (firstFile total data generation mode uid gid).inode 2) ∧
      ((firstFile total data generation mode uid gid).inode 2).type = typeRegular := by
  have hcons := formatted_consistent data h84 hsmall
  obtain ⟨-, parent, id, names, leaf, hcr⟩ := create_done hcons pathA_noNul (Or.inl rfl)
    (create_pathA h84 hsmall generation mode uid gid)
  obtain rfl := firstFile_used hcr.used hcr.fresh
  exact ⟨hcr.consistent, hcr.resolve hcons pathA_noNul, hcr.type⟩

theorem write_pathA (h84 : 84 ≤ total) (hsmall : total ≤ 32768) (generation : UInt64)
    (hlen : blocksFor bytes = 1) (uid gid : UInt32) :
    ∃ c, writeEffect (formatted total data) generation pathA bytes uid gid = .done 2 c := by
  obtain ⟨-, hres, ht⟩ := @resolve_first total data 0o644 uid gid generation h84 hsmall
  obtain ⟨c, hover⟩ := overwrite_first h84 hsmall hlen uid gid ht
  exact ⟨c, write_created (resolve_pathA h84 hsmall)
    (create_pathA h84 hsmall generation 0o644 uid gid) hres hover⟩

/-- The path "/a". -/
def fileA : CString := ⟨pathA, pathA_noNul⟩

theorem first_effect (data : ℕ → XBlock) (h84 : 84 ≤ total) (hsmall : total ≤ 32768) :
    (Operation.create fileA 0o644 0 0).effect (mountedVolume (formatted total data) 1).content
      (mountedVolume (formatted total data) 1).generation =
      .done 1 (firstFile total data 1 0o644 0 0) := by
  rw [Operation.effect]
  exact create_pathA h84 hsmall 1 0o644 0 0

theorem small_steady : ∃ total, 84 ≤ total ∧ total ≤ 32768 ∧
    Steady total (freshSystem smallDevice) (mountedVolume (formatted total smallDevice.block) 1) ∧
    WholeSectors smallDevice.toGeometry ∧ total ≤ xfsFsBlocks smallDevice.toGeometry := by
  have hsmall : xfsFsBlocks (System.geometry (blankSystem smallDevice)) ≤ 32768 := by decide
  obtain ⟨h84, hdev, hholds⟩ := fresh_holds fresh_smallDevice (fun _ => rfl) hsmall
  exact ⟨_, h84, hsmall, ⟨hholds, formatted_consistent smallDevice.block h84 hsmall, rfl⟩,
    sector_of_ok hdev, Nat.le_refl _⟩

variable {dev : Geometry} {s : System}

/-- The volume behind the creation of `/a`, for the call that follows it. -/
theorem first_created (h84 : 84 ≤ total) (hsmall : total ≤ 32768)
    (hV : Steady total s (mountedVolume (formatted total data) 1)) (hsector : WholeSectors dev)
    (ht : total ≤ xfsFsBlocks dev) :
    (s.call (lowered (k64XfsCreate fileA 0o644 0 0))).1.isSome = true ∧
    ∃ V, Steady total (s.call (lowered (k64XfsCreate fileA 0o644 0 0))).2 V ∧ V.mounted = true ∧
      V.content = firstFile total data 1 0o644 0 0 ∧ V.generation = 2 := by
  have heff := first_effect data h84 hsmall
  have hok := operation_succeeds (o := .create fileA 0o644 0 0) hV rfl heff hsector ht
  obtain ⟨V', hV', hshown⟩ := step_steady (a := .operation (.create fileA 0o644 0 0)) hV
    (by rintro ⟨⟩) hsector ht hok
  obtain ⟨hm, j, c, n, he, rfl⟩ := operation_done hshown
  obtain ⟨rfl, rfl⟩ := Effect.done.inj (heff.symm.trans he)
  exact ⟨hok, _, hV', hm, rfl, rfl⟩

theorem run_cons {t : System} {call : PublicCall} {rest : List (PublicCall × Bool)}
    (proper : call = .mount → s.fs.mounted = false)
    (hok : (s.call (call.proc dev)).1.isSome = true)
    (tail : Run dev (s.call (call.proc dev)).2 rest t) : Run dev s ((call, true) :: rest) t := by
  rw [← hok]
  exact .cons proper tail

theorem first_call (op : Operation)
    (hok : ((freshSystem smallDevice).call (lowered op.call)).1.isSome = true) :
    Run smallDevice.toGeometry (freshSystem smallDevice) [(.operation op, true)]
      ((freshSystem smallDevice).call (lowered op.call)).2 :=
  run_cons nofun hok (.nil _)

def byteSeven : Buffer := ⟨[7], by decide⟩

/-- The small volume with a file `/a`, which is created and gets one byte. -/
def createdSystem : System :=
  ((freshSystem smallDevice).call (lowered (k64XfsCreate fileA 0o644 0 0))).2

def writtenSystem : System :=
  (createdSystem.call (lowered (k64XfsWriteFile fileA byteSeven.bytes 0 0))).2

theorem created_written :
    ((freshSystem smallDevice).call (lowered (k64XfsCreate fileA 0o644 0 0))).1.isSome = true ∧
    (createdSystem.call (lowered (k64XfsWriteFile fileA byteSeven.bytes 0 0))).1.isSome = true := by
  obtain ⟨total, h84, hsmall, hsteady, hsector, hblocks⟩ := small_steady
  obtain ⟨hok, V, hV, hm, hcontent, hgen⟩ := first_created h84 hsmall hsteady hsector hblocks
  obtain ⟨-, hres, ht⟩ := @resolve_first total smallDevice.block 0o644 0 0 1 h84 hsmall
  obtain ⟨c, hover⟩ := @overwrite_first _ _ _ byteSeven.bytes h84 hsmall (by decide) 0 0 ht
  refine ⟨hok, operation_succeeds (o := .writeFile fileA byteSeven 0 0) (k := 1) (c := c) hV hm ?_
    hsector hblocks⟩
  rw [hcontent, hgen, Operation.effect, writeEffect, show fileA.bytes = pathA from rfl, hres]
  exact hover

theorem written_reached : Run smallDevice.toGeometry (freshSystem smallDevice)
    [(.operation (.create fileA 0o644 0 0), true), (.operation (.writeFile fileA byteSeven 0 0), true)]
    writtenSystem :=
  run_cons nofun created_written.1 (run_cons nofun created_written.2 (.nil _))

theorem written_steady : ∃ total V, Steady total writtenSystem V ∧ V.mounted = true ∧
    WholeSectors smallDevice.toGeometry ∧ total ≤ xfsFsBlocks smallDevice.toGeometry := by
  obtain ⟨total, h84, hsmall, hsteady, hsector, ht⟩ := small_steady
  obtain ⟨-, V, hV, -⟩ := first_created h84 hsmall hsteady hsector ht
  obtain ⟨V', hV', hshown⟩ := step_steady (a := .operation (.writeFile fileA byteSeven 0 0)) hV
    (by rintro ⟨⟩) hsector ht created_written.2
  obtain ⟨hm, k, c, n, -, rfl⟩ := operation_done hshown
  exact ⟨total, _, hV', hm, hsector, ht⟩

theorem written_mounted : writtenSystem.fs.mounted = true := by
  obtain ⟨total, V, ⟨⟨d, -, -, hs, -⟩, -⟩, hm, -⟩ := written_steady
  exact hs.mounted.trans hm

end XfsSmallVolume
