import K64.XfsDirectoryUpdate

/-! # What each operation does to the content

Adding and removing entries, creating and unlinking inodes and rewriting a file keep the volume
consistent. Inodes that an operation is not about keep their record and their bytes, and so the
names below them. -/
namespace XfsContentChanges

open ByteCodec XfsFormat XfsInode XfsDirectory XfsVolume XfsConsistency XfsLookup XfsDirectoryUpdate

variable {c c' c'' : Content}

/-- Inodes outside `S` stay in or out of use, and those in use keep their record and their data. -/
structure Keeps (S : ℕ → Prop) (c c' : Content) : Prop where
  total : c'.total = c.total
  used : ∀ id, ¬ S id → (Used c' id ↔ Used c id)
  inode : ∀ id, ¬ S id → Used c id → c'.inode id = c.inode id
  data : ∀ id, ¬ S id → Used c id → ∀ b, c'.dataOf (c.inode id) b = c.dataOf (c.inode id) b

theorem Keeps.refl (S : ℕ → Prop) (c : Content) : Keeps S c c :=
  ⟨rfl, fun _ _ => Iff.rfl, fun _ _ _ => rfl, fun _ _ _ _ => rfl⟩

variable {S : ℕ → Prop}

theorem Keeps.trans (h : Keeps S c c') (h' : Keeps S c' c'') : Keeps S c c'' where
  total := h'.total.trans h.total
  used id hs := (h'.used id hs).trans (h.used id hs)
  inode id hs hu := (h'.inode id hs ((h.used id hs).mpr hu)).trans (h.inode id hs hu)
  data id hs hu b := by
    have hu' := (h.used id hs).mpr hu
    have hd := h'.data id hs hu' b
    rw [h.inode id hs hu] at hd
    exact hd.trans (h.data id hs hu b)

theorem Keeps.weaken {T : ℕ → Prop} (h : Keeps S c c') (hst : ∀ id, S id → T id) :
    Keeps T c c' where
  total := h.total
  used id hs := h.used id fun hx => hs (hst id hx)
  inode id hs := h.inode id fun hx => hs (hst id hx)
  data id hs := h.data id fun hx => hs (hst id hx)

theorem Keeps.childOf (h : Keeps S c c') {dir : ℕ} (hs : ¬ S dir) (hu : Used c dir)
    (name : List UInt8) : childOf c' dir name = childOf c dir name := by
  unfold XfsLookup.childOf
  rw [h.inode dir hs hu, dirFind_congr (h.data dir hs hu)]

theorem keeps_takeRun (S : ℕ → Prop) (c : Content) (start blocks : ℕ) :
    Keeps S c (c.takeRun start blocks) :=
  ⟨rfl, fun _ _ => ⟨fun h => ⟨h.1, h.2, h.3⟩, fun h => ⟨h.1, h.2, h.3⟩⟩, fun _ _ _ => rfl,
    fun _ _ _ _ => rfl⟩

theorem keeps_dropRun (S : ℕ → Prop) (c : Content) (start blocks : ℕ) :
    Keeps S c (c.dropRun start blocks) :=
  ⟨rfl, fun _ _ => ⟨fun h => ⟨h.1, h.2, h.3⟩, fun h => ⟨h.1, h.2, h.3⟩⟩, fun _ _ _ => rfl,
    fun _ _ _ _ => rfl⟩

theorem keeps_setData (h : Allocated c) {n : ℕ}
    (hn : ∀ id, ¬ S id → Used c id → n ∉ Inode.blocks (c.inode id)) (b : XBlock) :
    Keeps S c (c.setData n b) := by
  have hsmall := h.small
  refine ⟨rfl, fun _ _ => ⟨fun h => ⟨h.1, h.2, h.3⟩, fun h => ⟨h.1, h.2, h.3⟩⟩, fun _ _ _ => rfl, ?_⟩
  intro id hs hu l
  exact dataOf_setData (h.fits id hu.pos hu.le) (by omega) (hn id hs hu) b l

theorem keeps_setInode (c : Content) (i : Inode) :
    Keeps (fun id => id = i.inodeId.toNat) c (c.setInode i) :=
  ⟨rfl, fun _ _ => ⟨fun h => ⟨h.1, h.2, h.3⟩, fun h => ⟨h.1, h.2, h.3⟩⟩,
    fun _ hs _ => Function.update_of_ne hs .., fun _ _ _ _ => rfl⟩

theorem keeps_setInodeUsed (c : Content) (id : ℕ) (used : Bool) :
    Keeps (fun k => k = id) c (c.setInodeUsed id used) := by
  have hbit : ∀ k, k ≠ id → (c.setInodeUsed id used).inodeUsed k = c.inodeUsed k :=
    fun k hk => Function.update_of_ne hk ..
  refine ⟨rfl, fun k hk => ⟨fun h => ⟨h.1, h.2, ?_⟩, fun h => ⟨h.1, h.2, ?_⟩⟩, fun _ _ _ => rfl,
    fun _ _ _ _ => rfl⟩
  · rw [← hbit k hk]; exact h.bit
  · rw [hbit k hk]; exact h.bit

theorem type_grown (i : Inode) (n : ℕ) : (Inode.grown i n).type = i.type := by
  unfold Inode.grown
  rfl

variable {i : Inode}

theorem toNat_extentCount_grown (h : i.extentCount.toNat < 8) (n : ℕ) :
    (Inode.grown i n).extentCount.toNat = i.extentCount.toNat + 1 := by
  change (i.extentCount + 1).toNat = _
  rw [UInt32.toNat_add, UInt32.toNat_one]
  omega

def grownExtent (i : Inode) (n : ℕ) : Extent :=
  { (i.directExtents[i.extentCount.toNat]?.getD Extent.zero) with
    logicalBlock := UInt64.ofNat i.extentCount.toNat
    physicalBlock := UInt64.ofNat n
    blockCount := 1 }

theorem extents_grown (h : i.extentCount.toNat < 8) (n : ℕ) :
    Inode.extents (Inode.grown i n) = Inode.extents i ++ [grownExtent i n] := by
  have hext : (Inode.grown i n).directExtents =
      i.directExtents.setIfInBounds i.extentCount.toNat (grownExtent i n) := by
    unfold Inode.grown grownExtent
    rfl
  rw [Inode.extents, toNat_extentCount_grown h, hext, Vector.toList_setIfInBounds,
    List.take_succ_eq_append_getElem (by simpa using h), List.take_set_of_le (Nat.le_refl _)]
  simp [Inode.extents]

theorem blocks_grown (h : i.extentCount.toNat < 8) {n : ℕ} (hn : n < 2 ^ 64) :
    Inode.blocks (Inode.grown i n) = Inode.blocks i ++ [n] := by
  have hp : (grownExtent i n).physicalBlock.toNat = n := by
    change (UInt64.ofNat n).toNat = n
    rw [UInt64.toNat_ofNat', Nat.mod_eq_of_lt hn]
  have hc : (grownExtent i n).blockCount.toNat = 1 := rfl
  rw [Inode.blocks, extents_grown h, List.flatMap_append]
  simp [Inode.blocks, Extent.blocks, hp, hc]

theorem shape_grown (hs : InodeShape i) (h : i.extentCount.toNat < 8) {n : ℕ}
    (hn : n < 2 ^ 64) (hnew : n ∉ Inode.blocks i) : InodeShape (Inode.grown i n) := by
  have hcount := toNat_extentCount_grown h n
  have hlen := length_extents hs.few
  refine ⟨by omega, ?_, ?_, by rw [type_grown]; exact hs.kind, fun hd => ?_⟩
  · intro ex hex
    rw [extents_grown h, List.mem_append, List.mem_singleton] at hex
    rcases hex with hex | rfl
    · exact hs.nonempty ex hex
    · exact Nat.one_pos
  · rw [blocks_grown h hn, List.nodup_append]
    refine ⟨hs.disjoint, List.nodup_singleton n, fun a ha b hb hab => ?_⟩
    rw [List.mem_singleton.mp hb] at hab
    exact hnew (hab ▸ ha)
  · rw [type_grown] at hd
    have hdir := hs.dir hd
    refine ⟨by omega, fun k ex hk => ?_, ?_⟩
    · rw [extents_grown h] at hk
      by_cases hlt : k < (Inode.extents i).length
      · rw [List.getElem?_append_left hlt] at hk
        exact hdir.extent k ex hk
      · rw [List.getElem?_append_right (by omega)] at hk
        have hk0 : k - (Inode.extents i).length = 0 := by
          have := (List.getElem?_eq_some_iff.mp hk).1
          simp at this
          omega
        rw [hk0] at hk
        simp only [List.getElem?_cons_zero, Option.some.injEq] at hk
        subst hk
        refine ⟨?_, rfl⟩
        change (UInt64.ofNat i.extentCount.toNat).toNat = k
        rw [UInt64.toNat_ofNat']
        omega
    · have hsize := hdir.size
      change (i.size + 4096).toNat = _
      rw [UInt64.toNat_add, hsize, hcount]
      have : (4096 : UInt64).toNat = 4096 := rfl
      omega

theorem fits_grown {total : ℕ} (hf : Inode.Fits total i) (h : i.extentCount.toNat < 8)
    {n : ℕ} (h82 : 82 ≤ n) (hn : n < total) (ht : total ≤ 2 ^ 64) :
    Inode.Fits total (Inode.grown i n) := by
  intro ex hex
  rw [extents_grown h, List.mem_append, List.mem_singleton] at hex
  rcases hex with hex | rfl
  · exact hf ex hex
  · have hp : (grownExtent i n).physicalBlock.toNat = n := by
      change (UInt64.ofNat n).toNat = n
      rw [UInt64.toNat_ofNat', Nat.mod_eq_of_lt (by omega)]
    have hc : (grownExtent i n).blockCount.toNat = 1 := rfl
    exact ⟨by omega, by omega⟩

theorem lookup_grown {total : ℕ} (hs : InodeShape i) (hd : i.type = typeDirectory)
    (hf : Inode.Fits total i) (ht : total ≤ 2 ^ 64) (h : i.extentCount.toNat < 8) {n : ℕ}
    (h82 : 82 ≤ n) (hn : n < total) (hnew : n ∉ Inode.blocks i) {k : ℕ}
    (hk : k ≤ i.extentCount.toNat) :
    Inode.lookup (Inode.grown i n) k =
      if k = i.extentCount.toNat then some n else Inode.lookup i k := by
  have hlen := length_extents hs.few
  have hsg := shape_grown hs h (by omega) hnew
  have hfg := fits_grown hf h h82 hn ht
  have hdg : DirShape (Inode.grown i n) := hsg.dir (by rw [type_grown]; exact hd)
  by_cases hkn : k = i.extentCount.toNat
  · have hget : (Inode.extents (Inode.grown i n))[k]? = some (grownExtent i n) := by
      rw [extents_grown h, List.getElem?_append_right (by omega)]
      simp [hlen, hkn]
    rw [if_pos hkn, lookup_dir hsg hdg hfg ht hget]
    change some (UInt64.ofNat n).toNat = _
    rw [UInt64.toNat_ofNat', Nat.mod_eq_of_lt (by omega)]
  · obtain ⟨ex, hex⟩ := exists_extent hs (show k < i.extentCount.toNat by omega)
    have hget : (Inode.extents (Inode.grown i n))[k]? = some ex := by
      rw [extents_grown h, List.getElem?_append_left (by omega), hex]
    rw [if_neg hkn, lookup_dir hsg hdg hfg ht hget, lookup_dir hs (hs.dir hd) hf ht hex]

variable {e : Dirent} {b s : ℕ}

theorem live_of_keeps (h : Keeps S c c') {dir : ℕ}
    (hs : ¬ S dir) : Live c' dir b s e ↔ Live c dir b s e := by
  constructor
  · intro hl
    have hu := (h.used dir hs).mp hl.used
    have hi := h.inode dir hs hu
    obtain ⟨-, h2, h3, h4, h5, h6⟩ := hl
    rw [hi] at h2 h3 h5
    rw [h.data dir hs hu] at h5
    exact ⟨hu, h2, h3, h4, h5, h6⟩
  · intro hl
    have hi := h.inode dir hs hl.used
    refine ⟨(h.used dir hs).mpr hl.used, ?_, ?_, hl.slot, ?_, hl.id⟩
    · rw [hi]; exact hl.isDir
    · rw [hi]; exact hl.block
    · rw [hi, h.data dir hs hl.used]; exact hl.entry

theorem live_touch {id : ℕ} (hid : i.inodeId.toNat = id) (hi : Alike i (c.inode id))
    {dir : ℕ} : Live (c.setInode i) dir b s e ↔ Live c dir b s e := by
  by_cases hd : dir = id
  · subst hd
    have hself : (c.setInode i).inode dir = Inode.sealed i := by
      rw [← hid]; exact Function.update_self ..
    have hdata : (c.setInode i).dataOf (Inode.sealed i) b = c.dataOf (c.inode dir) b :=
      hi.dataOf c b
    have hcount : (Inode.sealed i).extentCount = (c.inode dir).extentCount := hi.extentCount
    have htype : (Inode.sealed i).type = (c.inode dir).type := hi.type
    constructor
    · rintro ⟨h1, h2, h3, h4, h5, h6⟩
      rw [hself] at h2 h3 h5
      rw [hdata] at h5
      exact ⟨⟨h1.1, h1.2, h1.3⟩, htype ▸ h2, hcount ▸ h3, h4, h5, h6⟩
    · rintro ⟨h1, h2, h3, h4, h5, h6⟩
      refine ⟨⟨h1.1, h1.2, h1.3⟩, ?_, ?_, h4, ?_, h6⟩
      · rw [hself, htype]; exact h2
      · rw [hself, hcount]; exact h3
      · rw [hself, hdata]; exact h5
  · exact live_of_keeps (keeps_setInode c i) (hid.symm ▸ hd)

theorem alike_ticked (i : Inode) : Alike (Inode.ticked i) i := ⟨rfl, rfl, rfl, rfl, rfl, rfl⟩

theorem used_setInode {id : ℕ} : Used (c.setInode i) id ↔ Used c id :=
  ⟨fun h => ⟨h.1, h.2, h.3⟩, fun h => ⟨h.1, h.2, h.3⟩⟩

/-- The directory `dir` has one more entry, and nothing else has changed. -/
structure AddedEntry (c c' : Content) (dir : ℕ) (e : Dirent) : Prop where
  consistent : Consistent c'
  keeps : Keeps (fun id => id = dir) c c'
  used : Used c' dir
  type : (c'.inode dir).type = (c.inode dir).type
  live : ∃ b₀ s₀, ∀ b s e', Live c' dir b s e' ↔ Live c dir b s e' ∨ (b = b₀ ∧ s = s₀ ∧ e' = e)

theorem AddedEntry.childOf {dir : ℕ} (h : AddedEntry c c' dir e) (hc : Consistent c)
    (hu : Used c dir) {name : List UInt8} (hn : (0 : UInt8) ∉ name)
    (hnew : XfsLookup.childOf c dir (nameOf e) = none) : XfsLookup.childOf c' dir name =
      if name = nameOf e then some e.inodeId.toNat else XfsLookup.childOf c dir name := by
  obtain ⟨b₀, s₀, hlive⟩ := h.live
  by_cases hname : name = nameOf e
  · rw [if_pos hname, childOf_eq_some h.consistent h.used hn]
    exact ⟨b₀, s₀, e, (hlive b₀ s₀ e).mpr (Or.inr ⟨rfl, rfl, rfl⟩), hname.symm, rfl⟩
  · rw [if_neg hname]
    refine Option.ext fun id => ?_
    rw [childOf_eq_some h.consistent h.used hn, childOf_eq_some hc hu hn]
    constructor
    · rintro ⟨b, s, e', hl, rfl, rfl⟩
      rcases (hlive b s e').mp hl with hl | ⟨-, -, rfl⟩
      · exact ⟨b, s, e', hl, rfl, rfl⟩
      · exact absurd rfl hname
    · rintro ⟨b, s, e', hl, rfl, rfl⟩
      exact ⟨b, s, e', (hlive b s e').mpr (Or.inl hl), rfl, rfl⟩

theorem putIn_added (h : Consistent c) {dir n : ℕ} (hu : Used c dir)
    (hd : (c.inode dir).type = typeDirectory) (hb : b < (c.inode dir).extentCount.toNat)
    (hs : s < 25) (hl : Inode.lookup (c.inode dir) b = some n)
    (hslot : (dirent (c.dataOf (c.inode dir) b) s).inodeId = 0) (he : Fresh c dir e)
    (he0 : e.inodeId ≠ 0) : AddedEntry c (putIn c (c.inode dir) e b s n) dir e := by
  have hsmall := h.small
  have hf := h.fits dir hu.pos hu.le
  have hself := (hu.inodeId h.toAllocated).2
  have hdata : c.dataOf (c.inode dir) b = c.data n := by simp [Content.dataOf, hl]
  have hput := h.putEntry hu hd hb hs hl (Or.inr he)
  have hmem := lookup_mem_blocks hf (by omega) hl
  unfold putIn
  rw [hdata]
  refine ⟨hput.touch (k := dir) ⟨hu.1, hu.2, hu.3⟩ (alike_ticked _), ?_,
    used_setInode.mpr ⟨hu.1, hu.2, hu.3⟩, ?_, b, s, fun b' s' e' => ?_⟩
  · refine (keeps_setData h.toAllocated (fun id hid hu' hn => ?_) _).trans
      ((keeps_setInode _ _).weaken fun id hid => hid.trans hself)
    exact hid (h.owner id dir hu' hu n hn hmem)
  · change (Function.update c.inode (c.inode dir).inodeId.toNat _ dir).type = _
    rw [hself, Function.update_self]
    rfl
  · rw [live_touch (c := c.setData n _) (i := Inode.ticked (c.inode dir)) hself (alike_ticked _),
      live_putEntry h.toAllocated hu hd hb hs hl]
    constructor
    · intro hx
      split at hx
      case isTrue heq => exact Or.inr ⟨heq.2.1, heq.2.2, hx.1⟩
      case isFalse => exact Or.inl hx
    · rintro (hx | ⟨rfl, rfl, rfl⟩)
      · split
        case isTrue heq =>
          obtain ⟨-, rfl, rfl⟩ := heq
          rw [hx.entry] at hslot
          exact absurd hslot hx.id
        case isFalse => exact hx
      · rw [if_pos ⟨rfl, rfl, rfl⟩]
        exact ⟨rfl, he0⟩

def grownEmpty (c : Content) (dir : Inode) (n : ℕ) : Content :=
  ((c.takeRun n 1).setData n Block.zero).setInode (Inode.grown dir n)

theorem setData_setData (c : Content) (n : ℕ) (b b' : XBlock) :
    (c.setData n b).setData n b' = c.setData n b' := by
  simp [Content.setData]

theorem growBy_eq (c : Content) (dir : Inode) (e : Dirent) (n : ℕ) :
    growBy c dir e n = (grownEmpty c dir n).setData n (setDirent ((grownEmpty c dir n).data n) 0 e) := by
  have hdata : (grownEmpty c dir n).data n = Block.zero := Function.update_self ..
  have hcomm : ∀ (c : Content) (i : Inode) (b : XBlock),
      (c.setInode i).setData n b = (c.setData n b).setInode i := fun _ _ _ => rfl
  rw [hdata, growBy, grownEmpty, hcomm, setData_setData]

section Grow

variable {dir n : ℕ}

/-- Taking one more block for a used inode changes no other inode and no entry. -/
theorem grownEmpty_kept (h : Consistent c) (hu : Used c dir)
    (h8 : (c.inode dir).extentCount.toNat < 8) (h82 : 82 ≤ n) (hn : n < c.total)
    (hfree : c.blockUsed n = false) :
    Consistent (grownEmpty c (c.inode dir) n) ∧
      Keeps (fun id => id = dir) c (grownEmpty c (c.inode dir) n) ∧
      ((c.inode dir).type = typeDirectory → ∀ b s e,
        Live (grownEmpty c (c.inode dir) n) dir b s e ↔ Live c dir b s e) := by
  have hsmall := h.small
  have ht : c.total ≤ 2 ^ 64 := by omega
  have hf := h.fits dir hu.pos hu.le
  have hshape := h.shape dir hu
  obtain ⟨hmagic, hself⟩ := hu.inodeId h.toAllocated
  have hid : (Inode.grown (c.inode dir) n).inodeId.toNat = dir := by rw [inodeId_grown]; exact hself
  have hnew : ∀ id, Used c id → n ∉ Inode.blocks (c.inode id) :=
    fun id hid => unmarked_not_owned h hid hfree
  have htake : Consistent (c.takeRun n 1) := h.takeRun h82 (by omega)
    fun x h1 h2 => by rw [show x = n by omega]; exact hfree
  have hdata := htake.setData (n := n) (fun id hid _ => hnew id ⟨hid.1, hid.2, hid.3⟩) Block.zero
  have hlook : (c.inode dir).type = typeDirectory → ∀ b ≤ (c.inode dir).extentCount.toNat,
      ((c.takeRun n 1).setData n Block.zero).dataOf (Inode.grown (c.inode dir) n) b =
        if b = (c.inode dir).extentCount.toNat then Block.zero else c.dataOf (c.inode dir) b := by
    intro hd b hb
    have hkeep := dataOf_setData (c := c.takeRun n 1) hf ht (hnew dir hu) Block.zero b
    unfold Content.dataOf at hkeep ⊢
    rw [lookup_grown hshape hd hf (by omega) h8 h82 hn (hnew dir hu) hb]
    by_cases hbe : b = (c.inode dir).extentCount.toNat
    · rw [if_pos hbe, if_pos hbe]
      exact Function.update_self ..
    · rw [if_neg hbe, if_neg hbe]
      exact hkeep
  have hblocks := blocks_grown h8 (show n < 2 ^ 64 by omega)
  have hcount := toNat_extentCount_grown h8 n
  have hcons : Consistent (grownEmpty c (c.inode dir) n) := by
    refine hdata.rewrite (i := Inode.grown (c.inode dir) n) (hid.symm ▸ ⟨hu.1, hu.2, hu.3⟩) ?_
      (fits_grown hf h8 h82 hn (by omega)) (shape_grown hshape h8 (by omega) (hnew dir hu)) ?_ ?_ ?_ ?_
    · unfold Inode.grown; exact hmagic
    · intro b hb
      rw [hblocks, List.mem_append, List.mem_singleton] at hb
      change (if n ≤ b ∧ b < n + 1 then true else c.blockUsed b) = true
      rcases hb with hb | rfl
      · split
        · rfl
        · exact h.marked dir hu b hb
      · rw [if_pos (by omega)]
    · intro id hidu hne b hb hb'
      rw [hblocks, List.mem_append, List.mem_singleton] at hb
      rcases hb with hb | rfl
      · exact hne ((h.owner id dir ⟨hidu.1, hidu.2, hidu.3⟩ hu b hb' hb).trans hid.symm)
      · exact hnew id ⟨hidu.1, hidu.2, hidu.3⟩ hb'
    · rw [hid, type_grown]; rfl
    · intro hd b s hb _ he
      rw [type_grown] at hd
      rw [hlook hd b (by omega)] at he ⊢
      rw [hid]
      by_cases hbe : b = (c.inode dir).extentCount.toNat
      · rw [if_pos hbe] at he
        exact absurd (dirent_zero s) he
      · rw [if_neg hbe]
        exact ⟨by change b < (c.inode dir).extentCount.toNat; omega,
          dataOf_setData (c := c.takeRun n 1) hf ht (hnew dir hu) Block.zero b⟩
  refine ⟨hcons, ?_, fun hd b s e => ?_⟩
  · exact ((keeps_takeRun _ c n 1).trans (keeps_setData htake.toAllocated
      (fun id _ hidu => hnew id ⟨hidu.1, hidu.2, hidu.3⟩) _)).trans
      ((keeps_setInode _ _).weaken fun id h => h.trans hid)
  · have hrec : (grownEmpty c (c.inode dir) n).inode dir =
        Inode.sealed (Inode.grown (c.inode dir) n) := by
      change Function.update c.inode (Inode.grown (c.inode dir) n).inodeId.toNat _ dir = _
      rw [hid, Function.update_self]
    have hblk : ∀ i b, (grownEmpty c (c.inode dir) n).dataOf (Inode.sealed i) b =
        ((c.takeRun n 1).setData n Block.zero).dataOf i b := fun _ _ => rfl
    have hcnt : ∀ i, (Inode.sealed i).extentCount = i.extentCount := fun _ => rfl
    have htyp : ∀ i, (Inode.sealed i).type = i.type := fun _ => rfl
    constructor
    · rintro ⟨h1, h2, h3, h4, h5, h6⟩
      rw [hrec, hcnt, hcount] at h3
      rw [hrec, hblk, hlook hd b (by omega)] at h5
      by_cases hbe : b = (c.inode dir).extentCount.toNat
      · rw [if_pos hbe] at h5
        exact absurd (h5 ▸ dirent_zero s) h6
      · rw [if_neg hbe] at h5
        exact ⟨⟨h1.1, h1.2, h1.3⟩, hd, by omega, h4, h5, h6⟩
    · rintro ⟨h1, h2, h3, h4, h5, h6⟩
      refine ⟨⟨h1.1, h1.2, h1.3⟩, ?_, ?_, h4, ?_, h6⟩
      · rw [hrec, htyp, type_grown]; exact hd
      · rw [hrec, hcnt, hcount]; omega
      · rw [hrec, hblk, hlook hd b (by omega), if_neg (by omega)]; exact h5

theorem growBy_added (h : Consistent c) {e : Dirent} (hu : Used c dir)
    (hd : (c.inode dir).type = typeDirectory) (h8 : (c.inode dir).extentCount.toNat < 8)
    (h82 : 82 ≤ n) (hn : n < c.total) (hfree : c.blockUsed n = false) (he : Fresh c dir e)
    (he0 : e.inodeId ≠ 0) : AddedEntry c (growBy c (c.inode dir) e n) dir e := by
  have hsmall := h.small
  have hf := h.fits dir hu.pos hu.le
  have hid : (Inode.grown (c.inode dir) n).inodeId.toNat = dir := by
    rw [inodeId_grown]; exact (hu.inodeId h.toAllocated).2
  obtain ⟨hcons, hkeeps, hlive⟩ := grownEmpty_kept h hu h8 h82 hn hfree
  have hlive := hlive hd
  have hrec : (grownEmpty c (c.inode dir) n).inode dir =
      Inode.sealed (Inode.grown (c.inode dir) n) := by
    change Function.update c.inode (Inode.grown (c.inode dir) n).inodeId.toNat _ dir = _
    rw [hid, Function.update_self]
  have hlk : ∀ i b, Inode.lookup (Inode.sealed i) b = Inode.lookup i b := fun _ _ => rfl
  have hcnt : ∀ i, (Inode.sealed i).extentCount = i.extentCount := fun _ => rfl
  have htyp : ∀ i, (Inode.sealed i).type = i.type := fun _ => rfl
  have hu' : Used (grownEmpty c (c.inode dir) n) dir := ⟨hu.1, hu.2, hu.3⟩
  have htype : ((grownEmpty c (c.inode dir) n).inode dir).type = (c.inode dir).type := by
    rw [hrec, htyp, type_grown]
  have hb : (c.inode dir).extentCount.toNat <
      ((grownEmpty c (c.inode dir) n).inode dir).extentCount.toNat := by
    rw [hrec, hcnt, toNat_extentCount_grown h8]; omega
  have hl : Inode.lookup ((grownEmpty c (c.inode dir) n).inode dir)
      (c.inode dir).extentCount.toNat = some n := by
    rw [hrec, hlk, lookup_grown (h.shape dir hu) hd hf (by omega) h8 h82 hn
      (unmarked_not_owned h hu hfree) (Nat.le_refl _), if_pos rfl]
  -- entries of other directories are as they were, so the entry is still a fresh one
  have hall : ∀ d b s e', Live (grownEmpty c (c.inode dir) n) d b s e' ↔ Live c d b s e' := by
    intro d b s e'
    by_cases hdd : d = dir
    · rw [hdd]; exact hlive b s e'
    · exact live_of_keeps hkeeps hdd
  have hfresh : Fresh (grownEmpty c (c.inode dir) n) dir e := by
    refine ⟨⟨he.ok.made, ⟨he.ok.used.1, he.ok.used.2, he.ok.used.3⟩, he.ok.notRoot, ?_⟩, ?_, ?_⟩
    · by_cases hed : e.inodeId.toNat = dir
      · rw [hed, htype, ← hed]; exact he.ok.type
      · rw [hkeeps.inode _ hed he.ok.used]; exact he.ok.type
    · exact fun d b s e' hlv => he.unnamed d b s e' ((hall d b s e').mp hlv)
    · exact fun b s e' hlv => he.untaken b s e' ((hall dir b s e').mp hlv)
  have hput := hcons.putEntry hu' (htype.trans hd) hb (by decide : 0 < 25) hl (Or.inr hfresh)
  rw [growBy_eq]
  refine ⟨hput, hkeeps.trans (keeps_setData hcons.toAllocated (fun id hne hidu hmem => ?_) _),
    ⟨hu.1, hu.2, hu.3⟩, htype, (c.inode dir).extentCount.toNat, 0, fun b s e' => ?_⟩
  · have hf' := hcons.fits dir hu.pos hu.le
    exact hne (hcons.owner id dir hidu hu' n hmem
      (lookup_mem_blocks hf' (Nat.le_trans hcons.small (by decide)) hl))
  · rw [live_putEntry hcons.toAllocated hu' (htype.trans hd) hb (by decide : 0 < 25) hl]
    constructor
    · intro hx
      split at hx
      case isTrue heq => exact Or.inr ⟨heq.2.1, heq.2.2, hx.1⟩
      case isFalse => exact Or.inl ((hlive b s e').mp hx)
    · rintro (hx | ⟨rfl, rfl, rfl⟩)
      · rw [if_neg (by rintro ⟨-, rfl, -⟩; exact absurd hx.block (Nat.lt_irrefl _))]
        exact (hlive b s e').mpr hx
      · rw [if_pos ⟨rfl, rfl, rfl⟩]
        exact ⟨rfl, he0⟩

end Grow

theorem freeSlot_some {dir : ℕ} (h : Consistent c) (hu : Used c dir)
    (hd : (c.inode dir).type = typeDirectory)
    (hs : freeSlot c (c.inode dir) = some (b, s)) : b < (c.inode dir).extentCount.toNat ∧ s < 25 ∧
      (dirent (c.dataOf (c.inode dir) b) s).inodeId = 0 := by
  have hshape := h.shape dir hu
  unfold freeSlot at hs
  rw [sizeBlocks_dir hshape (hshape.dir hd)] at hs
  obtain ⟨h1, h2, h3⟩ := freeFrom_some _ _ hs
  exact ⟨by omega, h2, h3⟩

theorem added_entry {dir : ℕ} (h : Consistent c) (hu : Used c dir)
    (hd : (c.inode dir).type = typeDirectory) (he : Fresh c dir e)
    (he0 : e.inodeId ≠ 0) {k : ℕ} (hadd : added c (c.inode dir) e = some (k, c')) :
    AddedEntry c c' dir e ∧ k ≤ 2 := by
  obtain ⟨b, s, n, hs, hl, rfl, rfl⟩ | ⟨n, -, h8, hn, rfl, rfl⟩ := added_cases hadd
  · obtain ⟨h1, h2, h3⟩ := freeSlot_some h hu hd hs
    exact ⟨putIn_added h hu hd h1 h2 hl h3 he he0, by decide⟩
  · obtain ⟨-, -, h82, hlt, hfree⟩ := allocRun_some hn
    exact ⟨growBy_added h hu hd h8 h82 (by omega) (hfree n (Nat.le_refl n) (by omega)) he he0,
      Nat.le_refl 2⟩

theorem added_regular {dir : ℕ} (h : Consistent c) (hu : Used c dir)
    (hd : (c.inode dir).type ≠ typeDirectory) {k : ℕ}
    (hadd : added c (c.inode dir) e = some (k, c')) :
    Consistent c' ∧ Keeps (fun id => id = dir) c c' := by
  have hsmall := h.small
  have hself := (hu.inodeId h.toAllocated).2
  obtain ⟨b, s, n, -, hl, -, rfl⟩ | ⟨n, -, h8, hn, -, rfl⟩ := added_cases hadd
  · have hmem := lookup_mem_blocks (h.fits dir hu.pos hu.le) (by omega) hl
    have hset := h.setData (n := n) (fun d hdu hdd hn => hd ((h.owner d dir hdu hu n hn hmem) ▸ hdd))
      (setDirent (c.dataOf (c.inode dir) b) s e)
    refine ⟨hset.touch (k := dir) ⟨hu.1, hu.2, hu.3⟩ (alike_ticked _), ?_⟩
    exact (keeps_setData h.toAllocated (fun id hne hidu hn => hne (h.owner id dir hidu hu n hn hmem))
      _).trans ((keeps_setInode _ _).weaken fun id hid => hid.trans hself)
  · obtain ⟨-, -, h82, hlt, hfree⟩ := allocRun_some hn
    have hfree := hfree n (Nat.le_refl n) (by omega)
    obtain ⟨hcons, hkeeps, -⟩ := grownEmpty_kept h hu h8 h82 (by omega) hfree
    rw [growBy_eq]
    have hnew : ∀ id, id ≠ dir → Used (grownEmpty c (c.inode dir) n) id →
        n ∉ Inode.blocks ((grownEmpty c (c.inode dir) n).inode id) := by
      intro id hne hidu
      have hidu' : Used c id := ⟨hidu.1, hidu.2, hidu.3⟩
      rw [hkeeps.inode id hne hidu']
      exact unmarked_not_owned h hidu' hfree
    refine ⟨hcons.setData (fun d hdu hdd => hnew d ?_ hdu) _, hkeeps.trans
      (keeps_setData hcons.toAllocated hnew _)⟩
    rintro rfl
    have hrec : (grownEmpty c (c.inode d) n).inode d =
        Inode.sealed (Inode.grown (c.inode d) n) := by
      change Function.update c.inode (Inode.grown (c.inode d) n).inodeId.toNat _ d = _
      rw [inodeId_grown, hself, Function.update_self]
    rw [hrec, show ∀ i, (Inode.sealed i).type = i.type from fun _ => rfl, type_grown] at hdd
    exact hd hdd

theorem extents_single (hcount : i.extentCount = 1) {v : Vector Extent 8} {ex : Extent}
    (hdir : i.directExtents = v.set 0 ex XfsOperations.extents_pos) : Inode.extents i = [ex] := by
  rw [Inode.extents, hcount, hdir, show (1 : UInt32).toNat = 1 from rfl, Vector.toList_set]
  have hlen : v.toList.length = 8 := by simp
  obtain ⟨x, xs, h⟩ : ∃ x xs, v.toList = x :: xs := List.exists_cons_of_length_pos (by omega)
  simp [h]

variable {blocks : ℕ}

theorem toNat_singleExtent {start : ℕ} (h : start + blocks < 2 ^ 64) :
    (singleExtent start blocks).physicalBlock.toNat = start ∧
      (singleExtent start blocks).blockCount.toNat = blocks ∧
      (singleExtent start blocks).logicalBlock.toNat = 0 := by
  refine ⟨?_, ?_, rfl⟩
  · change (UInt64.ofNat start).toNat = start
    rw [UInt64.toNat_ofNat', Nat.mod_eq_of_lt (by omega)]
  · change (UInt64.ofNat blocks).toNat = blocks
    rw [UInt64.toNat_ofNat', Nat.mod_eq_of_lt (by omega)]

theorem blocks_single {start : ℕ} (h : start + blocks < 2 ^ 64)
    (he : Inode.extents i = [singleExtent start blocks]) :
    Inode.blocks i = List.range' start blocks := by
  obtain ⟨h1, h2, -⟩ := toNat_singleExtent h
  rw [Inode.blocks, he]
  simp [Extent.blocks, h1, h2]

theorem lookup_single {start : ℕ} (h : start + blocks < 2 ^ 64)
    (he : Inode.extents i = [singleExtent start blocks]) (logical : ℕ) :
    Inode.lookup i logical = if logical < blocks then some (start + logical) else none := by
  obtain ⟨h1, h2, h3⟩ := toNat_singleExtent h
  have hcov : Extent.covers (singleExtent start blocks) logical = decide (logical < blocks) := by
    rw [Extent.covers, h2, h3, Nat.zero_add, Nat.mod_eq_of_lt (by omega)]
    simp
  rw [Inode.lookup, he, List.find?_cons, hcov]
  by_cases hl : logical < blocks
  · have ht : Extent.target (singleExtent start blocks) logical = start + logical := by
      rw [Extent.target, h1, h3, Nat.sub_zero, Nat.mod_eq_of_lt (by omega)]
    simp [hl, ht]
  · simp [hl]

theorem blocks_empty (hcount : i.extentCount = 0) :
    Inode.extents i = [] ∧ Inode.blocks i = [] := by
  have he : Inode.extents i = [] := by rw [Inode.extents, hcount]; rfl
  exact ⟨he, by rw [Inode.blocks, he]; rfl⟩

theorem shape_empty (hcount : i.extentCount = 0) (ht : i.type = typeRegular) :
    InodeShape i := by
  obtain ⟨he, hb⟩ := blocks_empty hcount
  refine ⟨by rw [hcount]; decide, by simp [he], by simp [hb], Or.inl ht, fun hd => ?_⟩
  rw [ht] at hd
  exact absurd hd (by decide)

theorem fits_empty {total : ℕ} (hcount : i.extentCount = 0) : Inode.Fits total i := by
  intro ex hex
  rw [(blocks_empty hcount).1] at hex
  cases hex

section NewInode

variable {id : ℕ} {inode : Inode} {type : UInt16} {generation : UInt64} {mode uid gid : UInt32}

structure PreparedInode (c c' : Content) (id : ℕ) (type : UInt16) : Prop where
  consistent : Consistent c'
  keeps : Keeps (fun k => k = id) c c'
  used : Used c' id
  type : (c'.inode id).type = type
  live : ∀ d b s e, Live c' d b s e ↔ Live c d b s e

theorem freshFile_prepared (h : Consistent c) (hs : c.spareInode = some id)
    (hi : inode = newInode generation (UInt32.ofNat id) typeRegular mode uid gid) :
    PreparedInode c (freshFile c inode) id typeRegular := by
  obtain ⟨h2, h512, hun, hidn, -⟩ := spareInode_some hs
  have hid : inode.inodeId.toNat = id := by rw [hi]; exact hidn
  have hcount : inode.extentCount = 0 := by rw [hi]; rfl
  have htype : inode.type = typeRegular := by rw [hi]; rfl
  have hnot : ¬ Used c id := fun hu => by rw [hu.bit] at hun; cases hun
  have hcons := h.replace (i := inode) (by rw [hi]; rfl) (fits_empty hcount)
    (shape_empty hcount htype) (by simp [(blocks_empty hcount).2])
    (by simp [(blocks_empty hcount).2]) (fun hu => absurd (hid ▸ hu) hnot)
    (fun hd => by rw [htype] at hd; exact absurd hd (by decide))
  have heq : (c.setInode inode).setInodeUsed inode.inodeId.toNat true = freshFile c inode := rfl
  rw [heq] at hcons
  have hkeeps : Keeps (fun k => k = id) c (freshFile c inode) :=
    ((keeps_setInodeUsed c _ true).weaken fun _ h => h.trans hid).trans
      ((keeps_setInode _ inode).weaken fun _ h => h.trans hid)
  have hrec : (freshFile c inode).inode id = Inode.sealed inode := by
    rw [← hid]; exact Function.update_self ..
  have hty : ((freshFile c inode).inode id).type = typeRegular := by rw [hrec]; exact htype
  refine ⟨hcons, hkeeps, ⟨by omega, h512, ?_⟩, hty, fun d b s e => ?_⟩
  · rw [← hid]; exact Function.update_self ..
  · by_cases hd : d = id
    · subst hd
      constructor
      · intro hl
        have := hl.isDir
        rw [hty] at this
        exact absurd this (by decide)
      · exact fun hl => absurd hl.used hnot
    · exact live_of_keeps hkeeps hd

theorem extents_withBlock (i : Inode) (n : ℕ) :
    Inode.extents (Inode.withBlock i n) = [singleExtent n 1] :=
  extents_single (i := Inode.withBlock i n) rfl rfl

theorem shape_withBlock {i : Inode} {n : ℕ} (hn : n + 1 < 2 ^ 64) (ht : i.type = typeDirectory) :
    InodeShape (Inode.withBlock i n) := by
  obtain ⟨-, hc, hl⟩ := toNat_singleExtent hn
  have he := extents_withBlock i n
  have h1 : (Inode.withBlock i n).extentCount.toNat = 1 := rfl
  refine ⟨by omega, ?_, ?_, Or.inr ht, fun _ => ⟨by omega, fun k ex hk => ?_, rfl⟩⟩
  · intro ex hex
    rw [he, List.mem_singleton] at hex
    rw [hex, hc]
    decide
  · rw [blocks_single hn he]
    exact List.nodup_range'
  · rw [he] at hk
    cases k with
    | zero =>
      simp only [List.getElem?_cons_zero, Option.some.injEq] at hk
      rw [← hk]
      exact ⟨hl, hc⟩
    | succ k => simp at hk

theorem freshDir_prepared (h : Consistent c) (hs : c.spareInode = some id)
    (hi : inode = newInode generation (UInt32.ofNat id) typeDirectory mode uid gid) {n : ℕ}
    (hn : allocRun c 1 = some n) : PreparedInode c (freshDir c inode n) id typeDirectory := by
  obtain ⟨h2, h512, hun, hidn, -⟩ := spareInode_some hs
  obtain ⟨-, -, h82, hlt, hfree⟩ := allocRun_some hn
  have hsmall := h.small
  have hfree := hfree n (Nat.le_refl n) (by omega)
  have hid : inode.inodeId.toNat = id := by rw [hi]; exact hidn
  have hwid : (Inode.withBlock inode n).inodeId.toNat = id := hid
  have htype : inode.type = typeDirectory := by rw [hi]; rfl
  have hnot : ¬ Used c id := fun hu => by rw [hu.bit] at hun; cases hun
  have hnew : ∀ k, Used c k → n ∉ Inode.blocks (c.inode k) :=
    fun k hk => unmarked_not_owned h hk hfree
  have he := extents_withBlock inode n
  have hbl := blocks_single (show n + 1 < 2 ^ 64 by omega) he
  obtain ⟨hp, hc1, -⟩ := toNat_singleExtent (show n + 1 < 2 ^ 64 by omega)
  have htake : Consistent (c.takeRun n 1) := h.takeRun h82 hlt
    fun x h1 h2 => by rw [show x = n by omega]; exact hfree
  have hdata := htake.setData (n := n) (fun k hk _ => hnew k ⟨hk.1, hk.2, hk.3⟩) Block.zero
  have hlook : Inode.lookup (Inode.withBlock inode n) 0 = some n :=
    lookup_single (by omega) he 0
  have hempty : ∀ b s, b < (Inode.withBlock inode n).extentCount.toNat →
      (dirent (((c.takeRun n 1).setData n Block.zero).dataOf (Inode.withBlock inode n) b) s).inodeId
        = 0 := by
    intro b s hb
    have hb0 : b = 0 := Nat.lt_one_iff.mp hb
    rw [hb0, Content.dataOf, hlook]
    change (dirent (Function.update c.data n Block.zero n) s).inodeId = 0
    rw [Function.update_self]
    exact dirent_zero s
  have hcons := hdata.replace (i := Inode.withBlock inode n) (by rw [hi]; rfl) ?_
    (shape_withBlock (by omega) htype) ?_ ?_ (fun hu => absurd ⟨hu.1, hu.2, hu.3⟩ (hwid ▸ hnot))
    (fun _ b s hb _ hx => absurd (hempty b s hb) hx)
  · have heq : ((((c.takeRun n 1).setData n Block.zero).setInode
        (Inode.withBlock inode n)).setInodeUsed (Inode.withBlock inode n).inodeId.toNat true) =
        freshDir c inode n := by
      unfold freshDir freshFile Content.setInode Content.setInodeUsed Content.setData
        Content.takeRun Content.markRun Content.withFree
      simp only [hwid, hid, Function.update_idem]
    rw [heq] at hcons
    have hkeeps : Keeps (fun k => k = id) c (freshDir c inode n) := by
      rw [← heq]
      exact (((keeps_takeRun _ c n 1).trans (keeps_setData htake.toAllocated
        (fun k _ hk => hnew k ⟨hk.1, hk.2, hk.3⟩) _)).trans
        ((keeps_setInode _ _).weaken fun _ h => h.trans hwid)).trans
        ((keeps_setInodeUsed _ _ true).weaken fun _ h => h.trans hwid)
    have hrec : (freshDir c inode n).inode id = Inode.sealed (Inode.withBlock inode n) := by
      rw [← hid]; exact Function.update_self ..
    refine ⟨hcons, hkeeps, ⟨by omega, h512, ?_⟩, by rw [hrec]; exact htype, fun d b s e => ?_⟩
    · rw [← hid]; exact Function.update_self ..
    · by_cases hd : d = id
      · subst hd
        constructor
        · rintro ⟨-, -, h3, -, h5, h6⟩
          rw [hrec] at h3 h5
          exact absurd (h5 ▸ hempty b s h3) h6
        · exact fun hl => absurd hl.used hnot
      · exact live_of_keeps hkeeps hd
  · intro ex hex
    rw [he, List.mem_singleton] at hex
    rw [hex]
    exact ⟨by rw [hp]; exact h82, by rw [hp, hc1]; exact hlt⟩
  · intro b hb
    rw [hbl, List.mem_range'_1] at hb
    change (if n ≤ b ∧ b < n + 1 then true else c.blockUsed b) = true
    rw [if_pos hb]
  · intro k hk _ b hb
    rw [hbl, List.mem_range'_1] at hb
    rw [show b = n by omega]
    exact hnew k ⟨hk.1, hk.2, hk.3⟩

theorem prepared_inode (h : Consistent c) (hs : c.spareInode = some id)
    (hi : inode = newInode generation (UInt32.ofNat id) type mode uid gid)
    (ht : type = typeRegular ∨ type = typeDirectory) {k : ℕ}
    (hp : prepared c inode type = some (k, c')) : PreparedInode c c' id type := by
  unfold prepared at hp
  split at hp
  case isTrue hd =>
    subst hd
    obtain ⟨n, hn, heq⟩ := Option.map_eq_some_iff.mp hp
    obtain ⟨-, rfl⟩ := Prod.mk.inj heq
    exact freshDir_prepared h hs hi hn
  case isFalse hd =>
    obtain rfl : type = typeRegular := ht.resolve_right hd
    obtain ⟨-, rfl⟩ := Prod.mk.inj (Option.some.inj hp)
    exact freshFile_prepared h hs hi

end NewInode

def dropExtents (c : Content) : List Extent → Content
  | [] => c
  | ex :: rest => dropExtents (c.dropRun ex.physicalBlock.toNat ex.blockCount.toNat) rest

theorem dropExtents_comm {f : Content → Content}
    (hf : ∀ c start blocks, f (c.dropRun start blocks) = (f c).dropRun start blocks)
    (exts : List Extent) : ∀ c, f (dropExtents c exts) = dropExtents (f c) exts := by
  induction exts with
  | nil => exact fun _ => rfl
  | cons ex rest ih => intro c; rw [dropExtents, ih, hf]; rfl

theorem keeps_dropExtents (S : ℕ → Prop) (exts : List Extent) : ∀ c, Keeps S c (dropExtents c exts) := by
  induction exts with
  | nil => exact fun c => Keeps.refl S c
  | cons ex rest ih => exact fun c => (keeps_dropRun S c _ _).trans (ih _)

theorem dropExtents_fields (exts : List Extent) : ∀ c, (dropExtents c exts).data = c.data ∧
    (dropExtents c exts).inode = c.inode ∧ (dropExtents c exts).inodeUsed = c.inodeUsed ∧
    (dropExtents c exts).total = c.total := by
  induction exts with
  | nil => exact fun _ => ⟨rfl, rfl, rfl, rfl⟩
  | cons ex rest ih => exact fun c => ih (c.dropRun ex.physicalBlock.toNat ex.blockCount.toNat)

theorem Consistent.dropExtents (exts : List Extent) : ∀ {c : Content}, Consistent c →
    (∀ ex ∈ exts, Extent.Fits c.total ex) →
    (∀ id, Used c id → ∀ b ∈ Inode.blocks (c.inode id), ∀ ex ∈ exts, b ∉ Extent.blocks ex) →
    Consistent (XfsContentChanges.dropExtents c exts) := by
  induction exts with
  | nil => exact fun h _ _ => h
  | cons ex rest ih =>
    intro c h hfit hown
    have hex := hfit ex (List.mem_cons_self ..)
    refine ih (h.dropRun hex.1 hex.2 fun id hid b hb hx => ?_)
      (fun x hx => hfit x (List.mem_cons_of_mem _ hx))
      (fun id hid b hb x hx => hown id ⟨hid.1, hid.2, hid.3⟩ b hb x (List.mem_cons_of_mem _ hx))
    exact hown id hid b hb ex (List.mem_cons_self ..) (mem_extent_blocks.mpr hx)

theorem not_owned_twice (h : Allocated c) {id : ℕ} (hu : Used c id) {k : ℕ} (hk : Used c k)
    (hne : k ≠ id) : ∀ b ∈ Inode.blocks (c.inode k), ∀ ex ∈ Inode.extents (c.inode id),
      b ∉ Extent.blocks ex := by
  intro b hb ex hex hbe
  exact hne (h.owner k id hk hu b hb (List.mem_flatMap.mpr ⟨ex, hex, hbe⟩))

/-- The inode `id` and its entry in the directory `parent` are gone. -/
structure Unlinked (c c' : Content) (parent id : ℕ) (leaf : List UInt8) : Prop where
  consistent : Consistent c'
  keeps : Keeps (fun k => k = parent ∨ k = id) c c'
  used : Used c' parent
  gone : ¬ Used c' id
  type : (c'.inode parent).type = (c.inode parent).type
  child : ∀ name, (0 : UInt8) ∉ name → childOf c' parent name =
    if name = leaf then none else childOf c parent name

/-- What the shared part of `k64_xfs_remove` and `k64_xfs_rmdir` makes of the content. -/
def unlinked (c : Content) (parent inode : Inode) (id b s n : ℕ) : Content :=
  putIn ((dropExtents c (Inode.extents inode)).setInodeUsed id false) parent Dirent.zero b s n

theorem putIn_fields (c : Content) (dir : Inode) (e : Dirent) (b s n : ℕ) :
    putIn c dir e b s n = (c.setData n (setDirent (c.dataOf dir b) s e)).setInode
      (Inode.ticked dir) := rfl

theorem unlinked_eq (c : Content) (parent inode : Inode) (id b s n : ℕ) :
    unlinked c parent inode id b s n =
      dropExtents ((putIn c parent Dirent.zero b s n).setInodeUsed id false)
        (Inode.extents inode) :=
  dropExtents_comm (f := fun c => putIn (c.setInodeUsed id false) parent Dirent.zero b s n)
    (fun _ _ _ => rfl) _ c

structure Cleared (c c' : Content) (parent b s : ℕ) : Prop where
  consistent : Consistent c'
  keeps : Keeps (fun k => k = parent) c c'
  used : ∀ id, Used c' id ↔ Used c id
  type : ∀ id, (c'.inode id).type = (c.inode id).type
  live : ∀ d b' s' e', Live c' d b' s' e' ↔ Live c d b' s' e' ∧ ¬ (d = parent ∧ b' = b ∧ s' = s)

theorem cleared_ok (h : Consistent c) {parent n : ℕ} (hlive : Live c parent b s e)
    (hl : Inode.lookup (c.inode parent) b = some n) :
    Cleared c (putIn c (c.inode parent) Dirent.zero b s n) parent b s := by
  have hsmall := h.small
  have hp := hlive.used
  have hf := h.fits parent hp.pos hp.le
  have hself := (hp.inodeId h.toAllocated).2
  have hdata : c.dataOf (c.inode parent) b = c.data n := by simp [Content.dataOf, hl]
  have hmem := lookup_mem_blocks hf (by omega) hl
  have hput := h.putEntry (e := Dirent.zero) hp hlive.isDir hlive.block hlive.slot hl (Or.inl rfl)
  refine ⟨?_, ?_, fun id => ⟨fun hx => ⟨hx.1, hx.2, hx.3⟩, fun hx => ⟨hx.1, hx.2, hx.3⟩⟩,
    fun id => ?_, fun d b' s' e' => ?_⟩
  · rw [putIn_fields, hdata]
    exact hput.touch (k := parent) ⟨hp.1, hp.2, hp.3⟩ (alike_ticked _)
  · exact (keeps_setData h.toAllocated
      (fun k hk hku hn => hk (h.owner k parent hku hp n hn hmem)) _).trans
      ((keeps_setInode _ _).weaken fun k hk => hk.trans hself)
  · change (Function.update c.inode (c.inode parent).inodeId.toNat _ id).type = _
    rw [hself]
    by_cases hid : id = parent
    · rw [hid, Function.update_self]
      rfl
    · rw [Function.update_of_ne hid]
  · rw [putIn_fields, hdata, live_touch (c := c.setData n _)
      (i := Inode.ticked (c.inode parent)) hself (alike_ticked _),
      live_putEntry h.toAllocated hp hlive.isDir hlive.block hlive.slot hl]
    by_cases hx : d = parent ∧ b' = b ∧ s' = s
    · rw [if_pos hx]
      exact ⟨fun hz => absurd rfl hz.2, fun hz => absurd hx hz.2⟩
    · rw [if_neg hx]
      exact ⟨fun hz => ⟨hz, hx⟩, fun hz => hz.1⟩

theorem unlinked_ok (h : Consistent c) {parent id n : ℕ}
    (hlive : Live c parent b s e) (hid : e.inodeId.toNat = id) (hne : parent ≠ id)
    (hl : Inode.lookup (c.inode parent) b = some n) :
    Unlinked c (unlinked c (c.inode parent) (c.inode id) id b s n) parent id (nameOf e) := by
  have hp := hlive.used
  have hok := h.entries _ _ _ _ hlive
  have hu : Used c id := hid ▸ hok.used
  have hclear := cleared_ok h hlive hl
  set c₁ := putIn c (c.inode parent) Dirent.zero b s n with hc₁
  obtain ⟨hcons₁, hkeeps₁, -, htype₁, hlive₁⟩ := hclear
  have href : ∀ d b' s' e', Live c₁ d b' s' e' → d ≠ id → e'.inodeId.toNat ≠ id := by
    intro d b' s' e' hl' _ he'
    obtain ⟨hl', hnot⟩ := (hlive₁ d b' s' e').mp hl'
    exact hnot (h.unique _ _ _ _ _ _ _ _ hl' hlive (UInt32.toNat_inj.mp (he'.trans hid.symm)))
  have hcons₂ : Consistent (c₁.setInodeUsed id false) :=
    hcons₁.retire (by rw [← hid]; exact hok.notRoot) href
  have hrec : c₁.inode id = c.inode id := hkeeps₁.inode id (fun hx => hne hx.symm) hu
  have hused₂ : ∀ k, Used (c₁.setInodeUsed id false) k → k ≠ id ∧ Used c₁ k := by
    intro k hk
    have hki : k ≠ id := by
      rintro rfl
      have := hk.bit
      rw [show (c₁.setInodeUsed k false).inodeUsed k = false from Function.update_self ..] at this
      cases this
    exact ⟨hki, ((keeps_setInodeUsed c₁ id false).used k hki).mp hk⟩
  have hcons₃ := Consistent.dropExtents (Inode.extents (c.inode id)) hcons₂
    (fun ex hex => h.fits id hu.pos hu.le ex hex) (by
      intro k hk b hb ex hex
      obtain ⟨hki, hk₁⟩ := hused₂ k hk
      have hu₁ : Used c₁ id := ⟨hu.1, hu.2, hu.3⟩
      rw [← hrec] at hex
      exact not_owned_twice hcons₁.toAllocated hu₁ hk₁ hki b hb ex hex)
  rw [unlinked_eq, ← hc₁]
  have hkeeps₃ := keeps_dropExtents (fun _ => False) (Inode.extents (c.inode id))
    (c₁.setInodeUsed id false)
  have hpu : Used (c₁.setInodeUsed id false) parent :=
    ((keeps_setInodeUsed c₁ id false).used parent hne).mpr ⟨hp.1, hp.2, hp.3⟩
  have hpu' := (hkeeps₃.used parent fun hx => hx).mpr hpu
  have hprec : (dropExtents (c₁.setInodeUsed id false) (Inode.extents (c.inode id))).inode parent =
      c₁.inode parent := hkeeps₃.inode parent (fun hx => hx) hpu
  refine ⟨hcons₃, ?_, hpu', fun hx => ?_, ?_, fun name hn => ?_⟩
  · exact ((hkeeps₁.weaken fun _ => Or.inl).trans
      ((keeps_setInodeUsed c₁ id false).weaken fun _ => Or.inr)).trans
      (hkeeps₃.weaken fun _ hx => hx.elim)
  · exact (hused₂ id ((hkeeps₃.used id fun hx => hx).mp hx)).1 rfl
  · rw [hprec]
    exact htype₁ parent
  · refine Option.ext fun k => ?_
    have hfinal : ∀ b' s' e', Live (dropExtents (c₁.setInodeUsed id false)
        (Inode.extents (c.inode id))) parent b' s' e' ↔
        Live c parent b' s' e' ∧ ¬ (b' = b ∧ s' = s) := by
      intro b' s' e'
      rw [live_of_keeps hkeeps₃ (fun hx => hx), live_of_keeps (keeps_setInodeUsed c₁ id false) hne,
        hlive₁]
      simp
    rw [childOf_eq_some hcons₃ hpu' hn]
    by_cases hname : name = nameOf e
    · rw [if_pos hname]
      simp only [reduceCtorEq, iff_false, not_exists, not_and]
      rintro b' s' e' hl' hn'
      obtain ⟨hl', hnot⟩ := (hfinal b' s' e').mp hl'
      exact absurd (h.names _ _ _ _ _ _ _ hl' hlive (hn'.trans hname)) hnot
    · rw [if_neg hname, childOf_eq_some h hp hn]
      constructor
      · rintro ⟨b', s', e', hl', hn', hk⟩
        exact ⟨b', s', e', ((hfinal b' s' e').mp hl').1, hn', hk⟩
      · rintro ⟨b', s', e', hl', hn', hk⟩
        refine ⟨b', s', e', (hfinal b' s' e').mpr ⟨hl', ?_⟩, hn', hk⟩
        rintro ⟨rfl, rfl⟩
        rw [← hl'.entry, hlive.entry] at hn'
        exact hname hn'.symm

end XfsContentChanges
