import K64.XfsVolume
import Mathlib.Data.List.Nodup

/-! # When a volume is consistent

Every used inode owns the blocks of its extents, no block has two owners, directories are runs of
single blocks, and each entry of a directory names one used inode that no other entry names. Each
change the operations are made of keeps this; a block may be marked without an owner. -/
namespace XfsConsistency

open ByteCodec XfsFormat XfsInode XfsDirectory XfsVolume

def Extent.blocks (ex : Extent) : List ℕ := List.range' ex.physicalBlock.toNat ex.blockCount.toNat

def Inode.blocks (inode : Inode) : List ℕ := (Inode.extents inode).flatMap Extent.blocks

theorem mem_extent_blocks {ex : Extent} {b : ℕ} : b ∈ Extent.blocks ex ↔
    ex.physicalBlock.toNat ≤ b ∧ b < ex.physicalBlock.toNat + ex.blockCount.toNat :=
  List.mem_range'_1

theorem blocks_fit {total : ℕ} {inode : Inode} (h : Inode.Fits total inode) {b : ℕ}
    (hb : b ∈ Inode.blocks inode) : 82 ≤ b ∧ b < total := by
  obtain ⟨ex, hex, hb⟩ := List.mem_flatMap.mp hb
  have hf := h ex hex
  have hb := mem_extent_blocks.mp hb
  exact ⟨by have := hf.1; omega, by have := hf.2; omega⟩

theorem lookup_mem_blocks {total : ℕ} {inode : Inode} (h : Inode.Fits total inode)
    (ht : total ≤ 2 ^ 64) {logical n : ℕ} (hl : Inode.lookup inode logical = some n) :
    n ∈ Inode.blocks inode := by
  unfold Inode.lookup at hl
  obtain ⟨ex, hex, rfl⟩ := Option.map_eq_some_iff.mp hl
  have hmem := List.mem_of_find?_eq_some hex
  have hc := List.find?_some hex
  obtain ⟨h1, h2⟩ := h ex hmem
  simp only [Extent.covers, Bool.and_eq_true, decide_eq_true_eq] at hc
  have hlt : logical < ex.logicalBlock.toNat + ex.blockCount.toNat :=
    lt_of_lt_of_le hc.2 (Nat.mod_le _ _)
  refine List.mem_flatMap.mpr ⟨ex, hmem, mem_extent_blocks.mpr ?_⟩
  unfold Extent.target
  rw [Nat.mod_eq_of_lt (by omega)]
  omega

/-- The bytes of a name as an entry keeps it. -/
def nameOf (e : Dirent) : List UInt8 := e.name.toList.take e.nameLen.toNat

/-- A name that a path component can have. -/
structure NameOk (name : List UInt8) : Prop where
  valid : xfsNameValid name = true
  noNul : (0 : UInt8) ∉ name
  noSlash : slash ∉ name

theorem NameOk.length_pos {name : List UInt8} (h : NameOk name) : 0 < name.length := by
  have := h.valid
  simp [xfsNameValid] at this
  exact this.1.1.1

theorem NameOk.length_lt {name : List UInt8} (h : NameOk name) : name.length < 128 := by
  have := h.valid
  simp [xfsNameValid] at this
  exact this.1.1.2

@[simp] theorem inodeId_makeDirent (name : List UInt8) (id : UInt32) (type : UInt16) :
    (makeDirent name id type).inodeId = id := rfl

theorem nameOf_makeDirent {name : List UInt8} (h : name.length < 128) (id : UInt32)
    (type : UInt16) : nameOf (makeDirent name id type) = name := by
  have hlen : (UInt16.ofNat name.length).toNat = name.length := by
    simp only [UInt16.toNat_ofNat']
    omega
  apply List.ext_getElem?
  intro i
  simp only [nameOf, makeDirent, hlen, Vector.toList_ofFn, List.getElem?_take, List.getElem?_ofFn]
  by_cases hi : i < name.length
  · simp [hi, show i < 128 by omega]
  · simp [hi]

theorem strncmp_eq_zero {a b : List UInt8} : ∀ n, (0 : UInt8) ∉ a.take n → (0 : UInt8) ∉ b →
    n ≤ a.length → b.length = n → (k64Strncmp a b n = 0 ↔ a.take n = b) := by
  intro n
  induction n generalizing a b with
  | zero =>
    intro _ _ _ hb
    have : b = [] := List.eq_nil_of_length_eq_zero hb
    simp [k64Strncmp, this]
  | succ n ih =>
    intro ha hb hla hlb
    obtain ⟨x, a, rfl⟩ : ∃ x a', a = x :: a' := List.exists_cons_of_length_pos (by omega)
    obtain ⟨y, b, rfl⟩ : ∃ y b', b = y :: b' := List.exists_cons_of_length_pos (by omega)
    simp only [List.take_succ_cons, List.mem_cons, not_or] at ha hb
    simp only [List.length_cons, Nat.add_le_add_iff_right, Nat.add_right_cancel_iff] at hla hlb
    have hx : x ≠ 0 := fun h => ha.1 h.symm
    have hy : y ≠ 0 := fun h => hb.1 h.symm
    simp only [k64Strncmp, List.headD_cons, hx, hy, ne_eq, not_false_eq_true, and_self, if_true,
      List.tail_cons, List.take_succ_cons, List.cons.injEq]
    by_cases hxy : x = y
    · simp only [hxy, not_true_eq_false, if_false, true_and]
      exact ih ha.2 hb.2 hla hlb
    · have : x.toNat ≠ y.toNat := fun h => hxy (UInt8.toNat_inj.mp h)
      simp only [hxy, not_false_eq_true, if_true, false_and, iff_false]
      omega

theorem dirent_matches {name token : List UInt8} (h : NameOk name) (ht : (0 : UInt8) ∉ token)
    {id : UInt32} (hid : id ≠ 0) (type : UInt16) :
    direntMatches (makeDirent name id type) token = true ↔ name = token := by
  have hlen : (makeDirent name id type).nameLen.toNat = name.length := by
    have := h.length_lt
    simp only [makeDirent, UInt16.toNat_ofNat']
    omega
  have hne : (makeDirent name id type).nameLen ≠ 0 := by
    intro h0
    have hpos := h.length_pos
    rw [h0] at hlen
    simp at hlen
    omega
  have hname := nameOf_makeDirent h.length_lt id type
  simp only [nameOf, hlen] at hname
  simp only [direntMatches, hlen, Bool.and_eq_true, bne_iff_ne, beq_iff_eq]
  constructor
  · rintro ⟨⟨-, hl⟩, hcmp⟩
    rw [strncmp_eq_zero _ (by rw [hname]; exact h.noNul) ht
      (by have := h.length_lt; simp; omega) hl.symm, hname] at hcmp
    exact hcmp
  · rintro rfl
    refine ⟨⟨⟨hid, hne⟩, rfl⟩, ?_⟩
    rw [strncmp_eq_zero _ (by rw [hname]; exact h.noNul) ht
      (by have := h.length_lt; simp; omega) rfl, hname]

theorem dirent_setDirent (b : XBlock) {s t : ℕ} (hs : s < 25) (e : Dirent) :
    dirent (setDirent b s e) t = if s = t then e else dirent b t := by
  unfold dirent setDirent
  by_cases hst : s = t
  · subst hst
    rw [if_pos rfl, Block.record_setRecord _ _ _ _ (by simp; omega)]
  · rw [if_neg hst, Block.record_setRecord_disjoint _ _ _ _ _ _ (by simp; omega)]

theorem dirent_zero (s : ℕ) : (dirent Block.zero s).inodeId = 0 := by
  have h : ∀ bs, (direntCodec.decode bs).inodeId = UInt32.ofNat (leNat (bs.take 4)) := fun _ => rfl
  rw [dirent, Block.record, Block.read_zero, size_direntCodec, h, List.take_replicate,
    leNat_replicate_zero]
  rfl

structure DirShape (inode : Inode) : Prop where
  nonempty : 1 ≤ inode.extentCount.toNat
  extent : ∀ k (ex : Extent), (Inode.extents inode)[k]? = some ex →
    ex.logicalBlock.toNat = k ∧ ex.blockCount.toNat = 1
  size : inode.size.toNat = 4096 * inode.extentCount.toNat

structure InodeShape (inode : Inode) : Prop where
  few : inode.extentCount.toNat ≤ 8
  nonempty : ∀ ex ∈ Inode.extents inode, 0 < ex.blockCount.toNat
  disjoint : (Inode.blocks inode).Nodup
  kind : inode.type = typeRegular ∨ inode.type = typeDirectory
  dir : inode.type = typeDirectory → DirShape inode

structure Used (c : Content) (id : ℕ) : Prop where
  pos : 1 ≤ id
  le : id ≤ 512
  bit : c.inodeUsed id = true

/-- Slot `s` of block `b` of a directory in use holds the entry `e`. -/
structure Live (c : Content) (dir b s : ℕ) (e : Dirent) : Prop where
  used : Used c dir
  isDir : (c.inode dir).type = typeDirectory
  block : b < (c.inode dir).extentCount.toNat
  slot : s < 25
  entry : dirent (c.dataOf (c.inode dir) b) s = e
  id : e.inodeId ≠ 0

structure EntryOk (c : Content) (e : Dirent) : Prop where
  made : ∃ name, NameOk name ∧ e = makeDirent name e.inodeId e.type
  used : Used c e.inodeId.toNat
  notRoot : e.inodeId.toNat ≠ 1
  type : e.type = (c.inode e.inodeId.toNat).type

def spare (c : Content) : ℕ := (List.range' 82 (c.total - 82)).countP fun b => !c.blockUsed b

structure Allocated (c : Content) : Prop where
  large : 84 ≤ c.total
  small : c.total ≤ 32768
  free : c.freeBlocks.toNat = spare c
  rootUsed : c.inodeUsed 1 = true
  rootDir : (c.inode 1).type = typeDirectory
  fits : ∀ id, 1 ≤ id → id ≤ 512 → Inode.Fits c.total (c.inode id)
  valid : ∀ id, Used c id → inodeValid (c.inode id) (UInt32.ofNat id) = true
  shape : ∀ id, Used c id → InodeShape (c.inode id)
  marked : ∀ id, Used c id → ∀ b ∈ Inode.blocks (c.inode id), c.blockUsed b = true
  owner : ∀ id id', Used c id → Used c id' → ∀ b, b ∈ Inode.blocks (c.inode id) →
    b ∈ Inode.blocks (c.inode id') → id = id'

structure Linked (c : Content) : Prop where
  entries : ∀ dir b s e, Live c dir b s e → EntryOk c e
  unique : ∀ dir b s e dir' b' s' e', Live c dir b s e → Live c dir' b' s' e' →
    e.inodeId = e'.inodeId → dir = dir' ∧ b = b' ∧ s = s'
  names : ∀ dir b s e b' s' e', Live c dir b s e → Live c dir b' s' e' →
    nameOf e = nameOf e' → b = b' ∧ s = s'

structure Consistent (c : Content) : Prop extends Allocated c, Linked c

theorem Allocated.rootInUse {c : Content} (h : Allocated c) : Used c 1 :=
  ⟨Nat.le_refl 1, by decide, h.rootUsed⟩

theorem spare_split (c : Content) {start blocks : ℕ} (h1 : 82 ≤ start)
    (h2 : start + blocks ≤ c.total) : spare c =
      ((List.range' 82 (start - 82)).countP fun b => !c.blockUsed b) +
      (((List.range' start blocks).countP fun b => !c.blockUsed b) +
      ((List.range' (start + blocks) (c.total - start - blocks)).countP fun b =>
        !c.blockUsed b)) := by
  have hsplit : List.range' 82 (c.total - 82) = List.range' 82 (start - 82) ++
      (List.range' start blocks ++ List.range' (start + blocks) (c.total - start - blocks)) := by
    rw [List.range'_append_1]
    have := List.range'_append_1 (s := 82) (m := start - 82)
      (n := blocks + (c.total - start - blocks))
    rw [show 82 + (start - 82) = start by omega] at this
    rw [this]
    congr 1
    omega
  rw [spare, hsplit, List.countP_append, List.countP_append]

theorem spare_markRun (c : Content) {start blocks : ℕ} (h1 : 82 ≤ start)
    (h2 : start + blocks ≤ c.total) (used : Bool) :
    spare (c.markRun start blocks used) + ((List.range' start blocks).countP fun b =>
      !c.blockUsed b) = spare c + if used then 0 else blocks := by
  have hrun : ((List.range' start blocks).countP fun b =>
      !(c.markRun start blocks used).blockUsed b) = if used then 0 else blocks := by
    have hcongr : ((List.range' start blocks).countP fun b =>
        !(c.markRun start blocks used).blockUsed b) =
        (List.range' start blocks).countP fun _ => !used :=
      List.countP_congr fun b hb => by
        simp [Content.markRun, List.mem_range'_1.mp hb]
    rw [hcongr]
    cases used <;> simp
  have hout : ∀ s n, (∀ b ∈ List.range' s n, ¬ (start ≤ b ∧ b < start + blocks)) →
      ((List.range' s n).countP fun b => !(c.markRun start blocks used).blockUsed b) =
      (List.range' s n).countP fun b => !c.blockUsed b :=
    fun s n hs => List.countP_congr fun b hb => by
      simp [Content.markRun, hs b hb]
  rw [spare_split c h1 h2, spare_split (c.markRun start blocks used) h1 h2, hrun,
    hout _ _ fun b hb => by have := List.mem_range'_1.mp hb; omega,
    hout _ _ fun b hb => by have := List.mem_range'_1.mp hb; omega]
  have ht : (c.markRun start blocks used).total = c.total := rfl
  rw [ht]
  omega

theorem usedIn_add_unused (c : Content) (start blocks : ℕ) : c.usedIn start blocks +
    ((List.range' start blocks).countP fun b => !c.blockUsed b) = blocks := by
  have := List.length_eq_countP_add_countP (fun b => c.blockUsed b)
    (l := List.range' start blocks)
  simpa [Content.usedIn] using this.symm

theorem spare_le_total (c : Content) : spare c ≤ c.total - 82 := by
  rw [spare]
  exact (List.countP_le_length).trans (by simp)

variable {c c' : Content}

theorem Linked.fewer (h : Linked c)
    (hlive : ∀ dir b s e, Live c' dir b s e → Live c dir b s e)
    (hok : ∀ dir b s e, Live c' dir b s e → EntryOk c e → EntryOk c' e) : Linked c' where
  entries dir b s e hl := hok dir b s e hl (h.entries dir b s e (hlive _ _ _ _ hl))
  unique dir b s e dir' b' s' e' hl hl' :=
    h.unique dir b s e dir' b' s' e' (hlive _ _ _ _ hl) (hlive _ _ _ _ hl')
  names dir b s e b' s' e' hl hl' :=
    h.names dir b s e b' s' e' (hlive _ _ _ _ hl) (hlive _ _ _ _ hl')

theorem Consistent.remark (h : Consistent c) {free : UInt64} {marks : ℕ → Bool}
    (hf : free.toNat = spare { c with freeBlocks := free, blockUsed := marks })
    (hm : ∀ id, Used c id → ∀ b ∈ Inode.blocks (c.inode id), marks b = true) :
    Consistent { c with freeBlocks := free, blockUsed := marks } := by
  have hused : ∀ id, Used { c with freeBlocks := free, blockUsed := marks } id ↔ Used c id :=
    fun id => ⟨fun h => ⟨h.1, h.2, h.3⟩, fun h => ⟨h.1, h.2, h.3⟩⟩
  have hlive : ∀ dir b s e, Live { c with freeBlocks := free, blockUsed := marks } dir b s e →
      Live c dir b s e :=
    fun _ _ _ _ h => ⟨(hused _).mp h.1, h.2, h.3, h.4, h.5, h.6⟩
  refine ⟨⟨h.large, h.small, hf, h.rootUsed, h.rootDir, h.fits, ?_, ?_, ?_, ?_⟩,
    h.toLinked.fewer hlive fun _ _ _ _ _ hok =>
      ⟨hok.made, (hused _).mpr hok.used, hok.notRoot, hok.type⟩⟩
  · exact fun id hid => h.valid id ((hused id).mp hid)
  · exact fun id hid => h.shape id ((hused id).mp hid)
  · exact fun id hid => hm id ((hused id).mp hid)
  · exact fun id id' hid hid' => h.owner id id' ((hused id).mp hid) ((hused id').mp hid')

theorem Consistent.takeRun (h : Consistent c) {start blocks : ℕ} (h1 : 82 ≤ start)
    (h2 : start + blocks ≤ c.total)
    (hfree : ∀ x, start ≤ x → x < start + blocks → c.blockUsed x = false) :
    Consistent (c.takeRun start blocks) := by
  have hrun : ((List.range' start blocks).countP fun b => !c.blockUsed b) = blocks := by
    have hall : ∀ b ∈ List.range' start blocks, (!c.blockUsed b) = true := by
      intro b hb
      obtain ⟨hb1, hb2⟩ := List.mem_range'_1.mp hb
      simp [hfree b hb1 hb2]
    rw [List.countP_eq_length.mpr hall, List.length_range']
  have hcount := spare_markRun c h1 h2 true
  have hle := spare_le_total c
  have := h.free
  have := h.small
  refine h.remark ?_ fun id hid b hb => ?_
  · have hspare : spare (c.takeRun start blocks) = spare (c.markRun start blocks true) := rfl
    change (c.freeBlocks - UInt64.ofNat blocks).toNat = spare (c.takeRun start blocks)
    rw [if_pos rfl, hrun] at hcount
    have hb : (UInt64.ofNat blocks).toNat = blocks := by
      rw [UInt64.toNat_ofNat']; omega
    rw [hspare, UInt64.toNat_sub_of_le _ _ (UInt64.le_iff_toNat_le.mpr (by omega)), hb]
    omega
  · change (if start ≤ b ∧ b < start + blocks then true else c.blockUsed b) = true
    split
    · rfl
    · exact h.marked id hid b hb

theorem Consistent.dropRun (h : Consistent c) {start blocks : ℕ} (h1 : 82 ≤ start)
    (h2 : start + blocks ≤ c.total)
    (hown : ∀ id, Used c id → ∀ b ∈ Inode.blocks (c.inode id), ¬ (start ≤ b ∧ b < start + blocks)) :
    Consistent (c.dropRun start blocks) := by
  have hcount := spare_markRun c h1 h2 false
  have hused := usedIn_add_unused c start blocks
  have hle := spare_le_total (c.markRun start blocks false)
  have ht : (c.markRun start blocks false).total = c.total := rfl
  have := h.free
  have := h.small
  refine h.remark ?_ fun id hid b hb => ?_
  · have hspare : spare (c.dropRun start blocks) = spare (c.markRun start blocks false) := rfl
    change (c.freeBlocks + UInt64.ofNat (c.usedIn start blocks)).toNat =
      spare (c.dropRun start blocks)
    simp only [Bool.false_eq_true, if_false] at hcount
    have hb : (UInt64.ofNat (c.usedIn start blocks)).toNat = c.usedIn start blocks := by
      rw [UInt64.toNat_ofNat']; omega
    rw [hspare, UInt64.toNat_add, hb, Nat.mod_eq_of_lt (by omega)]
    omega
  · change (if start ≤ b ∧ b < start + blocks then false else c.blockUsed b) = true
    rw [if_neg (hown id hid b hb)]
    exact h.marked id hid b hb

theorem dataOf_setData {total : ℕ} {inode : Inode} (hf : Inode.Fits total inode)
    (ht : total ≤ 2 ^ 64) {n : ℕ} (hn : n ∉ Inode.blocks inode) (b : XBlock) (logical : ℕ) :
    (c.setData n b).dataOf inode logical = c.dataOf inode logical := by
  unfold Content.dataOf
  cases hl : Inode.lookup inode logical with
  | none => rfl
  | some k =>
    have hk : k ≠ n := fun hk => hn (hk ▸ lookup_mem_blocks hf ht hl)
    simp [Content.setData, hk]

theorem Allocated.setData (h : Allocated c) (n : ℕ) (b : XBlock) : Allocated (c.setData n b) := by
  have hused : ∀ id, Used (c.setData n b) id → Used c id := fun id h => ⟨h.1, h.2, h.3⟩
  refine ⟨h.large, h.small, h.free, h.rootUsed, h.rootDir, h.fits, ?_, ?_, ?_, ?_⟩
  · exact fun id hid => h.valid id (hused id hid)
  · exact fun id hid => h.shape id (hused id hid)
  · exact fun id hid => h.marked id (hused id hid)
  · exact fun id id' hid hid' => h.owner id id' (hused id hid) (hused id' hid')

theorem Consistent.setData (h : Consistent c) {n : ℕ}
    (hn : ∀ dir, Used c dir → (c.inode dir).type = typeDirectory →
      n ∉ Inode.blocks (c.inode dir)) (b : XBlock) : Consistent (c.setData n b) := by
  have hused : ∀ id, Used (c.setData n b) id ↔ Used c id :=
    fun id => ⟨fun h => ⟨h.1, h.2, h.3⟩, fun h => ⟨h.1, h.2, h.3⟩⟩
  have hsmall := h.small
  have hlive : ∀ dir k s e, Live (c.setData n b) dir k s e → Live c dir k s e := by
    intro dir k s e hl
    have hu := (hused dir).mp hl.used
    refine ⟨hu, hl.isDir, hl.block, hl.slot, ?_, hl.id⟩
    rw [← dataOf_setData (h.fits dir hu.pos hu.le) (by omega) (hn dir hu hl.isDir) b k]
    exact hl.entry
  exact ⟨h.toAllocated.setData n b, h.toLinked.fewer hlive fun _ _ _ _ _ hok =>
    ⟨hok.made, (hused _).mpr hok.used, hok.notRoot, hok.type⟩⟩

theorem inode_valid_sealed {i : Inode} (hm : i.magic = inodeMagic) :
    inodeValid (Inode.sealed i) i.inodeId = true := by
  simp [inodeValid, Inode.sealed, hm, k64XfsInodeChecksum]

/-- A new record for an inode that is or comes into use. Its blocks are marked and belong to no
other inode, and a directory shows no entry that it did not show before. -/
theorem Consistent.replace (h : Consistent c) {i : Inode} (hmagic : i.magic = inodeMagic)
    (hfits : Inode.Fits c.total i) (hshape : InodeShape i)
    (hmark : ∀ b ∈ Inode.blocks i, c.blockUsed b = true)
    (hown : ∀ id, Used c id → id ≠ i.inodeId.toNat → ∀ b ∈ Inode.blocks i,
      b ∉ Inode.blocks (c.inode id))
    (htype : Used c i.inodeId.toNat → i.type = (c.inode i.inodeId.toNat).type)
    (hnew : i.type = typeDirectory → ∀ b s, b < i.extentCount.toNat → s < 25 →
      (dirent (c.dataOf i b) s).inodeId ≠ 0 → Used c i.inodeId.toNat ∧
        b < (c.inode i.inodeId.toNat).extentCount.toNat ∧
        c.dataOf (c.inode i.inodeId.toNat) b = c.dataOf i b) :
    Consistent ((c.setInode i).setInodeUsed i.inodeId.toNat true) := by
  set id := i.inodeId.toNat with hid
  set c' := (c.setInode i).setInodeUsed id true with hc'
  have hself : c'.inode id = Inode.sealed i := Function.update_self ..
  have hother : ∀ k, k ≠ id → c'.inode k = c.inode k := fun k hk => Function.update_of_ne hk ..
  have hused : ∀ k, Used c' k → k = id ∨ (k ≠ id ∧ Used c k) := by
    intro k hk
    by_cases hki : k = id
    · exact Or.inl hki
    · refine Or.inr ⟨hki, hk.pos, hk.le, ?_⟩
      rw [← hk.bit]
      exact (Function.update_of_ne hki ..).symm
  have hkeep : ∀ k, Used c k → Used c' k := by
    intro k hk
    refine ⟨hk.pos, hk.le, ?_⟩
    by_cases hki : k = id
    · rw [hki]; exact Function.update_self ..
    · exact (Function.update_of_ne hki ..).trans hk.bit
  have hlive : ∀ dir b s e, Live c' dir b s e → Live c dir b s e := by
    intro dir b s e hl
    rcases hused dir hl.used with rfl | ⟨hne, hu⟩
    · have hdir : i.type = typeDirectory := by have := hl.isDir; rwa [hself] at this
      have hblock : b < i.extentCount.toNat := by have := hl.block; rwa [hself] at this
      have hentry : dirent (c.dataOf i b) s = e := by have := hl.entry; rwa [hself] at this
      obtain ⟨hu, hb, hd⟩ := hnew hdir b s hblock hl.slot (by rw [hentry]; exact hl.id)
      exact ⟨hu, (htype hu).symm.trans hdir, hb, hl.slot, by rw [hd, hentry], hl.id⟩
    · refine ⟨hu, ?_, ?_, hl.slot, ?_, hl.id⟩
      · have := hl.isDir; rwa [hother dir hne] at this
      · have := hl.block; rwa [hother dir hne] at this
      · have := hl.entry; rwa [hother dir hne] at this
  have hblocks : ∀ k, Used c' k → (k = id ∧ Inode.blocks (c'.inode k) = Inode.blocks i) ∨
      (k ≠ id ∧ Used c k ∧ Inode.blocks (c'.inode k) = Inode.blocks (c.inode k)) := by
    intro k hk
    rcases hused k hk with rfl | ⟨hne, hu⟩
    · exact Or.inl ⟨rfl, by rw [hself]; rfl⟩
    · exact Or.inr ⟨hne, hu, by rw [hother k hne]⟩
  refine ⟨⟨h.large, h.small, h.free, (hkeep 1 h.rootInUse).bit, ?_, ?_, ?_, ?_, ?_, ?_⟩,
    h.toLinked.fewer hlive fun _ _ _ e _ hok => ⟨hok.made, hkeep _ hok.used, hok.notRoot, ?_⟩⟩
  · by_cases h1i : 1 = id
    · rw [h1i, hself]
      exact (htype (h1i ▸ h.rootInUse)).trans (h1i ▸ h.rootDir)
    · rw [hother 1 h1i]; exact h.rootDir
  · intro k hk1 hk2
    by_cases hki : k = id
    · rw [hki, hself]; exact hfits
    · rw [hother k hki]; exact h.fits k hk1 hk2
  · intro k hk
    rcases hused k hk with rfl | ⟨hne, hu⟩
    · rw [hself, hid]
      simpa using inode_valid_sealed hmagic
    · rw [hother k hne]; exact h.valid k hu
  · intro k hk
    rcases hused k hk with rfl | ⟨hne, hu⟩
    · rw [hself]; exact ⟨hshape.1, hshape.2, hshape.3, hshape.4,
        fun hd => ⟨(hshape.5 hd).1, (hshape.5 hd).2, (hshape.5 hd).3⟩⟩
    · rw [hother k hne]; exact h.shape k hu
  · intro k hk
    rcases hblocks k hk with ⟨-, hb⟩ | ⟨-, hu, hb⟩
    · rw [hb]; exact hmark
    · rw [hb]; exact h.marked k hu
  · intro k k' hk hk' b
    rcases hblocks k hk with ⟨rfl, hb⟩ | ⟨hne, hu, hb⟩ <;>
      rcases hblocks k' hk' with ⟨rfl, hb'⟩ | ⟨hne', hu', hb'⟩
    · exact fun _ _ => rfl
    · rw [hb, hb']; exact fun h1 h2 => absurd h2 (hown k' hu' hne' b h1)
    · rw [hb, hb']; exact fun h1 h2 => absurd h1 (hown k hu hne b h2)
    · rw [hb, hb']; exact h.owner k k' hu hu' b
  · by_cases hei : e.inodeId.toNat = id
    · rw [hei, hself, hok.type, hei]
      exact (htype (hei ▸ hok.used)).symm
    · rw [hother _ hei]; exact hok.type

theorem Consistent.rewrite (h : Consistent c) {i : Inode} (hu : Used c i.inodeId.toNat)
    (hmagic : i.magic = inodeMagic) (hfits : Inode.Fits c.total i) (hshape : InodeShape i)
    (hmark : ∀ b ∈ Inode.blocks i, c.blockUsed b = true)
    (hown : ∀ id, Used c id → id ≠ i.inodeId.toNat → ∀ b ∈ Inode.blocks i,
      b ∉ Inode.blocks (c.inode id))
    (htype : i.type = (c.inode i.inodeId.toNat).type)
    (hnew : i.type = typeDirectory → ∀ b s, b < i.extentCount.toNat → s < 25 →
      (dirent (c.dataOf i b) s).inodeId ≠ 0 →
        b < (c.inode i.inodeId.toNat).extentCount.toNat ∧
        c.dataOf (c.inode i.inodeId.toNat) b = c.dataOf i b) :
    Consistent (c.setInode i) := by
  have hr := h.replace hmagic hfits hshape hmark hown (fun _ => htype)
    fun hd b s hb hs he => ⟨hu, hnew hd b s hb hs he⟩
  have heq : (c.setInode i).setInodeUsed i.inodeId.toNat true = c.setInode i := by
    have hbit : (c.setInode i).inodeUsed i.inodeId.toNat = true := hu.bit
    unfold Content.setInodeUsed
    rw [← hbit, Function.update_eq_self]
  rwa [heq] at hr

/-- Records that differ in none of the fields the invariant speaks of. -/
structure Alike (i j : Inode) : Prop where
  magic : i.magic = j.magic
  inodeId : i.inodeId = j.inodeId
  type : i.type = j.type
  size : i.size = j.size
  extentCount : i.extentCount = j.extentCount
  directExtents : i.directExtents = j.directExtents

theorem Alike.extents {i j : Inode} (h : Alike i j) : Inode.extents i = Inode.extents j := by
  rw [Inode.extents, Inode.extents, h.extentCount, h.directExtents]

theorem Alike.blocks {i j : Inode} (h : Alike i j) : Inode.blocks i = Inode.blocks j := by
  rw [Inode.blocks, Inode.blocks, h.extents]

theorem Alike.dataOf {i j : Inode} (h : Alike i j) (c : Content) (b : ℕ) :
    c.dataOf i b = c.dataOf j b := by
  rw [Content.dataOf, Content.dataOf, Inode.lookup, Inode.lookup, h.extents]

theorem Alike.shape {i j : Inode} (h : Alike i j) (hj : InodeShape j) : InodeShape i := by
  refine ⟨h.extentCount ▸ hj.few, h.extents ▸ hj.nonempty, h.blocks ▸ hj.disjoint,
    h.type ▸ hj.kind, fun hd => ?_⟩
  have hs := hj.dir (h.type ▸ hd)
  exact ⟨h.extentCount ▸ hs.nonempty, h.extents ▸ hs.extent, by
    rw [h.size, h.extentCount]; exact hs.size⟩

theorem Used.inodeId {id : ℕ} (h : Allocated c) (hu : Used c id) :
    (c.inode id).magic = inodeMagic ∧ (c.inode id).inodeId.toNat = id := by
  have hv := h.valid id hu
  simp only [inodeValid, Bool.and_eq_true, beq_iff_eq] at hv
  refine ⟨hv.1.1, ?_⟩
  rw [hv.1.2, UInt32.toNat_ofNat']
  have := hu.le
  omega

theorem Consistent.touch (h : Consistent c) {i : Inode} {k : ℕ} (hu : Used c k)
    (hi : Alike i (c.inode k)) : Consistent (c.setInode i) := by
  obtain ⟨hmagic, hid⟩ := hu.inodeId h.toAllocated
  have hiid : i.inodeId.toNat = k := hi.inodeId ▸ hid
  refine h.rewrite (hiid ▸ hu) (hi.magic.trans hmagic) ?_ (hi.shape (h.shape k hu)) ?_ ?_ ?_ ?_
  · unfold Inode.Fits
    rw [hi.extents]
    exact h.fits k hu.pos hu.le
  · rw [hi.blocks]; exact h.marked k hu
  · intro j hk hki b hb hb'
    rw [hi.blocks] at hb
    exact hki ((h.owner j k hk hu b hb' hb).trans hiid.symm)
  · rw [hiid]; exact hi.type
  · intro _ b s hb _ _
    rw [hiid, ← hi.extentCount, hi.dataOf]
    exact ⟨hb, rfl⟩

theorem Consistent.retire (h : Consistent c) {id : ℕ} (hroot : id ≠ 1)
    (href : ∀ dir b s e, Live c dir b s e → dir ≠ id → e.inodeId.toNat ≠ id) :
    Consistent (c.setInodeUsed id false) := by
  have hused : ∀ k, Used (c.setInodeUsed id false) k → k ≠ id ∧ Used c k := by
    intro k hk
    have hbit : Function.update c.inodeUsed id false k = true := hk.bit
    by_cases hki : k = id
    · rw [hki, Function.update_self] at hbit; cases hbit
    · rw [Function.update_of_ne hki] at hbit
      exact ⟨hki, hk.pos, hk.le, hbit⟩
  have hlive : ∀ dir b s e, Live (c.setInodeUsed id false) dir b s e →
      dir ≠ id ∧ Live c dir b s e :=
    fun dir b s e hl => ⟨(hused dir hl.used).1, (hused dir hl.used).2, hl.2, hl.3, hl.4, hl.5, hl.6⟩
  have hkeep : ∀ k, k ≠ id → Used c k → Used (c.setInodeUsed id false) k :=
    fun k hki hk => ⟨hk.pos, hk.le, (Function.update_of_ne hki ..).trans hk.bit⟩
  refine ⟨⟨h.large, h.small, h.free, (hkeep 1 hroot.symm h.rootInUse).bit, h.rootDir, h.fits,
    ?_, ?_, ?_, ?_⟩, h.toLinked.fewer (fun dir b s e hl => (hlive dir b s e hl).2) ?_⟩
  · exact fun k hk => h.valid k (hused k hk).2
  · exact fun k hk => h.shape k (hused k hk).2
  · exact fun k hk => h.marked k (hused k hk).2
  · exact fun k k' hk hk' => h.owner k k' (hused k hk).2 (hused k' hk').2
  · intro dir b s e hl hok
    obtain ⟨hne, hl⟩ := hlive dir b s e hl
    exact ⟨hok.made, hkeep _ (href dir b s e hl hne) hok.used, hok.notRoot, hok.type⟩

theorem Consistent.setUnused (h : Consistent c) {i : Inode}
    (hun : c.inodeUsed i.inodeId.toNat = false) (hfits : Inode.Fits c.total i) :
    Consistent (c.setInode i) := by
  have hused : ∀ k, Used (c.setInode i) k → Used c k := fun k hk => ⟨hk.1, hk.2, hk.3⟩
  have hsame : ∀ k, Used c k → (c.setInode i).inode k = c.inode k := by
    intro k hk
    refine Function.update_of_ne (fun hki => ?_) ..
    rw [← hki, hk.bit] at hun
    cases hun
  refine ⟨⟨h.large, h.small, h.free, h.rootUsed, ?_, ?_, ?_, ?_, ?_, ?_⟩,
    h.toLinked.fewer ?_ fun _ _ _ e _ hok => ⟨hok.made, ⟨hok.used.1, hok.used.2, hok.used.3⟩,
      hok.notRoot, ?_⟩⟩
  · rw [hsame 1 h.rootInUse]; exact h.rootDir
  · intro k hk1 hk2
    by_cases hki : k = i.inodeId.toNat
    · rw [hki, show (c.setInode i).inode i.inodeId.toNat = Inode.sealed i from
        Function.update_self ..]
      exact hfits
    · rw [show (c.setInode i).inode k = c.inode k from Function.update_of_ne hki ..]
      exact h.fits k hk1 hk2
  · intro k hk
    rw [hsame k (hused k hk)]; exact h.valid k (hused k hk)
  · intro k hk
    rw [hsame k (hused k hk)]; exact h.shape k (hused k hk)
  · intro k hk
    rw [hsame k (hused k hk)]; exact h.marked k (hused k hk)
  · intro k k' hk hk'
    rw [hsame k (hused k hk), hsame k' (hused k' hk')]
    exact h.owner k k' (hused k hk) (hused k' hk')
  · intro dir b s e hl
    have hu := hused dir hl.used
    obtain ⟨-, h2, h3, h4, h5, h6⟩ := hl
    rw [hsame dir hu] at h2 h3 h5
    exact ⟨hu, h2, h3, h4, h5, h6⟩
  · rw [hsame _ hok.used]; exact hok.type

theorem length_extents {i : Inode} (h : i.extentCount.toNat ≤ 8) :
    (Inode.extents i).length = i.extentCount.toNat := by
  simp [Inode.extents, h]

theorem lookup_dir {total : ℕ} {i : Inode} (hs : InodeShape i) (hd : DirShape i)
    (hf : Inode.Fits total i) (ht : total ≤ 2 ^ 64) {k : ℕ} {ex : Extent}
    (hk : (Inode.extents i)[k]? = some ex) :
    Inode.lookup i k = some ex.physicalBlock.toNat := by
  have hlen := length_extents hs.few
  have hfew := hs.few
  have hcovers : ∀ j (x : Extent), (Inode.extents i)[j]? = some x →
      (Extent.covers x k = true ↔ j = k) := by
    intro j x hx
    obtain ⟨hl, hc⟩ := hd.extent j x hx
    have hj : j < 8 := by have := (List.getElem?_eq_some_iff.mp hx).1; omega
    simp only [Extent.covers, hl, hc, Bool.and_eq_true, decide_eq_true_eq]
    rw [Nat.mod_eq_of_lt (by omega)]
    omega
  have hfind : (Inode.extents i).find? (fun x => Extent.covers x k) = some ex := by
    obtain ⟨hlt, hget⟩ := List.getElem?_eq_some_iff.mp hk
    rw [List.find?_eq_some_iff_getElem]
    refine ⟨(hcovers k ex hk).mpr rfl, k, hlt, hget, fun j hj => ?_⟩
    have := hcovers j _ (List.getElem?_eq_getElem (by omega))
    rw [Bool.not_eq_eq_eq_not, Bool.not_true, Bool.eq_false_iff]
    exact fun hc => absurd (this.mp hc) (by omega)
  obtain ⟨hl, hc⟩ := hd.extent k ex hk
  have hmem := List.mem_of_getElem? hk
  have := (hf ex hmem).2
  rw [Inode.lookup, hfind, Option.map_some, Extent.target, hl, Nat.sub_self, Nat.add_zero,
    Nat.mod_eq_of_lt (by omega)]

theorem exists_extent {i : Inode} (hs : InodeShape i) {k : ℕ} (hk : k < i.extentCount.toNat) :
    ∃ ex, (Inode.extents i)[k]? = some ex :=
  ⟨_, List.getElem?_eq_getElem (by rw [length_extents hs.few]; exact hk)⟩

theorem lookup_dir_injective {total : ℕ} {i : Inode} (hs : InodeShape i) (hd : DirShape i)
    (hf : Inode.Fits total i) (ht : total ≤ 2 ^ 64) {j k n : ℕ} (hj : j < i.extentCount.toNat)
    (hk : k < i.extentCount.toNat) (hjn : Inode.lookup i j = some n)
    (hkn : Inode.lookup i k = some n) : j = k := by
  obtain ⟨x, hx⟩ := exists_extent hs hj
  obtain ⟨y, hy⟩ := exists_extent hs hk
  rw [lookup_dir hs hd hf ht hx] at hjn
  rw [lookup_dir hs hd hf ht hy] at hkn
  by_contra hne
  have hnodup := hs.disjoint
  rw [Inode.blocks, List.nodup_flatMap] at hnodup
  have hpair := List.pairwise_iff_getElem.mp hnodup.2
  obtain ⟨hjl, hxe⟩ := List.getElem?_eq_some_iff.mp hx
  obtain ⟨hkl, hye⟩ := List.getElem?_eq_some_iff.mp hy
  have hxn : n ∈ Extent.blocks x := by
    rw [mem_extent_blocks, (hd.extent j x hx).2]
    have := Option.some.inj hjn; omega
  have hyn : n ∈ Extent.blocks y := by
    rw [mem_extent_blocks, (hd.extent k y hy).2]
    have := Option.some.inj hkn; omega
  rcases Nat.lt_or_gt_of_ne hne with hlt | hlt
  · have hdis := hpair j k hjl hkl hlt
    rw [hxe, hye] at hdis
    exact hdis hxn hyn
  · have hdis := hpair k j hkl hjl hlt
    rw [hxe, hye] at hdis
    exact hdis hyn hxn

/-- Where the invariant looks up a block, and that no other directory block is stored there. -/
theorem Allocated.lookup_unique (h : Allocated c) {dir b n : ℕ} (hu : Used c dir)
    (hd : (c.inode dir).type = typeDirectory) (hb : b < (c.inode dir).extentCount.toNat)
    (hl : Inode.lookup (c.inode dir) b = some n) {dir' b' : ℕ} (hu' : Used c dir')
    (hb' : b' < (c.inode dir').extentCount.toNat)
    (hl' : Inode.lookup (c.inode dir') b' = some n) : dir' = dir ∧ b' = b := by
  have hsmall := h.small
  have hf := h.fits dir hu.pos hu.le
  have hf' := h.fits dir' hu'.pos hu'.le
  have hdir : dir' = dir := h.owner dir' dir hu' hu n (lookup_mem_blocks hf' (by omega) hl')
    (lookup_mem_blocks hf (by omega) hl)
  subst hdir
  have hs := h.shape dir' hu
  exact ⟨rfl, lookup_dir_injective hs (hs.dir hd) hf (by omega) hb' hb hl' hl⟩

structure Fresh (c : Content) (dir : ℕ) (e : Dirent) : Prop where
  ok : EntryOk c e
  unnamed : ∀ dir' b s e', Live c dir' b s e' → e'.inodeId ≠ e.inodeId
  untaken : ∀ b s e', Live c dir b s e' → nameOf e' ≠ nameOf e

theorem live_putEntry (h : Allocated c) {dir b s n : ℕ} {e : Dirent} (hu : Used c dir)
    (hd : (c.inode dir).type = typeDirectory) (hb : b < (c.inode dir).extentCount.toNat)
    (hs : s < 25) (hl : Inode.lookup (c.inode dir) b = some n) {dir' b' s' : ℕ} {e' : Dirent} :
    Live (c.setData n (setDirent (c.data n) s e)) dir' b' s' e' ↔
      if dir' = dir ∧ b' = b ∧ s' = s then e' = e ∧ e.inodeId ≠ 0 else Live c dir' b' s' e' := by
  have hdata : ∀ dir' b', Used c dir' → (c.inode dir').type = typeDirectory →
      b' < (c.inode dir').extentCount.toNat → (c.setData n (setDirent (c.data n) s e)).dataOf
        (c.inode dir') b' = if dir' = dir ∧ b' = b then setDirent (c.data n) s e
          else c.dataOf (c.inode dir') b' := by
    intro dir' b' hu' hd' hb'
    by_cases hx : dir' = dir ∧ b' = b
    · rw [if_pos hx, hx.1, hx.2]
      simp [Content.dataOf, hl, Content.setData]
    · rw [if_neg hx]
      unfold Content.dataOf
      cases hl' : Inode.lookup (c.inode dir') b' with
      | none => rfl
      | some k =>
        have hkn : k ≠ n := by
          rintro rfl
          exact hx (h.lookup_unique hu hd hb hl hu' hb' hl')
        simp [Content.setData, hkn]
  have hold : c.dataOf (c.inode dir) b = c.data n := by simp [Content.dataOf, hl]
  constructor
  · intro hlive
    have hu' : Used c dir' := ⟨hlive.used.1, hlive.used.2, hlive.used.3⟩
    have hentry := hlive.entry
    rw [show (c.setData n (setDirent (c.data n) s e)).inode dir' = c.inode dir' from rfl,
      hdata dir' b' hu' hlive.isDir hlive.block] at hentry
    by_cases hx : dir' = dir ∧ b' = b ∧ s' = s
    · rw [if_pos ⟨hx.1, hx.2.1⟩, dirent_setDirent _ hs, if_pos hx.2.2.symm] at hentry
      rw [if_pos hx]
      exact ⟨hentry.symm, hentry ▸ hlive.id⟩
    · rw [if_neg hx]
      refine ⟨hu', hlive.isDir, hlive.block, hlive.slot, ?_, hlive.id⟩
      by_cases hy : dir' = dir ∧ b' = b
      · rw [if_pos hy, dirent_setDirent _ hs, if_neg fun hss => hx ⟨hy.1, hy.2, hss.symm⟩]
          at hentry
        rw [hy.1, hy.2, hold]
        exact hentry
      · rwa [if_neg hy] at hentry
  · intro hlive
    by_cases hx : dir' = dir ∧ b' = b ∧ s' = s
    · rw [if_pos hx] at hlive
      obtain ⟨rfl, rfl, rfl⟩ := hx
      refine ⟨⟨hu.1, hu.2, hu.3⟩, hd, hb, hs, ?_, hlive.1 ▸ hlive.2⟩
      rw [show (c.setData n (setDirent (c.data n) s' e)).inode dir' = c.inode dir' from rfl,
        hdata dir' b' hu hd hb, if_pos ⟨rfl, rfl⟩, dirent_setDirent _ hs, if_pos rfl, hlive.1]
    · rw [if_neg hx] at hlive
      refine ⟨⟨hlive.used.1, hlive.used.2, hlive.used.3⟩, hlive.isDir, hlive.block, hlive.slot, ?_,
        hlive.id⟩
      rw [show (c.setData n (setDirent (c.data n) s e)).inode dir' = c.inode dir' from rfl,
        hdata dir' b' hlive.used hlive.isDir hlive.block]
      by_cases hy : dir' = dir ∧ b' = b
      · rw [if_pos hy, dirent_setDirent _ hs, if_neg fun hss => hx ⟨hy.1, hy.2, hss.symm⟩, ← hold,
          ← hy.1, ← hy.2]
        exact hlive.entry
      · rw [if_neg hy]; exact hlive.entry

theorem Consistent.putEntry (h : Consistent c) {dir b s n : ℕ} {e : Dirent} (hu : Used c dir)
    (hd : (c.inode dir).type = typeDirectory) (hb : b < (c.inode dir).extentCount.toNat)
    (hs : s < 25) (hl : Inode.lookup (c.inode dir) b = some n)
    (he : e.inodeId = 0 ∨ Fresh c dir e) :
    Consistent (c.setData n (setDirent (c.data n) s e)) := by
  have hlive : ∀ dir' b' s' e', Live (c.setData n (setDirent (c.data n) s e)) dir' b' s' e' →
      (dir' = dir ∧ b' = b ∧ s' = s ∧ e' = e ∧ Fresh c dir e) ∨ Live c dir' b' s' e' := by
    intro dir' b' s' e' hlv
    rw [live_putEntry h.toAllocated hu hd hb hs hl] at hlv
    split at hlv
    case isTrue hx =>
      rcases he with he | he
      · exact absurd he hlv.2
      · exact Or.inl ⟨hx.1, hx.2.1, hx.2.2, hlv.1, he⟩
    case isFalse hx => exact Or.inr hlv
  refine ⟨h.toAllocated.setData _ _, ?_, ?_, ?_⟩
  · intro dir' b' s' e' hlv
    have hok : EntryOk c e' := by
      rcases hlive dir' b' s' e' hlv with ⟨-, -, -, rfl, hf⟩ | hlv
      · exact hf.ok
      · exact h.entries dir' b' s' e' hlv
    exact ⟨hok.made, ⟨hok.used.1, hok.used.2, hok.used.3⟩, hok.notRoot, hok.type⟩
  · intro d1 b1 s1 e1 d2 b2 s2 e2 hl1 hl2 hid
    rcases hlive d1 b1 s1 e1 hl1 with ⟨rfl, rfl, rfl, rfl, hf⟩ | hl1' <;>
      rcases hlive d2 b2 s2 e2 hl2 with ⟨rfl, rfl, rfl, rfl, hf'⟩ | hl2'
    · exact ⟨rfl, rfl, rfl⟩
    · exact absurd hid.symm (hf.unnamed _ _ _ _ hl2')
    · exact absurd hid (hf'.unnamed _ _ _ _ hl1')
    · exact h.unique _ _ _ _ _ _ _ _ hl1' hl2' hid
  · intro d1 b1 s1 e1 b2 s2 e2 hl1 hl2 hname
    rcases hlive d1 b1 s1 e1 hl1 with ⟨rfl, rfl, rfl, rfl, hf⟩ | hl1' <;>
      rcases hlive d1 b2 s2 e2 hl2 with ⟨hd2, rfl, rfl, rfl, hf'⟩ | hl2'
    · exact ⟨rfl, rfl⟩
    · exact absurd hname.symm (hf.untaken _ _ _ hl2')
    · subst hd2; exact absurd hname (hf'.untaken _ _ _ hl1')
    · exact h.names _ _ _ _ _ _ _ hl1' hl2' hname

end XfsConsistency
