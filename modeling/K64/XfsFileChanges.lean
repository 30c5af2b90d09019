import K64.XfsContentChanges

/-! # Rewriting a file

`k64_xfs_write_file` gives the old blocks back, takes one run for the new ones, fills it and writes
the inode. Between these steps the blocks have no owner or two, but the content it ends with is also
reached by consistent steps in another order. -/
namespace XfsFileChanges

open XfsFormat XfsInode XfsDirectory XfsOperations XfsVolume XfsConsistency XfsDirectoryUpdate
  XfsContentChanges

variable {c : Content}

/-- The first `n` blocks of the data in a run. -/
def fillRun (start : ℕ) (data : List UInt8) (c : Content) : ℕ → Content
  | 0 => c
  | n + 1 => (fillRun start data c n).setData (start + n) (dataChunk data n)

theorem fillRun_comm {f : Content → Content} (hf : ∀ c n b, f (c.setData n b) = (f c).setData n b)
    (start : ℕ) (data : List UInt8) (c : Content) (n : ℕ) :
    f (fillRun start data c n) = fillRun start data (f c) n := by
  induction n with
  | zero => rfl
  | succ n ih => rw [fillRun, hf, ih]; rfl

theorem fillRun_used (c : Content) (start : ℕ) (data : List UInt8) (n : ℕ) :
    (fillRun start data c n).inode = c.inode ∧
      ∀ id, Used (fillRun start data c n) id ↔ Used c id := by
  induction n with
  | zero => exact ⟨rfl, fun _ => Iff.rfl⟩
  | succ n ih =>
    refine ⟨ih.1, fun id => Iff.trans ⟨fun h => ⟨h.1, h.2, h.3⟩, fun h => ⟨h.1, h.2, h.3⟩⟩ (ih.2 id)⟩

theorem fillRun_ok {start : ℕ} (data : List UInt8) (h : Consistent c) {n : ℕ}
    (hown : ∀ id, Used c id → ∀ b ∈ Inode.blocks (c.inode id), ¬ (start ≤ b ∧ b < start + n)) :
    Consistent (fillRun start data c n) ∧ Keeps (fun _ => False) c (fillRun start data c n) ∧
      ∀ b < n, (fillRun start data c n).data (start + b) = dataChunk data b := by
  induction n with
  | zero => exact ⟨h, Keeps.refl _ c, fun b hb => absurd hb (Nat.not_lt_zero b)⟩
  | succ n ih =>
    obtain ⟨hcons, hkeeps, hdata⟩ := ih fun id hid b hb hx => hown id hid b hb (by omega)
    obtain ⟨hinode, hused⟩ := fillRun_used c start data n
    have hnew : ∀ id, Used (fillRun start data c n) id →
        start + n ∉ Inode.blocks ((fillRun start data c n).inode id) := by
      intro id hid hb
      rw [hinode] at hb
      exact hown id ((hused id).mp hid) _ hb (by omega)
    refine ⟨hcons.setData (fun id hid _ => hnew id hid) _,
      hkeeps.trans (keeps_setData hcons.toAllocated (fun id _ hid => hnew id hid) _), fun b hb => ?_⟩
    change Function.update (fillRun start data c n).data (start + n) (dataChunk data n) (start + b) = _
    by_cases hbn : b = n
    · rw [hbn, Function.update_self]
    · rw [Function.update_of_ne (by omega)]
      exact hdata b (by omega)

def writtenInode (inode : Inode) (start blocks : ℕ) (size : UInt64) (uid gid : UInt32)
    (tick : UInt64) : Inode :=
  Inode.stamped (if 0 < blocks then Inode.withRun (Inode.emptied inode) start blocks
    else Inode.emptied inode) size uid gid tick

def written (c : Content) (inode final : Inode) (start blocks : ℕ) (data : List UInt8) : Content :=
  (fillRun start data ((dropExtents c (Inode.extents inode)).takeRun start blocks) blocks).setInode
    final

def truncated (c : Content) (inode final : Inode) : Content :=
  (dropExtents c (Inode.extents inode)).setInode final

theorem setInode_setInode {i j : Inode} (h : i.inodeId = j.inodeId) (c : Content) :
    (c.setInode i).setInode j = c.setInode j := by
  simp [Content.setInode, h]

theorem written_eq {inode final i : Inode} (h : i.inodeId = final.inodeId) (c : Content)
    (start blocks : ℕ) (data : List UInt8) : written c inode final start blocks data =
      written (c.setInode i) inode final start blocks data := by
  unfold written
  rw [← dropExtents_comm (f := fun c => c.setInode i) (fun _ _ _ => rfl),
    show ∀ c : Content, (c.setInode i).takeRun start blocks = (c.takeRun start blocks).setInode i
      from fun _ => rfl,
    ← fillRun_comm (f := fun c => c.setInode i) (fun _ _ _ => rfl), setInode_setInode h]

section Rewrite

variable {id : ℕ} {final : Inode}

theorem emptied_ok (h : Consistent c) (hu : Used c id) (ht : (c.inode id).type = typeRegular)
    {i : Inode} (hid : i.inodeId = (c.inode id).inodeId) (hmagic : i.magic = inodeMagic)
    (htype : i.type = typeRegular) (hcount : i.extentCount = 0) :
    Consistent (dropExtents (c.setInode i) (Inode.extents (c.inode id))) ∧
      Keeps (fun k => k = id) c (dropExtents (c.setInode i) (Inode.extents (c.inode id))) := by
  have hself := (hu.inodeId h.toAllocated).2
  have hiid : i.inodeId.toNat = id := hid ▸ hself
  obtain ⟨he, hb⟩ := blocks_empty hcount
  have hcons := h.rewrite (i := i) (hiid.symm ▸ hu) hmagic (fits_empty hcount)
    (shape_empty hcount htype) (by simp [hb]) (by simp [hb])
    (by rw [hiid, ht]; exact htype)
    (fun hd => by rw [htype] at hd; exact absurd hd (by decide))
  have hrec : (c.setInode i).inode id = Inode.sealed i := by
    rw [← hiid]; exact Function.update_self ..
  refine ⟨Consistent.dropExtents _ hcons (h.fits id hu.pos hu.le) ?_, ?_⟩
  · intro k hk b hbk ex hex
    by_cases hki : k = id
    · rw [hki, hrec, show Inode.blocks (Inode.sealed i) = Inode.blocks i from rfl, hb] at hbk
      cases hbk
    · have hk' : Used c k := used_setInode.mp hk
      rw [show (c.setInode i).inode k = c.inode k from
        Function.update_of_ne (by rw [hiid]; exact hki) ..] at hbk
      exact not_owned_twice h.toAllocated hu hk' hki b hbk ex hex
  · exact ((keeps_setInode c i).weaken fun k hk => hk.trans hiid).trans
      (keeps_dropExtents _ _ _)

structure FileRecord (c : Content) (id : ℕ) (final : Inode) : Prop where
  inodeId : final.inodeId = (c.inode id).inodeId
  magic : final.magic = inodeMagic
  type : final.type = typeRegular

/-- The file `id` has a new record and new bytes, and nothing else has changed. -/
structure Rewritten (c c' : Content) (id : ℕ) (final : Inode) : Prop where
  consistent : Consistent c'
  keeps : Keeps (fun k => k = id) c c'
  used : Used c' id
  record : c'.inode id = Inode.sealed final

theorem truncated_ok (h : Consistent c) (hu : Used c id) (ht : (c.inode id).type = typeRegular)
    (hf : FileRecord c id final) (hcount : final.extentCount = 0) :
    Rewritten c (truncated c (c.inode id) final) id final := by
  have hself := (hu.inodeId h.toAllocated).2
  have hfid : final.inodeId.toNat = id := hf.inodeId ▸ hself
  obtain ⟨hcons, hkeeps⟩ := emptied_ok h hu ht hf.inodeId hf.magic hf.type hcount
  have heq : truncated c (c.inode id) final =
      dropExtents (c.setInode final) (Inode.extents (c.inode id)) := by
    rw [← dropExtents_comm (f := fun c => c.setInode final) (fun _ _ _ => rfl)]
    rfl
  have hrec : (truncated c (c.inode id) final).inode id = Inode.sealed final := by
    rw [← hfid]; exact Function.update_self ..
  rw [heq] at hrec ⊢
  obtain ⟨-, -, hbits, -⟩ := dropExtents_fields (Inode.extents (c.inode id)) (c.setInode final)
  exact ⟨hcons, hkeeps, ⟨hu.pos, hu.le, by rw [hbits]; exact hu.bit⟩, hrec⟩

theorem written_ok (h : Consistent c) (hu : Used c id) (ht : (c.inode id).type = typeRegular)
    (hf : FileRecord c id final) {start blocks : ℕ} (data : List UInt8)
    (hrun : allocRun (dropExtents c (Inode.extents (c.inode id))) blocks = some start)
    (hext : Inode.extents final = [singleExtent start blocks])
    (hcount : final.extentCount = 1) :
    Rewritten c (written c (c.inode id) final start blocks data) id final ∧
      ∀ b < blocks, (written c (c.inode id) final start blocks data).dataOf final b =
        dataChunk data b := by
  have hself := (hu.inodeId h.toAllocated).2
  have hfid : final.inodeId.toNat = id := hf.inodeId ▸ hself
  have hsmall := h.small
  obtain ⟨hpos, hfree, h82, hlt, hunused⟩ := allocRun_some hrun
  obtain ⟨-, hinodes, hbits, htotal⟩ := dropExtents_fields (Inode.extents (c.inode id)) c
  rw [htotal] at hlt
  -- the file without blocks, then the run, its bytes, and the record that owns it
  set i := { Inode.emptied (c.inode id) with checksum := final.checksum } with hi
  have hmagic := (hu.inodeId h.toAllocated).1
  obtain ⟨hcons₁, hkeeps₁⟩ := emptied_ok h hu ht (i := i) rfl hmagic ht rfl
  set c₁ := dropExtents (c.setInode i) (Inode.extents (c.inode id)) with hc₁
  have hc₁' : c₁ = (dropExtents c (Inode.extents (c.inode id))).setInode i :=
    (dropExtents_comm (f := fun c => c.setInode i) (fun _ _ _ => rfl) _ c).symm
  have hmarks : c₁.blockUsed = (dropExtents c (Inode.extents (c.inode id))).blockUsed := by
    rw [hc₁']; rfl
  have htot₁ : c₁.total = c.total := by rw [hc₁']; exact htotal
  have hunused₁ : ∀ x, start ≤ x → x < start + blocks → c₁.blockUsed x = false := by
    rw [hmarks]; exact hunused
  have hcons₂ := hcons₁.takeRun h82 (htot₁ ▸ hlt) hunused₁
  have hown : ∀ k, Used (c₁.takeRun start blocks) k → ∀ b ∈ Inode.blocks
      ((c₁.takeRun start blocks).inode k), ¬ (start ≤ b ∧ b < start + blocks) := by
    intro k hk b hb hx
    have := hcons₁.marked k ⟨hk.1, hk.2, hk.3⟩ b hb
    rw [hunused₁ b hx.1 hx.2] at this
    cases this
  obtain ⟨hcons₃, hkeeps₃, hbytes⟩ := fillRun_ok data hcons₂ hown
  set c₃ := fillRun start data (c₁.takeRun start blocks) blocks with hc₃
  obtain ⟨hinode₃, hused₃⟩ := fillRun_used (c₁.takeRun start blocks) start data blocks
  have hblocks := blocks_single (show start + blocks < 2 ^ 64 by omega) hext
  obtain ⟨hp, hcn, -⟩ := toNat_singleExtent (show start + blocks < 2 ^ 64 by omega)
  have hu₃ : Used c₃ id := by
    refine (hused₃ id).mpr ⟨hu.pos, hu.le, ?_⟩
    change c₁.inodeUsed id = true
    rw [hc₁']
    change (dropExtents c (Inode.extents (c.inode id))).inodeUsed id = true
    rw [hbits]; exact hu.bit
  have hrec₃ : (c₃.inode id).type = typeRegular := by
    rw [hinode₃]
    change (c₁.inode id).type = typeRegular
    rw [hc₁', show ((dropExtents c (Inode.extents (c.inode id))).setInode i).inode id =
      Inode.sealed i by rw [← hself]; exact Function.update_self ..]
    exact ht
  have hmark₃ : ∀ b, start ≤ b → b < start + blocks → c₃.blockUsed b = true := by
    intro b h1 h2
    have hm : ∀ n, (fillRun start data (c₁.takeRun start blocks) n).blockUsed =
        (c₁.takeRun start blocks).blockUsed := by
      intro n
      induction n with
      | zero => rfl
      | succ n ih => exact ih
    rw [hc₃, hm]
    change (if start ≤ b ∧ b < start + blocks then true else c₁.blockUsed b) = true
    rw [if_pos ⟨h1, h2⟩]
  have htot₃ : c₃.total = c.total := hkeeps₃.total.trans htot₁
  have hshape : InodeShape final := by
    refine ⟨by rw [hcount]; decide, ?_, ?_, Or.inl hf.type, fun hd => ?_⟩
    · intro ex hex
      rw [hext, List.mem_singleton] at hex
      rw [hex, hcn]
      exact hpos
    · rw [hblocks]; exact List.nodup_range'
    · rw [hf.type] at hd
      exact absurd hd (by decide)
  have hcons₄ := hcons₃.rewrite (i := final) (hfid.symm ▸ hu₃) hf.magic
    (by
      intro ex hex
      rw [hext, List.mem_singleton] at hex
      rw [hex, htot₃]
      exact ⟨by rw [hp]; exact h82, by rw [hp, hcn]; exact hlt⟩)
    hshape
    (by
      intro b hb
      rw [hblocks, List.mem_range'_1] at hb
      exact hmark₃ b hb.1 hb.2)
    (by
      intro k hk _ b hb hbk
      rw [hblocks, List.mem_range'_1] at hb
      rw [hinode₃] at hbk
      exact hown k ((hused₃ k).mp hk) b hbk hb)
    (by rw [hfid, hrec₃]; exact hf.type)
    (fun hd => by rw [hf.type] at hd; exact absurd hd (by decide))
  have heq : written c (c.inode id) final start blocks data = c₃.setInode final := by
    rw [written_eq (i := i) (by rw [hf.inodeId]; rfl)]
    rfl
  rw [heq]
  refine ⟨⟨hcons₄, ?_, used_setInode.mpr hu₃, ?_⟩, fun b hb => ?_⟩
  · exact ((hkeeps₁.trans (keeps_takeRun _ c₁ start blocks)).trans
      (hkeeps₃.weaken fun _ hx => hx.elim)).trans
      ((keeps_setInode c₃ final).weaken fun k hk => hk.trans hfid)
  · rw [← hfid]; exact Function.update_self ..
  · rw [Content.dataOf, lookup_single (by omega) hext, if_pos hb]
    exact hbytes b hb

end Rewrite

end XfsFileChanges
