import K64.Crc
import K64.KpmInstall
import K64.XfsMountSafety

/-! # Burst errors

The CRC-32 of `k64_kpm.c` and of `k64_xfs_format.c` divide by the same polynomial. A package whose
payload, and a volume whose superblock, changed inside four bytes is not accepted any more. -/
namespace BurstErrors

open ByteCodec IoProgram Crc KpmPackage KpmInstall XfsFormat XfsCache XfsCacheRefinement XfsJournal
  XfsInode XfsCalls XfsVolumeLifecycle XfsMounting XfsFormatting XfsMountSafety XfsSystem XfsRuns

theorem kpmCrc32_ne {bytes bytes' : List UInt8} (h : Burst bytes bytes') :
    kpmCrc32 bytes' ≠ kpmCrc32 bytes := fun heq =>
  h.detected (by decide) 0xFFFFFFFF (UInt32.not_inj.mp heq)

theorem k64XfsCrc32_ne {bytes bytes' : List UInt8} (h : Burst bytes bytes') :
    k64XfsCrc32 bytes' ≠ k64XfsCrc32 bytes := fun heq =>
  h.detected (by decide) 0xFFFFFFFF (UInt32.not_inj.mp heq)

theorem readHeader_take (data : List UInt8) : readHeader (data.take headerSize) = readHeader data := by
  have hbytes : ∀ {n m : ℕ} (l : List UInt8), n ≤ m →
      (Codec.bytes n).decode (l.take m) = (Codec.bytes n).decode l := by
    intro n m l hn
    ext i hi
    simp [Codec.bytes, List.getElem?_take_of_lt (hi.trans_le hn)]
  simp [readHeader, headerSize, List.drop_take, List.take_take, Codec.u16, Codec.u32, Codec.u64,
    Codec.word, hbytes]

theorem altered_payload_refused {data data' : List UInt8} {hdr : KpmPackageHeader}
    (h : k64KpmValidatePackageBytes data = .ok hdr)
    (hhead : data'.take headerSize = data.take headerSize)
    (hburst : Burst (data.drop headerSize) (data'.drop headerSize)) :
    k64KpmValidatePackageBytes data' = .error "payload crc mismatch" := by
  have haccepted := accepted_of_ok h
  have hread : readHeader data' = readHeader data := by
    rw [← readHeader_take, hhead, readHeader_take]
  have hsize := haccepted.size
  have hcrc := kpmCrc32_ne hburst
  have hlength : data'.length = data.length := by
    have hdrop := hburst.length
    simp only [List.length_drop] at hdrop
    omega
  rw [haccepted.crc, haccepted.read, ← hread] at hcrc
  rw [haccepted.read, ← hread] at hsize
  rw [k64KpmValidatePackageBytes, ← hread, ← hlength] at h
  rw [k64KpmValidatePackageBytes]
  dsimp only at h ⊢
  split_ifs at h with hsmall hheader hnames hpayload
  rw [if_neg hsmall, if_neg hheader, if_neg hnames, if_neg hpayload, if_pos]
  rw [List.take_of_length_le (by rw [List.length_drop]; omega), bne_iff_ne]
  exact hcrc

def bytePackage (b : UInt8) : List UInt8 :=
  helloPackage.take 168 ++ leBytes 8 1 ++ leBytes 4 0xD202EF8D ++ List.replicate 68 0 ++ [b]

theorem altered_byte_refused :
    k64KpmValidatePackageBytes (bytePackage 1) = .error "payload crc mismatch" := by
  have haccepted : k64KpmValidatePackageBytes (bytePackage 0) = .ok (readHeader (bytePackage 0)) := by
    rw [k64KpmValidatePackageBytes, if_neg (by decide +kernel)]
    dsimp only
    rw [if_neg (by decide +kernel), if_neg (by decide +kernel), if_neg (by decide +kernel),
      if_neg (by decide +kernel)]
  exact altered_payload_refused haccepted (by decide +kernel)
    (.intro [] [0] [1] [] rfl (by decide) (by decide))

theorem damaged_refused {dev : Geometry} {sb sb' : Superblock} (h : superAccepted dev sb = true)
    (hsum : sb'.checksum = sb.checksum)
    (hburst : Burst (superblockCodec.encode { sb with checksum := 0 })
      (superblockCodec.encode { sb' with checksum := 0 })) : superAccepted dev sb' = false := by
  have hne := k64XfsCrc32_ne hburst
  simp only [superAccepted, Bool.and_eq_true, beq_iff_eq] at h
  refine Bool.and_eq_false_iff.mpr (.inr (beq_eq_false_iff_ne.mpr fun hcheck => hne ?_))
  exact hcheck.symm.trans (hsum.trans h.2)

theorem damaged_not_mounted {s : System} {dev : Geometry} {sb : Superblock}
    (h : superAccepted dev sb = true)
    (hsum : ((s.machine.dev.block 0).record superblockCodec 0).checksum = sb.checksum)
    (hburst : Burst (superblockCodec.encode { sb with checksum := 0 }) (superblockCodec.encode
      { (s.machine.dev.block 0).record superblockCodec 0 with checksum := 0 })) :
    (s.call (k64XfsMount dev)).1 = none ∧
      (s.fs.mounted = false → (s.call (k64XfsMount dev)).2.fs.mounted = false) := by
  have hinit := cache_init_invariant s.machine.dev
  obtain ⟨-, -, hread⟩ := cache_read_refines hinit 0
  have hview : view ⟨k64XfsCacheInit, s.machine.dev⟩ 0 = s.machine.dev.block 0 :=
    view_of_free fun i hi => by simp [XfsCacheRefinement.Holds, k64XfsCacheInit] at hi
  have hmount : mwp (k64XfsMount dev) (fun r fs' _ => r = none ∧
      (s.fs.mounted = false → fs'.mounted = false)) s.fs s.machine := by
    rw [k64XfsMount, mwp, Proc.wp_bind, mountSuper]
    simp only [Proc.wp_bind, Proc.wp_guard, cacheInit, xfsBlockReadTmp, xfsBlockRead, cacheRead]
    split
    · simp only [Proc.wpNext_some, Proc.wp_bind, Proc.wp_update, Proc.wp_request, Proc.wp_orFail,
        true_and]
      generalize hm : machine (Req.read 0) _ = answer
      obtain ⟨_ | b, m⟩ := answer
      · exact ⟨rfl, fun _ => rfl⟩
      · obtain rfl : b = s.machine.dev.block 0 :=
          (hread b (congrArg Prod.fst hm)).trans hview
        simp only [Proc.wpNext_some, Proc.wp_bind, setTmp, Proc.wp_update, Proc.wp_pure,
          Proc.wp_guard, damaged_refused h hsum hburst]
        exact ⟨rfl, fun _ => rfl⟩
    · exact ⟨rfl, id⟩
  exact Proc.wp_exec hmount

def smallSuper : Superblock := Superblock.sealed (formatSuper 84 [])

/-- One bit is wrong in a field that no check but the checksum looks at. -/
def damagedSuper : Superblock := { smallSuper with versionMinor := 1 }

def damagedDevice : Device :=
  { smallDevice with base := fun _ => Block.zero.setRecord superblockCodec 0 damagedSuper }

theorem damagedDevice_not_mounted :
    ((blankSystem damagedDevice).call (k64XfsMount smallDevice.toGeometry)).1 = none := by
  have hrecord : ((blankSystem damagedDevice).machine.dev.block 0).record superblockCodec 0 =
      damagedSuper := Block.record_setRecord _ _ _ _ (by decide)
  refine (damaged_not_mounted (super_accepted (layout_formatSuper 84 [])
    (by decide) (by decide)) ?_ ?_).1
  · rw [hrecord]
    rfl
  · rw [hrecord]
    exact .intro [75, 54, 52, 88, 70, 83, 49, 0, 1, 0] [0] [1] _ rfl (by decide) (by decide)

end BurstErrors
