import K64.XfsRuns
import K64.XfsSmallVolume

/-! # Files as a map to byte strings

After a successful write the file reads back as the bytes written, whatever the read asks for, and
no other file has changed. Both survive an unmount and the next mount. -/
namespace XfsFileMap

open ByteCodec IoProgram XfsFormat XfsCache XfsJournal XfsInode XfsCalls XfsDirectory XfsOperations
  XfsVolume XfsVolumeRefinement XfsVolumeLifecycle XfsConsistency XfsLookup XfsPaths
  XfsDirectoryUpdate XfsContentChanges XfsOperationEffects XfsEffectsConsistent XfsResolving
  XfsMounting XfsFormatting XfsListing XfsSystem XfsRuns XfsSmallVolume

variable {c c' : Content} {data : List UInt8}

theorem read_dataChunk {b off n : ℕ} (hoff : off + n ≤ 4096)
    (hlen : b * 4096 + off + n ≤ data.length) :
    (dataChunk data b).read off n = (data.drop (b * 4096 + off)).take n := by
  have hchunk : ((data.drop (b * 4096)).take 4096).length = min 4096 (data.length - b * 4096) := by
    rw [List.length_take, List.length_drop]
  refine List.ext_getElem ?_ fun i hi hi' => ?_
  · rw [Block.length_read, List.length_take, List.length_drop]
    omega
  · rw [Block.length_read] at hi
    simp only [Block.read, List.getElem_map, List.getElem_range]
    rw [dataChunk, Block.get_write _ _ _ (by omega), if_pos ⟨Nat.zero_le _, by omega⟩,
      List.getD_eq_getElem _ _ (by omega)]
    simp only [List.getElem_take, List.getElem_drop, Nat.sub_zero, Nat.add_assoc]

theorem sizeBlocks_of_length {size : UInt64} {n : ℕ} (hs : size.toNat = n) (hn : n < 2 ^ 63) :
    sizeBlocks size = (n + 4095) / 4096 := by
  have hword : (4095 : UInt64).toNat = 4095 := rfl
  have hdiv : (4096 : UInt64).toNat = 4096 := rfl
  rw [sizeBlocks, UInt64.toNat_div, UInt64.toNat_add, hs, hword, hdiv, Nat.mod_eq_of_lt (by omega)]

theorem bytesFrom_data {i : Inode} (hs : i.size.toNat = data.length)
    (hlen : data.length < 2 ^ 63)
    (hbytes : ∀ b < blocksFor data, c.dataOf i b = dataChunk data b) (max : ℕ) :
    ∀ out, out.length ≤ max → out.length ≤ data.length → out = data.take out.length →
      bytesFrom c i max out = some (data.take max) := by
  have hblocks := sizeBlocks_of_length hs hlen
  intro out
  fun_induction bytesFrom c i max out with
  | case1 out h hb ih =>
    intro hmax hdata hout
    rw [hs] at ih h ⊢
    have hmod := Nat.mod_add_div out.length 4096
    have hlt := Nat.mod_lt out.length (show 0 < 4096 by decide)
    have hsplit : out.length / 4096 * 4096 + out.length % 4096 = out.length := by omega
    have hread : (c.dataOf i (out.length / 4096)).read (out.length % 4096)
        (min (4096 - out.length % 4096) (min (data.length - out.length) (max - out.length))) =
        (data.drop out.length).take (min (4096 - out.length % 4096)
          (min (data.length - out.length) (max - out.length))) := by
      rw [hbytes _ (by rw [hblocks] at hb; exact hb), read_dataChunk (by omega) (by omega), hsplit]
    rw [hread] at ih ⊢
    have hnew : (out ++ (data.drop out.length).take (min (4096 - out.length % 4096)
        (min (data.length - out.length) (max - out.length)))).length =
        out.length + min (4096 - out.length % 4096)
          (min (data.length - out.length) (max - out.length)) := by
      rw [List.length_append, List.length_take, List.length_drop]
      omega
    refine ih (by omega) (by omega) ?_
    rw [hnew, List.take_add, ← hout]
  | case2 out h hb =>
    intro _ _ _
    rw [hblocks] at hb
    omega
  | case3 out h =>
    intro hmax hdata hout
    rw [hs] at h
    rw [hout]
    rcases Nat.lt_or_ge out.length data.length with hlt | hge
    · rw [show out.length = max by omega]
    · rw [List.take_of_length_le hge, List.take_of_length_le (by omega)]

theorem bytesFrom_congr {inode : Inode} (h : ∀ b, c'.dataOf inode b = c.dataOf inode b)
    (max : ℕ) (out : List UInt8) : bytesFrom c' inode max out = bytesFrom c inode max out := by
  fun_induction bytesFrom c inode max out with
  | case1 out hlt hb ih =>
    rw [bytesFrom, dif_pos hlt, if_pos hb, h]
    exact ih
  | case2 out hlt hb => rw [bytesFrom, dif_pos hlt, if_neg hb]
  | case3 out hlt => rw [bytesFrom, dif_neg hlt]

variable {final : Inode}

theorem wrote_bytes {id : ℕ} (h : Wrote c c' id data final)
    (hlen : data.length < 2 ^ 63) (max : ℕ) :
    bytesFrom c' (c'.inode id) max [] = some (data.take max) := by
  have hsize : final.size.toNat = data.length := by
    rw [h.size]
    exact UInt64.toNat_ofNat'.trans (Nat.mod_eq_of_lt (by omega))
  rw [h.record]
  exact bytesFrom_data (i := Inode.sealed final) hsize hlen h.bytes max [] (Nat.zero_le _)
    (Nat.zero_le _) rfl

/-- The content after a write: the file holds `data`, and other inodes are as before. -/
structure WroteFile (c c' : Content) (path : List UInt8) (data : List UInt8) : Prop where
  target : ∃ id, resolve c' path = some (id, c'.inode id.toNat) ∧
    (c'.inode id.toNat).type = typeRegular ∧
    (c'.inode id.toNat).size = UInt64.ofNat data.length ∧
    ∀ max, bytesFrom c' (c'.inode id.toNat) max [] = some (data.take max)
  frame : ∀ other id inode, (0 : UInt8) ∉ other → resolve c other = some (id, inode) →
    (∀ id' inode', resolve c' path = some (id', inode') → id ≠ id') →
    (resolve c path = none → ∀ parent leaf pid pinode, xfsSplitParent path = some (parent, leaf) →
      resolve c parent = some (pid, pinode) → id ≠ pid) →
    resolve c' other = some (id, inode) ∧ ∀ b, c'.dataOf inode b = c.dataOf inode b

variable {path : List UInt8}

theorem wrote_existing {id : UInt32} (h : Consistent c)
    (h0 : (0 : UInt8) ∉ path) (hlen : data.length < 2 ^ 63)
    (hres : resolve c path = some (id, c.inode id.toNat))
    (ht : (c.inode id.toNat).type = typeRegular) (hw : Wrote c c' id.toNat data final) :
    WroteFile c c' path data := by
  have hchild := childOf_file h hw.consistent hw.keeps ht
  have hself := resolve_mono h hw.consistent hchild h0 hres
  refine ⟨⟨id, hself, ?_, ?_, wrote_bytes hw hlen⟩, fun other k inode ho hk hne _ => ?_⟩
  · rw [hw.record]
    exact hw.type
  · rw [hw.record]
    exact hw.size
  · obtain ⟨hu, rfl, -, -⟩ := resolve_used h ho hk
    have hkid : k.toNat ≠ id.toNat := fun heq => hne id _ hself (UInt32.toNat_inj.mp heq)
    rw [resolve_mono h hw.consistent hchild ho hk, hw.keeps.inode _ hkid hu]
    exact ⟨rfl, hw.keeps.data _ hkid hu⟩

variable {generation : UInt64}

theorem write_split {uid gid : UInt32} {k : ℕ}
    (hres : resolve c path = none)
    (he : writeEffect c generation path data uid gid = .done k c') :
    ∃ parent leaf pid pinode, xfsSplitParent path = some (parent, leaf) ∧
      resolve c parent = some (pid, pinode) := by
  cases hcr : creatable c path with
  | none =>
    simp only [writeEffect, hres, createEffect, hcr] at he
    cases he
  | some found =>
    simp only [creatable] at hcr
    obtain ⟨⟨parent, leaf⟩, hsplit, hrest⟩ := Option.bind_eq_some_iff.mp hcr
    obtain ⟨⟨pid, pinode⟩, hparent, -⟩ := Option.bind_eq_some_iff.mp hrest
    exact ⟨parent, leaf, pid, pinode, hsplit, hparent⟩

theorem wrote_created {c₁ : Content} {uid gid : UInt32}
    {k parent id : ℕ} {names : List (List UInt8)} {leaf : List UInt8}
    (h : Consistent c) (h0 : (0 : UInt8) ∉ path) (hlen : data.length < 2 ^ 63)
    (he : writeEffect c generation path data uid gid = .done k c')
    (hres : resolve c path = none)
    (hcr : CreatedAt c c₁ path typeRegular parent id names leaf) (hw : Wrote c₁ c' id data final) :
    WroteFile c c' path data := by
  have hid : (UInt32.ofNat id).toNat = id := by
    rw [UInt32.toNat_ofNat', Nat.mod_eq_of_lt (Nat.lt_of_le_of_lt hcr.used.le (by decide))]
  have hchild₁ : ∀ dir name k, Used c dir → (0 : UInt8) ∉ name → childOf c dir name = some k →
      childOf c₁ dir name = some k := fun _ _ _ => hcr.childOf_mono
  have hchild := childOf_file hcr.consistent hw.consistent hw.keeps hcr.type
  have hself := resolve_mono hcr.consistent hw.consistent hchild h0 (hcr.resolve h h0)
  refine ⟨⟨UInt32.ofNat id, hself, ?_, ?_, ?_⟩, fun other j inode ho hj hne hpar => ?_⟩
  · rw [hid, hw.record]
    exact hw.type
  · rw [hid, hw.record]
    exact hw.size
  · rw [hid]
    exact wrote_bytes hw hlen
  · obtain ⟨hu, rfl, -, -⟩ := resolve_used h ho hj
    obtain ⟨pp, leaf', pid, pinode, hsplit, hpp⟩ := write_split hres he
    obtain ⟨-, -, -, htok, hpp0⟩ := split_parent_some h0 hsplit
    obtain ⟨-, -, -, hploc⟩ := resolve_used h hpp0 hpp
    have hparent : parent = pid.toNat := by
      have hnames : names = tokens pp := (List.append_inj' (hcr.tokens.symm.trans htok) rfl).1
      have hlocated := hcr.located
      rw [hnames, hploc] at hlocated
      exact (Option.some.inj hlocated).symm
    have hjid : j.toNat ≠ id := by
      rintro rfl
      exact hcr.fresh hu
    have hjp : j.toNat ≠ parent := fun heq =>
      hpar hres pp leaf' pid pinode hsplit hpp (UInt32.toNat_inj.mp (heq.trans hparent))
    have hout : ¬ (j.toNat = parent ∨ j.toNat = id) := fun hor => hor.elim hjp hjid
    have hu₁ := (hcr.keeps.used _ hout).mpr hu
    have hrec₁ := hcr.keeps.inode _ hout hu
    have hj₁ := resolve_mono h hcr.consistent hchild₁ ho hj
    refine ⟨?_, fun b => ?_⟩
    · rw [resolve_mono hcr.consistent hw.consistent hchild ho hj₁, hw.keeps.inode _ hjid hu₁, hrec₁]
    · have hdata := hw.keeps.data _ hjid hu₁ b
      rw [hrec₁] at hdata
      rw [hdata, hcr.keeps.data _ hout hu]

theorem write_effect_file {uid gid : UInt32} {k : ℕ}
    (h : Consistent c) (h0 : (0 : UInt8) ∉ path) (hlen : data.length < 2 ^ 63)
    (he : writeEffect c generation path data uid gid = .done k c') : WroteFile c c' path data := by
  rcases write_done h h0 he with ⟨id, final, hres, -, ht, hw⟩ |
    ⟨hres, c₁, parent, id, names, leaf, final, hcr, hw⟩
  · exact wrote_existing h h0 hlen hres ht hw
  · exact wrote_created h h0 hlen he hres hcr hw

/-- The answer of `xfs_resolve`. -/
def resolved (s : System) (path : List UInt8) : Option (UInt32 × Inode) :=
  (s.call (lowered (xfsResolve path))).1

/-- The answer of `k64_xfs_read_file`. -/
def fileRead (s : System) (path : CString) (max : ℕ) : Option (List UInt8) :=
  (s.call (lowered (k64XfsReadFile path max))).1

structure Answers (s : System) (c : Content) : Prop where
  resolved : ∀ path, resolved s path = resolve c path
  read : ∀ path max, fileRead s path max = fileBytes c path.bytes max
  stat : ∀ path, (s.call (lowered (k64XfsStat path))).1 = fileStat c path
  list : ∀ path outSize, (s.call (lowered (k64XfsListDir path outSize))).1 =
    dirListing c path outSize

variable {total : ℕ} {s t u : System} {V : Volume} {label : CString}

theorem answer_of_wp {α : Type} {f : XfsV α} {o : Option α} (h : XfsSystem.Holds total s V)
    (hw : Proc.wp volume volumeGuard f (fun r _ _ => r = o) () V) :
    (s.call (lowered f)).1 = o := by
  obtain ⟨d, -, hrep, hs, -⟩ := h
  obtain ⟨-, -, -, V', -, hr⟩ := call_of_wp hrep (lowered_of_wp (P := fun r _ => r = o) hs hw)
  exact hr

theorem steady_answers (h : Steady total s V) (hm : V.mounted = true) : Answers s V.content := by
  have hc := h.consistent
  refine ⟨fun path => ?_, fun path max => ?_, fun path => ?_, fun path outSize => ?_⟩
  · exact answer_of_wp h.holds ((wp_resolve hc.toAllocated hm).mpr rfl)
  · exact answer_of_wp h.holds ((wp_readFile hc hm max).mpr rfl)
  · exact answer_of_wp h.holds ((wp_stat hc.toAllocated hm).mpr rfl)
  · exact answer_of_wp h.holds ((wp_listDir hc.toAllocated hm
      fun id inode => resolve_fits hc (noNul_orRoot path)).mpr rfl)

/-- The file at `path` holds `data` in `w`, and every file of `u` that is neither this one nor the
directory it was created in is in `w` what it was. -/
structure FileWritten (u w : System) (path : CString) (data : List UInt8) : Prop where
  read : ∀ max, fileRead w path max = some (data.take max)
  stat : ∃ st, (w.call (lowered (k64XfsStat path))).1 = some st ∧ st.size.toNat = data.length
  frame : ∀ (other : CString) id inode, resolved u other.bytes = some (id, inode) →
    (∀ id' inode', resolved w path.bytes = some (id', inode') → id ≠ id') →
    (resolved u path.bytes = none → ∀ parent leaf pid pinode,
      xfsSplitParent path.bytes = some (parent, leaf) → resolved u parent = some (pid, pinode) →
      id ≠ pid) →
    resolved w other.bytes = some (id, inode) ∧ ∀ max, fileRead w other max = fileRead u other max

theorem file_written {w : System} {path : CString} {data : List UInt8} {c c' : Content}
    (h : WroteFile c c' path.bytes data) (hu : Answers u c) (hw : Answers w c')
    (hlen : data.length < 2 ^ 63) : FileWritten u w path data := by
  obtain ⟨id, hres, htype, hsize, hbytes⟩ := h.target
  refine ⟨fun max => ?_, ?_, fun other k inode hk hne hpar => ?_⟩
  · rw [hw.read, fileBytes, hres]
    exact (if_pos htype).trans (hbytes max)
  · have hpath : orRoot path = path.bytes := by
      have hhead := resolve_head hres
      unfold orRoot
      rw [if_neg fun he => by rw [he] at hhead; cases hhead]
    refine ⟨_, (hw.stat path).trans (by rw [fileStat, hpath, hres]; rfl), ?_⟩
    change (c'.inode id.toNat).size.toNat = data.length
    rw [hsize]
    exact UInt64.toNat_ofNat'.trans (Nat.mod_eq_of_lt (by omega))
  · rw [hu.resolved] at hk
    obtain ⟨hother, hdata⟩ := h.frame other.bytes k inode other.noNul hk
      (fun id' inode' hx => hne id' inode' (by rw [hw.resolved]; exact hx))
      (fun hnone parent leaf pid pinode hsplit hp => hpar (by rw [hu.resolved]; exact hnone) parent
        leaf pid pinode hsplit (by rw [hu.resolved]; exact hp))
    refine ⟨by rw [hw.resolved]; exact hother, fun max => ?_⟩
    rw [hw.read, hu.read, fileBytes, fileBytes, hother, hk, Option.bind_some, Option.bind_some]
    exact if_congr Iff.rfl (bytesFrom_congr hdata max []) rfl

/-- The system after an unmount and a mount. -/
def remounted (dev : Geometry) (s : System) : System :=
  ((s.call k64XfsUnmount).2.call (k64XfsMount dev)).2

theorem remount_steady {dev : Geometry} (h : Steady total s V) (hm : V.mounted = true)
    (hsector : WholeSectors dev)
    (ht : total ≤ xfsFsBlocks dev) :
    (s.call k64XfsUnmount).1.isSome = true ∧
      ((s.call k64XfsUnmount).2.call (k64XfsMount dev)).1.isSome = true ∧
      Steady total (remounted dev s) (mountedVolume V.content V.generation) := by
  obtain ⟨V₁, hh₁, hok₁, rfl⟩ := call_shown (a := .unmount) h.holds h.consistent h.room nofun
    hsector ht
  rw [if_pos hm] at hh₁
  have hun : ((s.call k64XfsUnmount).2).fs.mounted = false := by
    obtain ⟨d, -, -, hs, -⟩ := hh₁
    exact hs.mounted
  obtain ⟨V₂, hh₂, hok₂, rfl⟩ := call_shown (a := .mount) hh₁ h.consistent nofun (fun _ => hun)
    hsector ht
  exact ⟨hok₁.trans hm, hok₂, hh₂, h.consistent, rfl⟩

/-- On every volume that successful calls have made of a formatted one, a successful write is read
back and leaves all other files alone, also across an unmount and a mount. -/
theorem written_files_read_back {calls : List (PublicCall × Bool)} (hfresh : FreshMount label s t)
    (hf : ∀ i, s.machine.dev.faults i = false)
    (hsmall : xfsFsBlocks (System.geometry s) ≤ 32768)
    (hrun : Run (System.geometry s) t calls u) (hok : ∀ c ∈ calls, c.2 = true)
    (path : CString) (data : Buffer) (uid gid : UInt32)
    (hw : (u.call (lowered (k64XfsWriteFile path data.bytes uid gid))).1.isSome = true) :
    FileWritten u (u.call (lowered (k64XfsWriteFile path data.bytes uid gid))).2 path data.bytes ∧
      FileWritten u (remounted (System.geometry s)
        (u.call (lowered (k64XfsWriteFile path data.bytes uid gid))).2) path data.bytes := by
  obtain ⟨h84, hdev, -⟩ := fresh_holds hfresh hf hsmall
  obtain ⟨V, hV⟩ := fresh_run_steady hfresh hf hsmall hrun hok
  have hsector := sector_of_ok hdev
  obtain ⟨V', hV', hshown⟩ := step_steady (a := .operation (.writeFile path data uid gid)) hV nofun
    hsector (Nat.le_refl _) hw
  obtain ⟨hm, k, c, n, he, rfl⟩ := operation_done hshown
  have hfile := write_effect_file hV.consistent path.noNul data.bounded he
  obtain ⟨-, -, hre⟩ := remount_steady hV' hm hsector (Nat.le_refl _)
  exact ⟨file_written hfile (steady_answers hV hm) (steady_answers hV' hm) data.bounded,
    file_written hfile (steady_answers hV hm) (steady_answers hre rfl) data.bounded⟩

theorem first_file_reads_back :
    let path : CString := ⟨pathA, by decide⟩
    let w := ((freshSystem smallDevice).call (lowered (k64XfsWriteFile path [7] 0 0))).2
    FileWritten (freshSystem smallDevice) w path [7] ∧
      FileWritten (freshSystem smallDevice) (remounted smallDevice.toGeometry w) path [7] := by
  refine written_files_read_back fresh_smallDevice (fun _ => rfl) (by decide) (Run.nil _)
    (fun _ h => absurd h List.not_mem_nil) ⟨pathA, by decide⟩ ⟨[7], by simp⟩ 0 0 ?_
  have hsmall : xfsFsBlocks (System.geometry (blankSystem smallDevice)) ≤ 32768 := by decide
  obtain ⟨h84, hdev, hholds⟩ := fresh_holds fresh_smallDevice (fun _ => rfl) hsmall
  have hV : Steady _ (freshSystem smallDevice) (mountedVolume (formatted _ smallDevice.block) 1) :=
    ⟨hholds, formatted_consistent smallDevice.block h84 hsmall, rfl⟩
  obtain ⟨c, hc⟩ : ∃ c, writeEffect (formatted _ smallDevice.block) 1 pathA [7] 0 0 = .done 2 c :=
    write_pathA h84 hsmall 1 (by decide) 0 0
  refine operation_succeeds (o := .writeFile ⟨pathA, by decide⟩ ⟨[7], by simp⟩ 0 0) hV rfl
    (k := 2) (c := c) ?_ (sector_of_ok hdev) (Nat.le_refl _)
  rw [Operation.effect]
  exact hc

theorem written_bytes (max : ℕ) : fileRead writtenSystem fileA max = some ([7].take max) := by
  obtain ⟨total, h84, hsmall, hsteady, hsector, ht⟩ := small_steady
  obtain ⟨-, V, hV, hm, -⟩ := first_created h84 hsmall hsteady hsector ht
  obtain ⟨V', hV', hshown⟩ := step_steady (a := .operation (.writeFile fileA byteSeven 0 0)) hV nofun
    hsector ht created_written.2
  obtain ⟨-, k, c, n, he, rfl⟩ := operation_done hshown
  have hfile := write_effect_file hV.consistent fileA.noNul byteSeven.bounded he
  exact (file_written hfile (steady_answers hV hm) (steady_answers hV' hm) byteSeven.bounded).read max

end XfsFileMap
