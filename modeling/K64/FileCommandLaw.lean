import K64.FileCommandAccess

/-! # What each file command changes

One theorem for each command: what it does is honoured exactly if it is tidy. A command of the shell is
shorter than the line buffer. -/
namespace FileCommands
open FileTree XfsDirectory
open Accounts (UserState userCanAccess userEffectiveUid userEffectiveGid userIsRoot userNextToken)

variable {st : Storage} {cwd : Str} {s : UserState} {f f' : Nodes} {args path full data : Str}

theorem token_length_lt (args : Str) : (userNextToken 64 args).1.length < 128 := by
  have := List.length_take_le (64 - 1)
    ((Accounts.userSkipWs args).takeWhile fun c => !Accounts.isBlank c)
  change (List.take _ _).length < 128
  omega

theorem target_eq (h : fullPath cwd path = some full) :
    target cwd f path = resolve f (tokens full) := by
  simp [target, names, h]

theorem target_none (h : fullPath cwd path = none) : target cwd f path = none := by
  simp [target, names, h]

variable {n : Node} {i : ℕ}

theorem forall_target {P : ℕ → Node → Prop} (h : target cwd f path = some i)
    (hn : f i = some n) : (∀ j m, target cwd f path = some j → f j = some m → P j m) ↔ P i n := by
  constructor
  · intro hall
    exact hall i n h hn
  · intro hp j m hj hm
    obtain rfl : i = j := Option.some.inj (h.symm.trans hj)
    obtain rfl : n = m := Option.some.inj (hn.symm.trans hm)
    exact hp

theorem forall_target_none {P : ℕ → Node → Prop} (h : target cwd f path = none) :
    ∀ j m, target cwd f path = some j → f j = some m → P j m := by
  intro j m hj
  simp [h] at hj

theorem create_nonempty (h : fsctlRequireCreateAccess cwd s f path = true) : path ≠ [] := by
  rintro rfl
  simp [fsctlRequireCreateAccess] at h

theorem access_nonempty {mask : UInt32} (h : fsctlCanAccessPath cwd s f path mask = true) :
    path ≠ [] := (canAccessPath_cases h).1

theorem stopped_iff {check : Bool} {P : Prop} (hstop : path = [] ∨ check = false) :
    Honoured s f f ↔ (path ≠ [] → check = true → P) := by
  refine iff_of_true (honoured_unchanged .refl) fun hne hcheck => ?_
  rcases hstop with hempty | hno
  · exact absurd hempty hne
  · simp [hno] at hcheck

theorem stopped_pair_iff {src dst : Str} {mask : UInt32} {check : Bool} {P : Prop}
    (hstop : src = [] ∨ dst = [] ∨ fsctlCanAccessPath cwd s f src mask = false ∨ check = false) :
    Honoured s f f ↔
      (fsctlCanAccessPath cwd s f src mask = true → dst ≠ [] → check = true → P) := by
  refine iff_of_true (honoured_unchanged .refl) fun hsrc hne hcheck => ?_
  rcases hstop with hempty | hempty | hno | hno
  · exact absurd hempty (access_nonempty hsrc)
  · exact absurd hempty hne
  · simp [hno] at hsrc
  · simp [hno] at hcheck

theorem ownedAfter_false (g : Nodes) : ownedAfter cwd s path (false, g) = g := rfl

theorem ownedAfter_true (h : fullPath cwd path = some full) (g : Nodes) :
    ownedAfter cwd s path (true, g) =
      (changeNode g (tokens full) fun n => n.owned (userEffectiveUid s) (userEffectiveGid s)).2 := by
  simp [ownedAfter, fsctlApplyNewOwner, fsChown, xfsChown, h]

theorem ownedAfter_missing (h : target cwd f path = none) :
    ownedAfter cwd s path (true, f) = f := by
  rcases hfull : fullPath cwd path with _ | full
  · simp [ownedAfter, fsctlApplyNewOwner, fsChown, hfull]
  · rw [ownedAfter_true hfull, changeNode_of_none (target_eq hfull ▸ h)]

theorem ownedAfter_existing_iff (h : target cwd f path = some i)
    (hn : f i = some n) : Honoured s f (ownedAfter cwd s path (true, f)) ↔ Owns s n := by
  obtain ⟨full, hfull⟩ : ∃ full, fullPath cwd path = some full := by
    by_contra hno
    rw [target_none (Option.eq_none_iff_forall_ne_some.mpr fun full hf => hno ⟨full, hf⟩)] at h
    simp at h
  rw [target_eq hfull] at h
  rw [ownedAfter_true hfull, changeNode_of_resolve h hn]
  exact honoured_owner_iff hn (only_setNode f i _)

variable {d : Node} {p : ℕ}

theorem created_honoured (hroot : userIsRoot s = false) (hshort : path.length < 128)
    (hcheck : fsctlRequireCreateAccess cwd s f path = true) (hfull : fullPath cwd path = some full)
    {new : Node} {leaf : Str} (hc : Creates st f (tokens full) new p d leaf i)
    (h : Only f f' p (d.addEntry leaf i)) : Honoured s f f' :=
  (honoured_entry_iff hc.node h).mpr
    (create_checked hroot hshort hcheck hfull hc.absent hc.parent hc.node)

theorem ownedAfter_only (hfull : fullPath cwd path = some full) {ok : Bool}
    (h : Only f f' p n) (hp : i ≠ p) (hnew : f i = none) (hi : resolve f' (tokens full) = some i) :
    Only f (ownedAfter cwd s path (ok, f')) p n := by
  cases ok with
  | false => exact h
  | true =>
    rw [ownedAfter_true hfull]
    exact h.changeNode hp hnew hi _

theorem create_honoured (hroot : userIsRoot s = false) (hshort : path.length < 128)
    (hcheck : fsctlRequireCreateAccess cwd s f path = true) (hfull : fullPath cwd path = some full)
    (isDir : Bool) (uid gid : UInt32) :
    Honoured s f (ownedAfter cwd s path (xfsCreateAt st f (tokens full) isDir uid gid)) := by
  rcases create_cases st f (tokens full) isDir uid gid with
    ⟨hfail, hsame, -⟩ | ⟨p, d, leaf, i, hc, hmade⟩
  · have heq : ownedAfter cwd s path (xfsCreateAt st f (tokens full) isDir uid gid) =
        (xfsCreateAt st f (tokens full) isDir uid gid).2 := by
      simp [ownedAfter, hfail]
    rw [heq]
    exact honoured_unchanged hsame
  · rw [hmade]
    exact created_honoured hroot hshort hcheck hfull hc
      (ownedAfter_only hfull hc.only hc.inode_ne hc.free hc.resolves)

theorem write_new_honoured (hroot : userIsRoot s = false) (hshort : path.length < 128)
    (hcheck : fsctlRequireCreateAccess cwd s f path = true) (hfull : fullPath cwd path = some full)
    (hmissing : resolve f (tokens full) = none) (uid gid : UInt32) :
    Honoured s f (ownedAfter cwd s path (xfsWriteFile st f (tokens full) data uid gid)) := by
  rcases writeFile_new st hmissing data uid gid with
    ⟨hfail, hsame, -⟩ | ⟨p, d, leaf, i, hc, honly, hi⟩
  · have heq : ownedAfter cwd s path (xfsWriteFile st f (tokens full) data uid gid) =
        (xfsWriteFile st f (tokens full) data uid gid).2 := by
      simp [ownedAfter, hfail]
    rw [heq]
    exact honoured_unchanged hsame
  · exact created_honoured hroot hshort hcheck hfull hc
      (ownedAfter_only hfull honly hc.inode_ne hc.free hi)

theorem write_existing_iff (hfull : fullPath cwd path = some full)
    (hi : resolve f (tokens full) = some i) (hn : f i = some n) (uid gid : UInt32) :
    Honoured s f (ownedAfter cwd s path (xfsWriteFile st f (tokens full) data uid gid)) ↔
      (Stores st f i n data →
        Overwrites s (userEffectiveUid s) (userEffectiveGid s) n data) := by
  rw [writeFile_existing hi]
  rcases writeNode_cases st hn data uid gid with ⟨hstores, hwrite⟩ | ⟨hfull', hwrite⟩
  · rw [hwrite, ownedAfter_true hfull, changeNode_of_resolve
      (resolve_setNode hn (by rfl) (by rfl) hi) (setNode_self ..)]
    have honly : Only f (setNode (setNode f i { n with data := data, uid := uid, gid := gid }) i
        { n with data := data, uid := userEffectiveUid s, gid := userEffectiveGid s }) i
        { n with data := data, uid := userEffectiveUid s, gid := userEffectiveGid s } :=
      ⟨setNode_self .., fun j m hj hm => (setNode_ne _ _ hj).trans ((setNode_ne _ _ hj).trans hm)⟩
    exact (honoured_overwrite_iff hn honly).trans ⟨fun h _ => h, fun h => h hstores⟩
  · rw [hwrite, ownedAfter_false]
    exact iff_of_true (honoured_unchanged .refl) fun h => absurd h hfull'

theorem mkdir_honoured (hroot : userIsRoot s = false) (hshort : args.length < 128) :
    Honoured s f (fsctlMkdirHandler st cwd s f args) := by
  unfold fsctlMkdirHandler
  split
  · exact honoured_unchanged .refl
  next hgo =>
    rw [not_or, Bool.not_eq_false] at hgo
    unfold fsMkdir
    rcases hfull : fullPath cwd args with _ | full
    · exact honoured_unchanged .refl
    · exact create_honoured hroot hshort hgo.2 hfull true 0 0

theorem mkdirp_honoured_iff (hroot : userIsRoot s = false) (hshort : args.length < 128) :
    Honoured s f (fsctlMkdirpHandler st cwd s f args) ↔
      (fsctlRequireCreateAccess cwd s f args = true →
        ∀ i n, target cwd f args = some i → f i = some n → Owns s n) := by
  unfold fsctlMkdirpHandler
  split
  next hstop =>
    refine iff_of_true (honoured_unchanged .refl) fun hcheck => ?_
    rcases hstop with hempty | hno
    · exact absurd hempty (create_nonempty hcheck)
    · simp [hno] at hcheck
  next hgo =>
    rw [not_or, Bool.not_eq_false] at hgo
    unfold fsMkdirP
    rcases hfull : fullPath cwd args with _ | full
    · refine iff_of_true (honoured_unchanged .refl) fun _ i n hi => ?_
      simp [target_none hfull] at hi
    · rcases hi : resolve f (tokens full) with _ | i
      · obtain ⟨dir, q, e, hbeside, hq, -, -⟩ := parent_checked hroot hshort hgo.2 hfull
        obtain ⟨name, hname⟩ := hbeside.missing hq hi
        have hlast : mkdirPath st f [] (tokens full) = xfsMkdir st f (tokens full) := by
          rw [hname] at hi ⊢
          exact mkdirPath_last hq hi
        simp only [hlast]
        exact iff_of_true (create_honoured hroot hshort hgo.2 hfull true 0 0) fun _ =>
          forall_target_none ((target_eq hfull).trans hi)
      · obtain ⟨n, hn⟩ := resolve_some hi
        have htarget : target cwd f args = some i := (target_eq hfull).trans hi
        have hthere : mkdirPath st f [] (tokens full) = (true, f) := mkdirPath_present hi
        simp only [hthere]
        rw [ownedAfter_existing_iff htarget hn, forall_target htarget hn]
        exact ⟨fun howns _ => howns, fun h => h hgo.2⟩

theorem writeOrCreate_cases (hroot : userIsRoot s = false)
    (h : fsctlRequireWriteOrCreate cwd s f path = true) :
    fsctlRequireCreateAccess cwd s f path = true ∨ IsNull cwd path ∨ IsReal cwd path ∧
      ∃ i n, target cwd f path = some i ∧ f i = some n ∧ grants s (nodeStat n) accessWrite = true := by
  unfold fsctlRequireWriteOrCreate at h
  split at h
  · obtain ⟨-, full, -, hfull, -⟩ := canAccessPath_cases h
    rcases write_checked hroot h hfull with hnull | ⟨hreal, i, n, hi, hn, hgrant⟩
    · exact .inr (.inl (hfull.trans (congrArg some hnull)))
    · exact .inr (.inr ⟨⟨full, hfull, hreal⟩, i, n, (target_eq hfull).trans hi, hn, hgrant⟩)
  · exact .inl h

theorem writeOrCreate_existing
    (h : fsctlRequireWriteOrCreate cwd s f path = true) (hfull : fullPath cwd path = some full)
    (hreal : isPseudoPath full = false) (hi : resolve f (tokens full) = some i)
    (hn : f i = some n) : grants s (nodeStat n) accessWrite = true := by
  have hstat : fsStat f cwd path = some (nodeStat n) := by
    simp [fsStat, hfull, hreal, lookup, hi, hn]
  unfold fsctlRequireWriteOrCreate at h
  rw [if_pos (by rw [hstat]; rfl)] at h
  unfold fsctlCanAccessPath at h
  rw [hstat, Bool.and_eq_true] at h
  exact h.2

theorem writeOrCreate_missing (h : fsctlRequireWriteOrCreate cwd s f path = true)
    (hfull : fullPath cwd path = some full) (hreal : isPseudoPath full = false)
    (hi : resolve f (tokens full) = none) : fsctlRequireCreateAccess cwd s f path = true := by
  have hstat : fsStat f cwd path = none := by
    simp [fsStat, hfull, hreal, lookup_none.mpr hi]
  unfold fsctlRequireWriteOrCreate at h
  rwa [hstat] at h

theorem null_pseudo : isPseudoPath nullPath = true := by decide

theorem new_honoured_iff (hfull : fullPath cwd path = some full)
    (h : Unchanged f f' ∧ (∀ p d leaf i, ¬ Creates st f (tokens full) (newNode false 0 0) p d leaf i) ∨
      ∃ p d leaf i, Creates st f (tokens full) (newNode false 0 0) p d leaf i ∧
        Only f f' p (d.addEntry leaf i)) :
    Honoured s f f' ↔ ∀ d, Makes st cwd f path d → grants s (nodeStat d) accessWriteExec = true := by
  have hmakes : ∀ d, Makes st cwd f path d →
      ∃ p leaf i, Creates st f (tokens full) (newNode false 0 0) p d leaf i := by
    rintro d ⟨ns, p, leaf, i, hns, hc⟩
    obtain rfl : tokens full = ns := by simpa [names, hfull] using hns
    exact ⟨p, leaf, i, hc⟩
  rcases h with ⟨hsame, hnone⟩ | ⟨p, d, leaf, i, hc, honly⟩
  · refine iff_of_true (honoured_unchanged hsame) fun d hd => ?_
    obtain ⟨p, leaf, i, hc⟩ := hmakes d hd
    exact absurd hc (hnone p d leaf i)
  · rw [honoured_entry_iff hc.node honly]
    constructor
    · intro hgrant d' hd
      obtain ⟨p', leaf', i', hc'⟩ := hmakes d' hd
      rwa [hc.same_dir hc']
    · intro hall
      exact hall d ⟨tokens full, p, leaf, i, by simp [names, hfull], hc⟩

theorem touch_new_iff (hfull : fullPath cwd path = some full) :
    Honoured s f (ownedAfter cwd s path (xfsCreate st f (tokens full) 0 0)) ↔
      ∀ d, Makes st cwd f path d → grants s (nodeStat d) accessWriteExec = true := by
  refine new_honoured_iff hfull ?_
  unfold xfsCreate
  rcases create_cases st f (tokens full) false 0 0 with
    ⟨hfail, hsame, hnone⟩ | ⟨p, d, leaf, i, hc, hmade⟩
  · refine .inl ⟨?_, hnone⟩
    simpa [ownedAfter, hfail] using hsame
  · refine .inr ⟨p, d, leaf, i, hc, ?_⟩
    rw [hmade]
    exact ownedAfter_only hfull hc.only hc.inode_ne hc.free hc.resolves

theorem makes_checked (hroot : userIsRoot s = false) (hshort : path.length < 128)
    (hcheck : fsctlRequireCreateAccess cwd s f path = true) (h : Makes st cwd f path d) :
    grants s (nodeStat d) accessWriteExec = true := by
  obtain ⟨ns, p, leaf, i, hns, hc⟩ := h
  obtain ⟨full, hfull, rfl⟩ := Option.map_eq_some_iff.mp hns
  exact create_checked hroot hshort hcheck hfull hc.absent hc.parent hc.node

theorem touch_honoured_iff (hroot : userIsRoot s = false) (hshort : args.length < 128) :
    Honoured s f (fsctlTouchHandler st cwd s f args) ↔ Tidy st cwd s f .touch args := by
  simp only [Tidy]
  unfold fsctlTouchHandler
  split
  next hstop => exact stopped_iff hstop
  next hgo =>
    rw [not_or, Bool.not_eq_false] at hgo
    unfold fsTouch
    rcases hfull : fullPath cwd args with _ | full
    · refine iff_of_true (honoured_unchanged .refl) fun _ _ =>
        ⟨forall_target_none (target_none hfull), fun hnull => ?_⟩
      simp [IsNull, hfull] at hnull
    · have htarget := target_eq (f := f) hfull
      rcases hi : resolve f (tokens full) with _ | i
      · have hmissing : (lookup f (tokens full)).isSome = false := by simp [lookup_none.mpr hi]
        simp only [hmissing, Bool.false_eq_true, if_false]
        rw [hi] at htarget
        rw [touch_new_iff hfull]
        constructor
        · intro hall _ _
          exact ⟨forall_target_none htarget, fun _ _ => hall⟩
        · intro htidy d hd
          rcases writeOrCreate_cases hroot hgo.2 with hcheck | hnull | ⟨-, i, n, hi', -⟩
          · exact makes_checked hroot hshort hcheck hd
          · exact (htidy hgo.1 hgo.2).2 hnull htarget d hd
          · simp [htarget] at hi'
      · obtain ⟨n, hn⟩ := resolve_some hi
        have hthere : (lookup f (tokens full)).isSome = true := by simp [lookup, hi, hn]
        simp only [hthere, if_true]
        rw [ownedAfter_existing_iff (htarget.trans hi) hn, forall_target (htarget.trans hi) hn]
        refine ⟨fun howns _ _ => ⟨howns, fun _ hnone => ?_⟩, fun h => (h hgo.1 hgo.2).1⟩
        simp [htarget, hi] at hnone

theorem write_honoured_iff (hroot : userIsRoot s = false) :
    Honoured s f (fsctlWriteHandler st cwd s f args) ↔ Tidy st cwd s f .write args := by
  simp only [Tidy]
  unfold fsctlWriteHandler
  have hshort := token_length_lt args
  generalize userNextToken 64 args = line at hshort
  obtain ⟨path, data⟩ := line
  simp only at hshort ⊢
  split
  next hstop => exact stopped_iff hstop
  next hgo =>
    rw [not_or, Bool.not_eq_false] at hgo
    unfold fsWriteFileRaw
    rcases hfull : fullPath cwd path with _ | full
    · exact iff_of_true (honoured_unchanged .refl) fun _ _ => forall_target_none (target_none hfull)
    · have htarget := target_eq (f := f) hfull
      simp only
      split
      next hnull =>
        have hisNull : IsNull cwd path := hfull.trans (congrArg some hnull)
        rcases hi : target cwd f path with _ | i
        · rw [ownedAfter_missing hi]
          exact iff_of_true (honoured_unchanged .refl) fun _ _ => by simp
        · obtain ⟨n, hn⟩ := resolve_some (htarget.symm.trans hi)
          rw [ownedAfter_existing_iff hi hn, ← hi, forall_target hi hn]
          exact ⟨fun h _ _ _ => h, fun h => h hgo.1 hgo.2 (.inl hisNull)⟩
      next hnull =>
        split
        next hpseudo =>
          refine iff_of_true (honoured_unchanged .refl) fun _ _ i n _ _ h => ?_
          rcases h with hisNull | ⟨⟨full', hfull', hreal⟩, -⟩
          · exact absurd (Option.some.inj (hfull.symm.trans hisNull)) hnull
          · obtain rfl : full = full' := Option.some.inj (hfull.symm.trans hfull')
            simp [hpseudo] at hreal
        next hreal =>
          rw [Bool.not_eq_true] at hreal
          rcases hi : resolve f (tokens full) with _ | i
          · refine iff_of_true (write_new_honoured hroot hshort
              (writeOrCreate_missing hgo.2 hfull hreal hi) hfull hi 0 0) fun _ _ => ?_
            exact forall_target_none (htarget.trans hi)
          · obtain ⟨n, hn⟩ := resolve_some hi
            have hgrant := writeOrCreate_existing hgo.2 hfull hreal hi hn
            rw [write_existing_iff hfull hi hn, forall_target (htarget.trans hi) hn]
            constructor
            · rintro h - - (hisNull | ⟨-, hstores⟩)
              · exact absurd (Option.some.inj (hfull.symm.trans hisNull)) hnull
              · exact (h hstores).owner
            · intro h hstores
              exact ⟨h hgo.1 hgo.2 (.inr ⟨⟨full, hfull, hreal⟩, hstores⟩), .inr hgrant⟩

theorem append_honoured_iff (hroot : userIsRoot s = false) :
    Honoured s f (fsctlAppendHandler st cwd s f args) ↔ Tidy st cwd s f .append args := by
  simp only [Tidy]
  unfold fsctlAppendHandler
  have hshort := token_length_lt args
  generalize userNextToken 64 args = line at hshort
  obtain ⟨path, text⟩ := line
  simp only at hshort ⊢
  split
  next hstop => exact stopped_iff hstop
  next hgo =>
    rw [not_or, Bool.not_eq_false] at hgo
    unfold fsAppendFile
    rcases hfull : fullPath cwd path with _ | full
    · exact iff_of_true (honoured_unchanged .refl) fun _ _ => forall_target_none (target_none hfull)
    · have htarget := target_eq (f := f) hfull
      simp only
      rcases hi : resolve f (tokens full) with _ | i
      · have hmissing : target cwd f path = none := htarget.trans hi
        rw [lookup_none.mpr hi]
        refine iff_of_true ?_ fun _ _ => forall_target_none hmissing
        unfold fsWriteFileRaw
        simp only [hfull]
        split
        · rw [ownedAfter_missing hmissing]
          exact honoured_unchanged .refl
        · split
          · exact honoured_unchanged .refl
          next hreal =>
            rw [Bool.not_eq_true] at hreal
            exact write_new_honoured hroot hshort (writeOrCreate_missing hgo.2 hfull hreal hi)
              hfull hi 0 0
      · obtain ⟨n, hn⟩ := resolve_some hi
        rw [lookup_eq_some.mpr ⟨i, hi, hn⟩, forall_target (htarget.trans hi) hn]
        simp only
        split
        next hlong =>
          refine iff_of_true (honoured_unchanged .refl) fun _ _ hroom hstores => ?_
          rcases hlong with hdir | hlong
          · simp [hstores.1] at hdir
          · omega
        next hroom =>
          rw [write_existing_iff hfull hi hn]
          exact ⟨fun h _ _ _ hstores => h hstores, fun h hstores => h hgo.1 hgo.2 (by omega) hstores⟩

theorem unlink_honoured_iff {accepts : Node → Bool}
    (haccepts : ∀ n leaf, accepts n = true → dirFind n leaf = none)
    (hcheck : fsctlCanAccessPath cwd s f path accessWrite = true)
    (hfull : fullPath cwd path = some full) :
    Honoured s f (xfsUnlink f (tokens full) accepts).2 ↔ UnlinksOwn cwd s f path accepts := by
  have htarget := target_eq (f := f) hfull
  have hnames : names cwd path = some (tokens full) := by simp [names, hfull]
  rcases unlink_cases f (tokens full) haccepts with
    ⟨hsame, hrefused⟩ | ⟨p, d, leaf, i, n, hne, hp, hd, hfind, hi, hn, hyes, hpi, hmade⟩
  · rw [hsame]
    refine iff_of_true (honoured_unchanged .refl) fun _ i n d hi hn hyes hroot => ?_
    have hne : tokens full ≠ [] := fun hnil => hroot (by rw [hnames, hnil])
    simp [hrefused i n hne (htarget.symm.trans hi) hn] at hyes
  · rw [hmade]
    have hparent : parentNode cwd f path = some d := by
      simp [parentNode, hnames, lookup, hp, hd]
    have hd' : Function.update (setNode f p (d.dropEntry leaf)) i none p = some (d.dropEntry leaf) := by
      rw [Function.update_of_ne hpi, setNode_self]
    have hrest : ∀ j m m', j ≠ p → f j = some m →
        Function.update (setNode f p (d.dropEntry leaf)) i none j = some m' → m' = m := by
      intro j m m' hj hm hm'
      by_cases hji : j = i
      · rw [hji, Function.update_self] at hm'
        simp at hm'
      · rw [Function.update_of_ne hji, setNode_ne _ _ hj, hm] at hm'
        exact (Option.some.inj hm').symm
    rw [honoured_changed_iff hd hd' hrest]
    constructor
    · rintro ⟨-, hentries, -⟩ - j m d' - - - - hd'
      obtain rfl : d = d' := Option.some.inj (hparent.symm.trans hd')
      exact hentries (dropEntry_ne hfind)
    · intro htidy
      refine ⟨fun hdiff => absurd rfl hdiff, fun _ => ?_, rfl, rfl, rfl⟩
      exact htidy hcheck i n d (htarget.trans hi) hn hyes (by simp [hnames, hne]) hparent

theorem removal_honoured_iff {accepts : Node → Bool}
    (haccepts : ∀ n leaf, accepts n = true → dirFind n leaf = none) :
    Honoured s f (if path = [] ∨ fsctlCanAccessPath cwd s f path accessWrite = false then f
      else (match fullPath cwd path with
        | none => (false, f)
        | some full => xfsUnlink f (tokens full) accepts).2) ↔ UnlinksOwn cwd s f path accepts := by
  split
  next hstop =>
    refine iff_of_true (honoured_unchanged .refl) fun hcheck => ?_
    rcases hstop with hempty | hno
    · exact absurd hempty (access_nonempty hcheck)
    · simp [hno] at hcheck
  next hgo =>
    rw [not_or, Bool.not_eq_false] at hgo
    rcases hfull : fullPath cwd path with _ | full
    · refine iff_of_true (honoured_unchanged .refl) fun _ i n d hi => ?_
      simp [target_none hfull] at hi
    · exact unlink_honoured_iff haccepts hgo.2 hfull

theorem rm_honoured_iff :
    Honoured s f (fsctlRmHandler cwd s f args) ↔ UnlinksOwn cwd s f args isRegular :=
  removal_honoured_iff fun _ leaf => dirFind_of_regular leaf

theorem rmdir_honoured_iff :
    Honoured s f (fsctlRmdirHandler cwd s f args) ↔ UnlinksOwn cwd s f args isEmptyDir :=
  removal_honoured_iff fun _ leaf => dirFind_of_emptyDir leaf

theorem rename_cases (st : Storage) (f : Nodes) (old new : List Str) :
    (xfsRename st f old new).2 = f ∧
        (∀ p q i e oldLeaf newLeaf, ¬ Moves st f old new p q i e oldLeaf newLeaf) ∨
      ∃ p q i e oldLeaf newLeaf, Moves st f old new p q i e oldLeaf newLeaf ∧
        (xfsRename st f old new).2 = dropName (setNode f q (e.addEntry newLeaf i)) p oldLeaf := by
  unfold xfsRename
  rcases hold : splitParent old with _ | ⟨oldParent, oldLeaf⟩
  · exact .inl ⟨rfl, fun p q i e _ _ h => splitParent_none hold h.old_eq⟩
  rcases hnew : splitParent new with _ | ⟨newParent, newLeaf⟩
  · exact .inl ⟨rfl, fun p q i e _ _ h => splitParent_none hnew h.new_eq⟩
  obtain ⟨rfl, holdNames⟩ := splitParent_some hold
  obtain ⟨rfl, hnewNames⟩ := splitParent_some hnew
  simp only
  rcases hp : resolve f old.dropLast with _ | p
  · exact .inl ⟨rfl, fun p q i e _ _ h => by simp [h.source] at hp⟩
  rcases hq : resolve f new.dropLast with _ | q
  · exact .inl ⟨rfl, fun p q i e _ _ h => by simp [h.target] at hq⟩
  rcases hi : resolve f old with _ | i
  · exact .inl ⟨rfl, fun p q i e _ _ h => by simp [h.moved] at hi⟩
  obtain ⟨e, he⟩ := resolve_some hq
  simp only [he]
  split
  next hbad =>
    refine .inl ⟨rfl, fun p' q' i' e' ol nl h => ?_⟩
    obtain rfl : q' = q := Option.some.inj (h.target.symm.trans hq)
    obtain rfl : e' = e := Option.some.inj (h.node.symm.trans he)
    rw [← leaf_unique hnewNames h.new_eq] at hbad
    simp [h.isDir, h.missing, h.room] at hbad
  next hgood =>
    rw [not_or, not_or, Bool.not_eq_false, Bool.not_eq_true, Option.isSome_eq_false_iff,
      Option.isNone_iff_eq_none, Bool.not_eq_false] at hgood
    exact .inr ⟨p, q, i, e, oldLeaf, newLeaf,
      ⟨holdNames, hnewNames, hp, hq, hi, he, hgood.1, hgood.2.1, hgood.2.2⟩, rfl⟩

variable {new old : List Str} {e : Node} {oldLeaf newLeaf : Str} {q : ℕ}

theorem Moves.absent
    (h : Moves st f old new p q i e oldLeaf newLeaf) : resolve f new = none := by
  rw [h.new_eq, resolve_concat h.target h.node, h.missing]
  rfl

theorem Moves.same_source {p' q' i' : ℕ} {e' : Node}
    {oldLeaf' newLeaf' : Str} (h : Moves st f old new p q i e oldLeaf newLeaf)
    (h' : Moves st f old new p' q' i' e' oldLeaf' newLeaf') : p' = p :=
  Option.some.inj (h'.source.symm.trans h.source)

theorem Moves.found
    (h : Moves st f old new p q i e oldLeaf newLeaf) (hd : f p = some d) :
    dirFind d oldLeaf = some i := by
  have hmoved := h.moved
  rw [h.old_eq] at hmoved
  obtain ⟨p', d', hp', hd', hfind⟩ := resolve_concat_some hmoved
  obtain rfl : p' = p := Option.some.inj (hp'.symm.trans h.source)
  obtain rfl : d' = d := Option.some.inj (hd'.symm.trans hd)
  exact hfind

theorem moved_node {j : ℕ} {m m' : Node} (hd : f p = some d)
    (he : f q = some e) (hm : f j = some m)
    (hm' : setNode (setNode f q (e.addEntry newLeaf i)) p (d.dropEntry oldLeaf) j = some m') :
    (m = d ∨ m = e) ∧ m'.data = m.data ∧ m'.uid = m.uid ∧ m'.gid = m.gid ∧ m'.mode = m.mode ∨
      m' = m := by
  by_cases hjp : j = p
  · subst hjp
    obtain rfl : d = m := Option.some.inj (hd.symm.trans hm)
    obtain rfl := Option.some.inj ((setNode_self ..).symm.trans hm')
    exact .inl ⟨.inl rfl, rfl, rfl, rfl, rfl⟩
  · rw [setNode_ne _ _ hjp] at hm'
    by_cases hjq : j = q
    · subst hjq
      obtain rfl : e = m := Option.some.inj (he.symm.trans hm)
      obtain rfl := Option.some.inj ((setNode_self ..).symm.trans hm')
      exact .inl ⟨.inr rfl, rfl, rfl, rfl, rfl⟩
    · rw [setNode_ne _ _ hjq, hm] at hm'
      exact .inr (Option.some.inj hm').symm

theorem moved_honoured_iff
    (h : Moves st f old new p q i e oldLeaf newLeaf) (hd : f p = some d)
    (hgrant : grants s (nodeStat e) accessWriteExec = true) :
    Honoured s f (dropName (setNode f q (e.addEntry newLeaf i)) p oldLeaf) ↔
      grants s (nodeStat d) accessWriteExec = true := by
  by_cases hpq : p = q
  · subst hpq
    obtain rfl : d = e := Option.some.inj (hd.symm.trans h.node)
    have hmade : dropName (setNode f p (d.addEntry newLeaf i)) p oldLeaf =
        setNode f p ((d.addEntry newLeaf i).dropEntry oldLeaf) := by
      simp [dropName, setNode]
    rw [hmade, honoured_only_iff hd (only_setNode f p _)]
    refine iff_of_true ⟨fun hdiff => absurd rfl hdiff, fun _ => hgrant, rfl, rfl, rfl⟩ hgrant
  · have hp : setNode f q (e.addEntry newLeaf i) p = some d := (setNode_ne _ _ hpq).trans hd
    have hmade : dropName (setNode f q (e.addEntry newLeaf i)) p oldLeaf =
        setNode (setNode f q (e.addEntry newLeaf i)) p (d.dropEntry oldLeaf) := by
      simp [dropName, hp]
    rw [hmade]
    constructor
    · intro hh
      exact hh.entries p d _ hd (setNode_self ..) (dropEntry_ne (h.found hd))
    · intro hsource
      constructor
      · intro j m m' hm hm' hdiff
        rcases moved_node hd h.node hm hm' with ⟨-, hdata, -⟩ | rfl
        · exact absurd hdata hdiff
        · exact absurd rfl hdiff
      · intro j m m' hm hm' hdiff
        rcases moved_node hd h.node hm hm' with ⟨rfl | rfl, -⟩ | rfl
        · exact hsource
        · exact hgrant
        · exact absurd rfl hdiff
      · intro j m m' hm hm'
        rcases moved_node hd h.node hm hm' with ⟨-, -, howner⟩ | rfl
        · exact howner
        · exact ⟨rfl, rfl, rfl⟩

theorem mv_honoured_iff (hroot : userIsRoot s = false) :
    Honoured s f (fsctlMvHandler st cwd s f args) ↔ Tidy st cwd s f .mv args := by
  simp only [Tidy]
  unfold fsctlMvHandler
  simp only
  generalize userNextToken 64 args = src
  have hshort := token_length_lt src.2
  generalize (userNextToken 64 src.2).1 = dst at hshort ⊢
  split
  next hstop => exact stopped_pair_iff hstop
  next hgo =>
    rw [not_or, not_or, not_or, Bool.not_eq_false, Bool.not_eq_false] at hgo
    obtain ⟨-, hne, hsrc, hcheck⟩ := hgo
    unfold fsMove
    rcases hold : fullPath cwd src.1 with _ | old
    · refine iff_of_true (honoured_unchanged .refl) fun _ _ _ old new p q i e _ _ d hn => ?_
      simp [names, hold] at hn
    rcases hnew : fullPath cwd dst with _ | new
    · refine iff_of_true (honoured_unchanged .refl) fun _ _ _ old new p q i e _ _ d _ hn => ?_
      simp [names, hnew] at hn
    have holdNames : names cwd src.1 = some (tokens old) := by simp [names, hold]
    have hnewNames : names cwd dst = some (tokens new) := by simp [names, hnew]
    simp only [holdNames, hnewNames]
    rcases rename_cases st f (tokens old) (tokens new) with
      ⟨hsame, hnone⟩ | ⟨p, q, i, e, oldLeaf, newLeaf, hmoves, hmade⟩
    · rw [hsame]
      refine iff_of_true (honoured_unchanged .refl) fun _ _ _ ns ns' p q i e ol nl d hns hns' hm => ?_
      obtain rfl := Option.some.inj hns
      obtain rfl := Option.some.inj hns'
      exact absurd hm (hnone p q i e ol nl)
    · obtain ⟨d, hd⟩ := resolve_some hmoves.source
      have hgrant := create_checked hroot hshort hcheck hnew hmoves.absent hmoves.target hmoves.node
      rw [hmade, moved_honoured_iff hmoves hd hgrant]
      constructor
      · intro hsource _ _ _ ns ns' p' q' i' e' ol nl d' hns hns' hm hd'
        obtain rfl := Option.some.inj hns
        obtain rfl := Option.some.inj hns'
        obtain rfl := hmoves.same_source hm
        obtain rfl : d = d' := Option.some.inj (hd.symm.trans hd')
        exact hsource
      · intro htidy
        exact htidy hsrc hne hcheck _ _ p q i e oldLeaf newLeaf d rfl rfl hmoves hd

theorem cp_honoured_iff (hroot : userIsRoot s = false) :
    Honoured s f (fsctlCpHandler st cwd s f args) ↔ Tidy st cwd s f .cp args := by
  simp only [Tidy]
  unfold fsctlCpHandler
  simp only
  generalize userNextToken 64 args = src
  have hshort := token_length_lt src.2
  generalize (userNextToken 64 src.2).1 = dst at hshort ⊢
  split
  next hstop => exact stopped_pair_iff hstop
  next hgo =>
    rw [not_or, not_or, not_or, Bool.not_eq_false, Bool.not_eq_false] at hgo
    obtain ⟨-, hne, hsrc, hcheck⟩ := hgo
    unfold fsCopyFile
    rcases hfull : fullPath cwd src.1 with _ | full
    · exact iff_of_true (honoured_unchanged .refl) fun _ _ _ i n _ _ hi => by
        simp [target_none hfull] at hi
    have htarget := target_eq (f := f) hfull
    rcases hcopy : fullPath cwd dst with _ | copy
    · exact iff_of_true (honoured_unchanged .refl) fun _ _ _ i n j m _ _ _ _ hj => by
        simp [target_none hcopy] at hj
    have hdst := target_eq (f := f) hcopy
    simp only
    rcases hi : resolve f (tokens full) with _ | i
    · rw [lookup_none.mpr hi]
      exact iff_of_true (honoured_unchanged .refl) fun _ _ _ i n _ _ hi' => by
        simp [htarget, hi] at hi'
    obtain ⟨n, hn⟩ := resolve_some hi
    rw [lookup_eq_some.mpr ⟨i, hi, hn⟩]
    have hsource : ∀ j m, target cwd f src.1 = some j → f j = some m → m = n := by
      intro j m hj hm
      obtain rfl : i = j := Option.some.inj ((htarget.trans hi).symm.trans hj)
      exact Option.some.inj (hm.symm.trans hn)
    simp only
    split
    next hlong =>
      refine iff_of_true (honoured_unchanged .refl) fun _ _ _ j m _ _ hj hm hfile hroom => ?_
      obtain rfl := hsource j m hj hm
      rcases hlong with hdir | hlong
      · simp [hfile] at hdir
      · omega
    next hroom =>
      rw [not_or, Bool.not_eq_true, not_lt] at hroom
      rcases hj : resolve f (tokens copy) with _ | j
      · refine iff_of_true (write_new_honoured hroot hshort hcheck hcopy hj n.uid n.gid)
          fun _ _ _ _ _ _ _ _ _ _ _ hj' => ?_
        simp [hdst, hj] at hj'
      · obtain ⟨m, hm⟩ := resolve_some hj
        rw [write_existing_iff hcopy hj hm]
        constructor
        · intro h _ _ _ i' n' j' m' hi' hn' _ _ hj' hm'
          obtain rfl := hsource i' n' hi' hn'
          obtain rfl : j = j' := Option.some.inj ((hdst.trans hj).symm.trans hj')
          obtain rfl : m = m' := Option.some.inj (hm.symm.trans hm')
          exact h
        · intro h hstores
          exact h hsrc hne hcheck i n j m (htarget.trans hi) hn hroom.1 hroom.2 (hdst.trans hj) hm
            hstores

theorem chmod_honoured (hroot : userIsRoot s = false) :
    Honoured s f (fsctlChmodHandler cwd s f args) := by
  unfold fsctlChmodHandler
  simp only [hroot, true_or, if_true]
  exact honoured_unchanged .refl

theorem chown_honoured (hroot : userIsRoot s = false) :
    Honoured s f (fsctlChownHandler cwd s f args) := by
  unfold fsctlChownHandler
  simp only [hroot, true_or, if_true]
  exact honoured_unchanged .refl

theorem k64cc_honoured_iff :
    Honoured s f (k64ccCommand st cwd s f args) ↔ Tidy st cwd s f .k64cc args := by
  simp only [Tidy]
  unfold k64ccCommand
  rcases htarget : k64ccTarget s args with _ | ⟨path, data⟩
  · exact iff_of_true (honoured_unchanged .refl) fun path data h => by simp at h
  have hsame : ∀ {P : Str → Str → Prop},
      (∀ path' data', some (path, data) = some (path', data') → P path' data') ↔ P path data := by
    intro P
    constructor
    · intro hall
      exact hall path data rfl
    · intro hp path' data' heq
      obtain ⟨rfl, rfl⟩ := Prod.mk.inj (Option.some.inj heq)
      exact hp
  rw [hsame]
  unfold fsWriteFileRaw
  simp only
  rcases hfull : fullPath cwd path with _ | full
  · exact iff_of_true (honoured_unchanged .refl) fun full h => by simp at h
  simp only [Option.some.injEq, forall_eq']
  split
  next hnull =>
    refine iff_of_true (honoured_unchanged .refl) fun hreal => ?_
    rw [hnull, null_pseudo] at hreal
    simp at hreal
  split
  next hpseudo =>
    refine iff_of_true (honoured_unchanged .refl) fun hreal => ?_
    simp [hpseudo] at hreal
  next hreal =>
    rw [Bool.not_eq_true] at hreal
    have hfound := target_eq (f := f) hfull
    rcases hi : resolve f (tokens full) with _ | i
    · have hnew : Honoured s f (xfsWriteFile st f (tokens full) data 0 0).2 ↔
          ∀ d, Makes st cwd f path d → grants s (nodeStat d) accessWriteExec = true := by
        refine new_honoured_iff hfull ?_
        rcases writeFile_new st hi data 0 0 with
          ⟨-, hsame, hnone⟩ | ⟨p, d, leaf, i, hc, honly, -⟩
        · exact .inl ⟨hsame, hnone⟩
        · exact .inr ⟨p, d, leaf, i, hc, honly⟩
      rw [hnew]
      exact ⟨fun h _ => ⟨forall_target_none (hfound.trans hi), fun _ => h⟩,
        fun h => (h hreal).2 (hfound.trans hi)⟩
    · obtain ⟨n, hn⟩ := resolve_some hi
      have hthere : target cwd f path = some i := hfound.trans hi
      rw [forall_target hthere hn, writeFile_existing hi]
      have hsome : target cwd f path ≠ none := by simp [hthere]
      rcases writeNode_cases st hn data 0 0 with ⟨hstores, hwrite⟩ | ⟨hno, hwrite⟩
      · rw [hwrite, honoured_overwrite_iff hn (only_setNode f i _)]
        exact ⟨fun h _ => ⟨fun _ => h, fun hnone => absurd hnone hsome⟩,
          fun h => (h hreal).1 hstores⟩
      · rw [hwrite]
        exact iff_of_true (honoured_unchanged .refl) fun _ =>
          ⟨fun hstores => absurd hstores hno, fun hnone => absurd hnone hsome⟩

/-- A session that is not root changes what the modes give it, exactly when the command is tidy. -/
theorem run_honoured_iff_tidy (st : Storage) (cwd : Str) (s : UserState) (f : Nodes) (c : Command)
    (args : Str) (hroot : userIsRoot s = false) (hshort : args.length < 128) :
    Honoured s f (run st cwd s f c args) ↔ Tidy st cwd s f c args := by
  cases c with
  | mkdir => exact iff_of_true (mkdir_honoured hroot hshort) trivial
  | mkdirp => exact mkdirp_honoured_iff hroot hshort
  | touch => exact touch_honoured_iff hroot hshort
  | write => exact write_honoured_iff hroot
  | append => exact append_honoured_iff hroot
  | rm => exact rm_honoured_iff
  | rmdir => exact rmdir_honoured_iff
  | mv => exact mv_honoured_iff hroot
  | cp => exact cp_honoured_iff hroot
  | chmod => exact iff_of_true (chmod_honoured hroot) trivial
  | chown => exact iff_of_true (chown_honoured hroot) trivial
  | k64cc => exact k64cc_honoured_iff

def roomy : Storage where
  allocInode f := if (f 9).isNone then some 9 else none
  fresh f i h := by
    split at h
    next hfree =>
      obtain rfl := Option.some.inj h
      simpa using hfree
    · simp at h
  allocExtent _ _ _ := true
  dirRoom _ _ := true

/-- The directory "/" and the file "/a" of root, both open to everybody. -/
def sharedTree : Nodes
  | 1 => some ⟨true, [], [([97], 2)], 1, 0o040777, 0, 0⟩
  | 2 => some ⟨false, [], [], 1, 0o100666, 0, 0⟩
  | _ => none

theorem guest_mkdir_honoured : Honoured Accounts.guestSession sharedTree
    (run roomy [slash] Accounts.guestSession sharedTree .mkdir [slash, 98]) :=
  (run_honoured_iff_tidy roomy [slash] Accounts.guestSession sharedTree .mkdir [slash, 98] (by decide)
    (by decide)).mpr trivial

/-- `touch /a` gives the file to the guest. -/
theorem touched_file_given_away : ¬ ∀ (st : Storage) (cwd : Str) (s : UserState) (f : Nodes)
    (c : Command) (args : Str), userIsRoot s = false → args.length < 128 →
      Honoured s f (run st cwd s f c args) := by
  intro h
  have hh := h roomy [slash] Accounts.guestSession sharedTree .touch [slash, 97] (by decide) (by decide)
  have howner : ((run roomy [slash] Accounts.guestSession sharedTree .touch [slash, 97]) 2).map
      Node.uid = some 1001 := by decide
  obtain ⟨n, hn, huid⟩ := Option.map_eq_some_iff.mp howner
  have hkeep := (hh.owner 2 _ n (by rfl) hn).1
  rw [huid] at hkeep
  exact absurd hkeep (by decide)

end FileCommands
