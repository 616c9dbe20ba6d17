-- SUMMARY: What the rebuilt structure is, in all of its entries, and that flashing it does what flashing the build does.
import HomeNode.Flash.Flashing

/-!
# From a build to the flashed device

The structure that `recreate_build_structure_from_flat` makes is determined by the
files of the flat directory: neither the order in which they are listed nor what an
earlier run has left in `build` plays a part. `flash_with_idf` cannot tell the
structure that was rebuilt from an archived build from the build itself.
-/

namespace HomeNode.Flash

open FileTree Transition

variable {α : Type} {t u v b flat : FileTree α} {n : Name} {c : α} {o : Listing}

/-! ## The rebuilt structure -/

/-- `u` is `t` with these of its files placed in the structure. -/
structure Rebuilt (t : FileTree α) (files : Name → Prop) (u : FileTree α) : Prop where
  kept : ∀ p, ¬ buildPath <:+ p → u.find p = t.find p
  file : ∀ p c, buildPath <:+ p →
    (u.find p = some (.file c) ↔ ∃ n, files n ∧ p = destination n ∧ t.find [n] = some (.file c))
  dir : ∀ p, buildPath <:+ p →
    (u.find p = some .dir ↔ p = buildPath ∨ ∃ n, files n ∧ p = destDir n)

/-- A flat directory, in which an earlier run may have left a structure. -/
structure FlatBeside (t : FileTree α) : Prop where
  flat : ∀ n p e, t.find (n :: p) = some e → ¬ buildPath <:+ n :: p →
    p = [] ∧ n ∉ [buildName, bootloader, partitionTable] ∧ ∃ c, e = .file c
  build : ∀ c, t.find buildPath ≠ some (.file c)

theorem Flat.flatBeside (h : Flat t) : FlatBeside t := by
  constructor
  · exact fun n p e hp _ => h n p e hp
  · intro c hc
    exact (h buildName [] _ hc).2.1 (by simp)

theorem buildPath_suffix_destDir (n : Name) : buildPath <:+ destDir n := by
  unfold destDir
  split_ifs
  · exact List.suffix_cons _ _
  · exact List.suffix_cons _ _
  · exact List.suffix_rfl

theorem buildPath_suffix_destination (n : Name) : buildPath <:+ destination n :=
  (buildPath_suffix_destDir n).trans (List.suffix_cons _ _)

theorem buildPath_suffix_singleton : buildPath <:+ [n] ↔ n = buildName := by
  simp [buildPath, List.suffix_cons_iff, eq_comm]

theorem destDir_ne_destination (m n : Name) (hn : n ∉ [buildName, bootloader, partitionTable]) :
    destDir m ≠ destination n := by
  simp only [List.mem_cons, List.not_mem_nil, or_false, not_or] at hn
  unfold destDir
  split_ifs <;> intro h
  · exact hn.2.1 (List.cons.inj h).1.symm
  · exact hn.2.2 (List.cons.inj h).1.symm
  · exact hn.1 (List.cons.inj h).1.symm

/-- The tree is determined by what it was made of. -/
theorem Rebuilt.unique {files : Name → Prop} (hu : Rebuilt t files u) (hv : Rebuilt t files v)
    (p : TreePath) : u.find p = v.find p := by
  by_cases hp : buildPath <:+ p
  · apply Option.ext
    intro e
    cases e with
    | dir => rw [hu.dir p hp, hv.dir p hp]
    | file c => rw [hu.file p c hp, hv.file p c hp]
  · rw [hu.kept p hp, hv.kept p hp]

theorem destPath_eq_some {dst : TreePath} (hroot : t.find buildPath = some .dir)
    (h : destPath t n = some (u, dst)) :
    dst = destination n ∧ ∀ q, u.find q = if q = destDir n then some .dir else t.find q := by
  unfold destPath at h
  unfold destination destDir
  split_ifs at h ⊢
  · obtain ⟨w, hw, heq⟩ := Option.map_eq_some_iff.mp h
    obtain ⟨rfl, rfl⟩ := Prod.mk.inj heq
    exact ⟨rfl, FileTree.find_mkdir hw⟩
  · obtain ⟨w, hw, heq⟩ := Option.map_eq_some_iff.mp h
    obtain ⟨rfl, rfl⟩ := Prod.mk.inj heq
    exact ⟨rfl, FileTree.find_mkdir hw⟩
  · obtain ⟨rfl, rfl⟩ := Prod.mk.inj (Option.some.inj h)
    refine ⟨rfl, fun q => ?_⟩
    split
    · next hq => rw [hq, hroot]
    · rfl

/-- A turn of the loop reads a file of the flat directory. -/
theorem source_of_placeFile {r r' : Rebuild α} (hroot : r.tree.find buildPath = some .dir)
    (h : placeFile r n = some r') : ∃ c, r.tree.find [n] = some (.file c) := by
  simp only [placeFile, Option.bind_eq_bind, Option.bind_eq_some_iff] at h
  obtain ⟨⟨u, dst⟩, hdest, w, hcopy, -⟩ := h
  obtain ⟨-, hu⟩ := destPath_eq_some hroot hdest
  obtain ⟨c, hc, -⟩ := Option.bind_eq_some_iff.mp hcopy
  have hfile := FileTree.content_eq_some_iff.mp hc
  rw [hu] at hfile
  split at hfile
  · cases hfile
  · exact ⟨c, hfile⟩

/-- What it does to the tree. -/
theorem placeFile_eq_some {r r' : Rebuild α} (hroot : r.tree.find buildPath = some .dir)
    (hfile : r.tree.find [n] = some (.file c)) (hdst : r.tree.find (destination n) ≠ some .dir)
    (hne : ∀ m, destDir m ≠ destination n) (h : placeFile r n = some r') (q : TreePath) :
    r'.tree.find q = if q = destination n then some (.file c)
      else if q = destDir n then some .dir else r.tree.find q := by
  simp only [placeFile, Option.bind_eq_bind, Option.bind_eq_some_iff] at h
  obtain ⟨⟨u, dst⟩, hdest, w, hcopy, hr'⟩ := h
  obtain rfl := Option.some.inj hr'
  obtain ⟨rfl, hu⟩ := destPath_eq_some hroot hdest
  obtain ⟨c', hc', hwrite⟩ := Option.bind_eq_some_iff.mp hcopy
  have hdir : u.find (destination n) ≠ some .dir := by
    rwa [hu, if_neg (hne n).symm]
  rw [if_neg (mt FileTree.isDir_iff.mp hdir)] at hwrite
  obtain ⟨hparent, hnew, rfl⟩ := FileTree.write_eq_some hwrite
  have hput : ∀ q, FileTree.find _ q = if q = destination n then some (.file c') else u.find q :=
    FileTree.find_put hparent hnew
  have hsource := FileTree.content_eq_some_iff.mp hc'
  rw [hu] at hsource
  split at hsource
  · cases hsource
  · rw [hfile] at hsource
    obtain rfl := Entry.file.inj (Option.some.inj hsource)
    exact (hput q).trans (by rw [hu])

/-- The step of the loop. -/
theorem Rebuilt.placeFile {done : List Name} {r r' : Rebuild α}
    (hflat : ∀ n c, t.find [n] = some (.file c) → n ∉ [buildName, bootloader, partitionTable])
    (h : Rebuilt t (· ∈ done) r.tree) (hplace : placeFile r n = some r') :
    Rebuilt t (· ∈ done ++ [n]) r'.tree := by
  have hroot : r.tree.find buildPath = some .dir :=
    (h.dir buildPath List.suffix_rfl).mpr (.inl rfl)
  obtain ⟨c, hc⟩ := source_of_placeFile hroot hplace
  have hn : ¬ buildPath <:+ [n] := by
    rw [buildPath_suffix_singleton]
    rintro rfl
    rw [show [buildName] = buildPath from rfl, hroot] at hc
    cases hc
  have hsource : t.find [n] = some (.file c) := (h.kept [n] hn).symm.trans hc
  have hne : ∀ m, destDir m ≠ destination n := fun m =>
    destDir_ne_destination m n (hflat n c hsource)
  have hdst : r.tree.find (destination n) ≠ some .dir := by
    rw [ne_eq, h.dir _ (buildPath_suffix_destination n)]
    rintro (heq | ⟨m, -, heq⟩)
    · exact singleton_ne_destination n buildName heq.symm
    · exact hne m heq.symm
  have hfind := placeFile_eq_some hroot hc hdst hne hplace
  constructor
  · intro p hp
    have hdest : p ≠ destination n := fun heq => hp (heq ▸ buildPath_suffix_destination n)
    have hdir : p ≠ destDir n := fun heq => hp (heq ▸ buildPath_suffix_destDir n)
    rw [hfind, if_neg hdest, if_neg hdir, h.kept p hp]
  · intro p c' hp
    rw [hfind]
    split_ifs with hdest hdir
    · constructor
      · intro heq
        exact ⟨n, by simp, hdest, heq ▸ hsource⟩
      · rintro ⟨m, -, hm, hc'⟩
        obtain rfl := destination_injective (hdest.symm.trans hm)
        exact hsource.symm.trans hc'
    · constructor
      · intro heq
        cases heq
      · rintro ⟨m, -, hm, hc'⟩
        exact absurd (hdir.symm.trans hm) (destDir_ne_destination n m (hflat m c' hc'))
    · rw [h.file p c' hp]
      constructor
      · rintro ⟨m, hm, hrest⟩
        exact ⟨m, List.mem_append_left _ hm, hrest⟩
      · rintro ⟨m, hm, hpm, hc'⟩
        rcases List.mem_append.mp hm with hm | hm
        · exact ⟨m, hm, hpm, hc'⟩
        · exact absurd (List.mem_singleton.mp hm ▸ hpm) hdest
  · intro p hp
    rw [hfind]
    split_ifs with hdest hdir
    · constructor
      · intro heq
        cases heq
      · rintro (heq | ⟨m, -, hm⟩)
        · exact absurd (heq.symm.trans hdest) (singleton_ne_destination n buildName)
        · exact absurd (hm.symm.trans hdest) (hne m)
    · exact iff_of_true rfl (.inr ⟨n, by simp, hdir⟩)
    · rw [h.dir p hp]
      apply or_congr_right
      constructor
      · rintro ⟨m, hm, hpm⟩
        exact ⟨m, List.mem_append_left _ hm, hpm⟩
      · rintro ⟨m, hm, hpm⟩
        rcases List.mem_append.mp hm with hm | hm
        · exact ⟨m, hm, hpm⟩
        · exact absurd (List.mem_singleton.mp hm ▸ hpm) hdir

/-! ## What the script makes -/

/-- What is in a flat directory, without the structure of an earlier run. -/
theorem FlatBeside.flat_of_fresh (h : FlatBeside t) (hfresh : t.find buildPath = none) :
    Flat t := by
  intro n p e hfind
  apply h.flat n p e hfind
  intro hsuffix
  by_cases heq : buildPath = n :: p
  · rw [← heq, hfresh] at hfind
    cases hfind
  · rw [FileTree.find_of_suffix hfind hsuffix heq] at hfresh
    cases hfresh

theorem Rebuilt.of_mkdir (hfresh : t.find buildPath = none)
    (h : t.mkdir buildPath = some u) : Rebuilt t (· ∈ []) u := by
  have hfind : ∀ q, u.find q = if q = buildPath then some .dir else t.find q :=
    FileTree.find_mkdir h
  -- nothing lies under build
  have hunder : ∀ p, buildPath <:+ p → p ≠ buildPath → u.find p = none := by
    intro p hp hne
    rw [hfind, if_neg hne]
    cases hp' : t.find p with
    | none => rfl
    | some e =>
      rw [FileTree.find_of_suffix hp' hp hne.symm] at hfresh
      cases hfresh
  constructor
  · intro p hp
    rw [hfind, if_neg]
    rintro rfl
    exact hp List.suffix_rfl
  · intro p c hp
    by_cases hroot : p = buildPath
    · rw [hfind, if_pos hroot]
      simp
    · rw [hunder p hp hroot]
      simp
  · intro p hp
    by_cases hroot : p = buildPath
    · rw [hfind, if_pos hroot]
      simp [hroot]
    · rw [hunder p hp hroot]
      simp [hroot]

theorem recreate_of_fresh (o : Listing) (hfresh : t.find buildPath = none) :
    recreateBuildStructureFromFlat o t = (t.mkdir buildPath).bind fun u =>
      (run placeFile { tree := u } ((o.order (u.names [])).filter fun n => u.isFile [n])).map
        fun r => (buildPath, r) := by
  rw [recreateBuildStructureFromFlat, hfresh]
  simp only [Option.isSome_none, Bool.false_eq_true, if_false, Option.bind_eq_bind,
    Option.bind_some, Option.pure_def, Option.map_eq_bind, Function.comp_def]

theorem recreate_rebuilt_of_fresh (o : Listing) (h : Flat t) (hfresh : t.find buildPath = none) :
    ∃ r, recreateBuildStructureFromFlat o t = some (buildPath, r) ∧
      Rebuilt t (fun n => t.isFile [n] = true) r.tree := by
  obtain ⟨-, r, hrec, -⟩ := recreate_of_flat o h
  refine ⟨r, hrec, ?_⟩
  -- the loop that it came from
  rw [recreate_of_fresh o hfresh] at hrec
  obtain ⟨u, hmkdir, hmap⟩ := Option.bind_eq_some_iff.mp hrec
  obtain ⟨r', hrun, hret⟩ := Option.map_eq_some_iff.mp hmap
  obtain ⟨-, rfl⟩ := Prod.mk.inj hret
  have hflat : ∀ n c, t.find [n] = some (.file c) →
      n ∉ [buildName, bootloader, partitionTable] := fun n c hc => (h n [] _ hc).2.1
  have hloop : Rebuilt t (· ∈ (o.order (u.names [])).filter fun n => u.isFile [n]) r'.tree := by
    apply run_induction (P := fun done r => Rebuilt t (· ∈ done) r.tree) _ _ _ _ hrun
    · exact .of_mkdir hfresh hmkdir
    · intro done r n r' _ ih hplace
      exact ih.placeFile hflat hplace
  have hmem : ∀ n, n ∈ (o.order (u.names [])).filter (fun n => u.isFile [n]) ↔
      t.isFile [n] = true := by
    intro n
    rw [List.mem_filter, o.mem_order, FileTree.mem_names, FileTree.isFile_iff, FileTree.isFile_iff,
      FileTree.find_mkdir hmkdir]
    split
    · next hn =>
      rw [hn, show [buildName] = buildPath from rfl, hfresh]
      simp
    · constructor
      · exact fun hn => hn.2
      · rintro ⟨c, hc⟩
        exact ⟨by rw [hc]; rfl, c, hc⟩
  simpa only [hmem] using hloop

/-- Only what lies beside the structure counts. -/
theorem Rebuilt.of_beside (hkept : ∀ p, ¬ buildPath <:+ p → u.find p = t.find p)
    (hu : ∀ c, u.find buildPath ≠ some (.file c)) (ht : ∀ c, t.find buildPath ≠ some (.file c))
    (h : Rebuilt u (fun n => u.isFile [n] = true) v) :
    Rebuilt t (fun n => t.isFile [n] = true) v := by
  have hfile : ∀ n c, u.find [n] = some (.file c) ↔ t.find [n] = some (.file c) := by
    intro n c
    by_cases hn : buildPath <:+ [n]
    · obtain rfl := buildPath_suffix_singleton.mp hn
      exact iff_of_false (hu c) (ht c)
    · rw [hkept [n] hn]
  have hfiles : ∀ n, u.isFile [n] = true ↔ t.isFile [n] = true := by
    simp only [FileTree.isFile_iff, hfile, implies_true]
  constructor
  · intro p hp
    rw [h.kept p hp, hkept p hp]
  · intro p c hp
    simp only [h.file p c hp, hfiles, hfile]
  · intro p hp
    simp only [h.dir p hp, hfiles]

theorem recreate_rebuilt (o : Listing) (h : FlatBeside t) :
    ∃ r, recreateBuildStructureFromFlat o t = some (buildPath, r) ∧
      Rebuilt t (fun n => t.isFile [n] = true) r.tree := by
  cases hbuild : t.find buildPath with
  | none => exact recreate_rebuilt_of_fresh o (h.flat_of_fresh hbuild) hbuild
  | some e =>
    cases e with
    | file c => exact absurd hbuild (h.build c)
    | dir =>
      obtain ⟨u, hrec, hfind⟩ := recreate_of_dir o hbuild
      have hkept : ∀ p, ¬ buildPath <:+ p → u.find p = t.find p := by
        intro p hp
        cases p with
        | nil => rfl
        | cons n p => rw [hfind, if_neg hp]
      have hfresh : u.find buildPath = none := (hfind buildName []).trans (if_pos List.suffix_rfl)
      have hflat : Flat u := by
        intro n p e hp
        rw [hfind] at hp
        split at hp
        · cases hp
        · next hout => exact h.flat n p e hp hout
      obtain ⟨r, hr, hrebuilt⟩ := recreate_rebuilt_of_fresh o hflat hfresh
      exact ⟨r, hrec.trans hr, hrebuilt.of_beside hkept (by simp [hfresh]) (by simp [hbuild])⟩

/-- A rebuilt directory can be rebuilt. -/
theorem Rebuilt.flatBeside (ht : FlatBeside t) (h : Rebuilt t (fun n => t.isFile [n] = true) u) :
    FlatBeside u := by
  have hroot : u.find buildPath = some .dir := (h.dir buildPath List.suffix_rfl).mpr (.inl rfl)
  constructor
  · intro n p e hp hout
    rw [h.kept _ hout] at hp
    exact ht.flat n p e hp hout
  · simp [hroot]

/-- The script makes of a flat directory exactly the structure that belongs to its files,
whatever the order in which they are listed and whatever structure was there before. Run
again, it changes nothing. -/
theorem recreate_exact (o : Listing) (h : FlatBeside t) :
    ∃ r, recreateBuildStructureFromFlat o t = some (buildPath, r) ∧
      Rebuilt t (fun n => t.isFile [n] = true) r.tree ∧
      ∀ o', ∃ r', recreateBuildStructureFromFlat o' r.tree = some (buildPath, r') ∧
        ∀ p, r'.tree.find p = r.tree.find p := by
  obtain ⟨r, hr, hrebuilt⟩ := recreate_rebuilt o h
  refine ⟨r, hr, hrebuilt, fun o' => ?_⟩
  have hroot : r.tree.find buildPath = some .dir :=
    (hrebuilt.dir buildPath List.suffix_rfl).mpr (.inl rfl)
  obtain ⟨r', hr', hagain⟩ := recreate_rebuilt o' (hrebuilt.flatBeside h)
  refine ⟨r', hr', fun p => ?_⟩
  exact (hagain.of_beside hrebuilt.kept (by simp [hroot]) h.build).unique hrebuilt p

/-- A flat directory with one binary, beside a structure with another one. -/
def staleFlat : Option (FileTree Nat) := do
  let t ← FileTree.empty.write ["home-node.bin".toList] 3
  let t ← t.mkdir buildPath
  t.write ("old.bin".toList :: buildPath) 9

theorem recreate_exact_stale :
    ∃ t r, staleFlat = some t ∧
      recreateBuildStructureFromFlat ⟨id, List.Perm.refl⟩ t = some (buildPath, r) ∧
      Rebuilt t (fun n => t.isFile [n] = true) r.tree := by
  have hsome : staleFlat.isSome = true := by decide +kernel
  obtain ⟨t, ht⟩ := Option.isSome_iff_exists.mp hsome
  have hsteps := ht
  simp only [staleFlat, Option.bind_eq_bind, Option.bind_eq_some_iff] at hsteps
  obtain ⟨u, hu, v, hv, hw⟩ := hsteps
  obtain ⟨_, _, hu'⟩ := FileTree.write_eq_some hu
  obtain ⟨_, _, hw'⟩ := FileTree.write_eq_some hw
  have hfind : ∀ q, t.find q =
      if q = "old.bin".toList :: buildPath then some (.file 9)
      else if q = buildPath then some .dir
      else if q = ["home-node.bin".toList] then some (.file 3) else FileTree.empty.find q := by
    intro q
    rw [hw', FileTree.find_put, FileTree.find_mkdir hv, hu', FileTree.find_put]
    rfl
  have hflat : FlatBeside t := by
    constructor
    · intro n p e hp hout
      have hold : n :: p ≠ "old.bin".toList :: buildPath := fun heq =>
        hout (heq ▸ List.suffix_cons _ _)
      have hbuild : n :: p ≠ buildPath := fun heq => hout (heq ▸ List.suffix_rfl)
      rw [hfind, if_neg hold, if_neg hbuild] at hp
      split at hp
      · next heq =>
        obtain ⟨rfl, rfl⟩ := List.cons.inj heq
        exact ⟨rfl, by decide, 3, (Option.some.inj hp).symm⟩
      · cases hp
    · intro c
      rw [hfind, if_neg (by decide), if_pos rfl]
      simp
  obtain ⟨r, hr, hrebuilt, -⟩ := recreate_exact ⟨id, List.Perm.refl⟩ hflat
  exact ⟨t, r, ht, hr, hrebuilt⟩

/-! ## Flashing what was rebuilt -/

theorem find_cpOrSkip_self (hflat : Flat flat) :
    (cpOrSkip b [n] flat).find [n] = ((b.content [n]).map Entry.file).or (flat.find [n]) := by
  have hcp : cp b [n] flat = (b.content [n]).bind fun c => flat.write [n] c := rfl
  rw [cpOrSkip, hcp]
  cases hc : b.content [n] with
  | none => rfl
  | some c =>
    have hnew : flat.find [n] ≠ some .dir := by
      intro hdir
      obtain ⟨-, -, c, hc⟩ := hflat n [] _ hdir
      cases hc
    rw [Option.bind_some, FileTree.write_cons FileTree.find_nil hnew, Option.getD_some,
      FileTree.find_put, if_pos rfl, Option.map_some, Option.some_or]

/-- What the copies leave of the binaries and of `flasher_args.json`. -/
theorem find_archived {flashInfo : α} (h : archiveFirmware o b flashInfo = some flat) :
    (∀ n, binExt <:+ n → n ∉ [bootloaderBin, partitionTableBin] →
      flat.find [n] = if n.head? = some '.' then none else b.find [n]) ∧
    flat.find [flasherArgsJson] = (b.content [flasherArgsJson]).map .file := by
  simp only [archiveFirmware, Option.bind_eq_bind, Option.bind_eq_some_iff] at h
  obtain ⟨f₁, hbins, f₂, helfs, f₃, hpart, f₄, hboot, hinfo⟩ := h
  obtain ⟨cp, -, hf₃⟩ := cp_eq_some hpart
  obtain ⟨cb, -, hf₄⟩ := cp_eq_some hboot
  obtain ⟨hdir, hnew, rfl⟩ := FileTree.write_eq_some hinfo
  have hflat : Flat f₄ := by
    have hf₂ := (Flat.empty.cpGlob (by decide) hbins).cpGlob (by decide) helfs
    exact (hf₂.put (by decide) hf₃).put (by decide) hf₄
  constructor
  · intro n hbin hspecial
    simp only [List.mem_cons, List.not_mem_nil, or_false, not_or] at hspecial
    have hconfig : ∀ m ∈ [flashArgs, flasherArgsJson, projectDescription, flashInfoTxt],
        ¬ binExt <:+ m := by decide
    have hne : ∀ m ∈ [flashArgs, flasherArgsJson, projectDescription, flashInfoTxt], n ≠ m :=
      fun m hm heq => hconfig m hm (heq ▸ hbin)
    have helf : n ∉ shellGlob o b elfExt := fun hmem => not_elf_of_bin hbin (shellGlob_ext hmem)
    have hlast : (FileTree.put _ flashInfoTxt [] (.file flashInfo) hdir hnew).find [n] =
        f₁.find [n] := by
      rw [FileTree.find_put, if_neg (by simpa using hne flashInfoTxt (by simp)),
        find_cpOrSkip (hne projectDescription (by simp)),
        find_cpOrSkip (hne flasherArgsJson (by simp)), find_cpOrSkip (hne flashArgs (by simp)),
        hf₄, if_neg (by simpa using hspecial.1), hf₃, if_neg (by simpa using hspecial.2),
        find_cpGlob helfs, if_neg helf]
    rw [hlast, find_cpGlob hbins]
    have hmem : n ∈ shellGlob o b binExt ↔ (b.find [n]).isSome = true ∧ n.head? ≠ some '.' := by
      rw [shellGlob, List.mem_filter, o.mem_order, FileTree.mem_names]
      simp [hbin]
    split_ifs with hglob hdot hdot
    · exact absurd hdot (hmem.mp hglob).2
    · rfl
    · rfl
    · have hnone : b.find [n] = none := by simpa [hmem, hdot] using hglob
      rw [hnone]
      rfl
  · have hglob : ∀ ext ∈ [binExt, elfExt], flasherArgsJson ∉ shellGlob o b ext := by
      have hext : ∀ ext ∈ [binExt, elfExt], ¬ ext <:+ flasherArgsJson := by decide
      exact fun ext hmem hglob => hext ext hmem (shellGlob_ext hglob)
    have hbefore : (cpOrSkip b [flashArgs] f₄).find [flasherArgsJson] = none := by
      rw [find_cpOrSkip (by decide), hf₄, if_neg (by decide), hf₃, if_neg (by decide),
        find_cpGlob helfs, if_neg (hglob elfExt (by simp)), find_cpGlob hbins,
        if_neg (hglob binExt (by simp))]
      rfl
    rw [FileTree.find_put, if_neg (by decide), find_cpOrSkip (by decide),
      find_cpOrSkip_self (hflat.cpOrSkip (by decide)), hbefore, Option.or_none]

/-- What comes into the root of the structure. -/
theorem Rebuilt.find_root (h : Rebuilt t (fun n => t.isFile [n] = true) u)
    (hn : n ∉ [bootloader, partitionTable, bootloaderBin, partitionTableBin]) :
    u.find (n :: buildPath) = (t.content [n]).map .file := by
  simp only [List.mem_cons, List.not_mem_nil, or_false, not_or] at hn
  obtain ⟨hboot, hpart, hbootBin, hpartBin⟩ := hn
  have hsuffix : buildPath <:+ n :: buildPath := List.suffix_cons _ _
  have hdest : destination n = n :: buildPath := by
    rw [destination, destDir, if_neg hbootBin, if_neg hpartBin]
  have hdir : u.find (n :: buildPath) ≠ some .dir := by
    rw [ne_eq, h.dir _ hsuffix]
    rintro (heq | ⟨m, -, heq⟩)
    · simp at heq
    · unfold destDir at heq
      split_ifs at heq
      · exact hboot (List.cons.inj heq).1
      · exact hpart (List.cons.inj heq).1
      · simp at heq
  apply Option.ext
  intro e
  cases e with
  | dir => simpa using hdir
  | file c =>
    rw [h.file _ c hsuffix, Option.map_eq_some_iff]
    constructor
    · rintro ⟨m, -, heq, hc⟩
      obtain rfl := destination_injective (hdest.trans heq)
      exact ⟨c, FileTree.content_eq_some_iff.mpr hc, rfl⟩
    · rintro ⟨c', hc, heq⟩
      obtain rfl := Entry.file.inj heq
      have hfile := FileTree.content_eq_some_iff.mp hc
      exact ⟨n, FileTree.isFile_iff.mpr ⟨c', hfile⟩, hdest.symm, hfile⟩

theorem Rebuilt.find_destination (h : Rebuilt t (fun n => t.isFile [n] = true) u)
    (hfile : t.find [n] = some (.file c)) : u.find (destination n) = some (.file c) :=
  (h.file _ c (buildPath_suffix_destination n)).mpr
    ⟨n, FileTree.isFile_iff.mpr ⟨c, hfile⟩, rfl, hfile⟩

theorem Flat.find_eq_content (h : Flat t) : t.find [n] = (t.content [n]).map .file := by
  cases hfind : t.find [n] with
  | none =>
    have hcontent : t.content [n] = none := by
      rw [Option.eq_none_iff_forall_ne_some]
      intro c hc
      rw [FileTree.content_eq_some_iff, hfind] at hc
      cases hc
    rw [hcontent, Option.map_none]
  | some e =>
    obtain ⟨-, -, c, rfl⟩ := h n [] e hfind
    rw [FileTree.content_eq_some_iff.mpr hfind, Option.map_some]

theorem mem_mainBins {build : TreePath} : n ∈ mainBins t build ↔
    (t.find (n :: build)).isSome = true ∧ binExt <:+ n ∧ ¬ bootloader <+: n ∧
      ¬ "partition".toList <+: n := by
  rw [mainBins, List.mem_filter, FileTree.mem_names]
  simp [← List.isPrefixOf_iff_prefix]

/-- A binary that `flash_with_idf` takes for the application has a place in the root. -/
theorem root_of_mainBin (hboot : ¬ bootloader <+: n) (hpart : ¬ "partition".toList <+: n) :
    n ∉ [bootloader, partitionTable, bootloaderBin, partitionTableBin] := by
  have hprefix : ∀ m ∈ [bootloader, partitionTable, bootloaderBin, partitionTableBin],
      bootloader <+: m ∨ "partition".toList <+: m := by decide
  intro hn
  rcases hprefix n hn with h | h
  · exact hboot h
  · exact hpart h

section

variable {flashInfo : α} (harchive : archiveFirmware o b flashInfo = some flat)
  (hrebuilt : Rebuilt flat (fun n => flat.isFile [n] = true) u)

include harchive hrebuilt

theorem mem_mainBins_rebuilt (hhidden : ∀ n ∈ mainBins b [], n.head? ≠ some '.') :
    n ∈ mainBins u buildPath ↔ n ∈ mainBins b [] := by
  by_cases hmain : binExt <:+ n ∧ ¬ bootloader <+: n ∧ ¬ "partition".toList <+: n
  · have hroot := root_of_mainBin hmain.2.1 hmain.2.2
    have hfind : u.find (n :: buildPath) = if n.head? = some '.' then none else b.find [n] := by
      rw [hrebuilt.find_root hroot, ← (archiveFirmware_eq_some harchive).isFlat.find_eq_content]
      apply (find_archived harchive).1 n hmain.1
      simp_all
    rw [mem_mainBins, mem_mainBins, hfind]
    constructor
    · rintro ⟨hsome, hrest⟩
      split_ifs at hsome
      · cases hsome
      · exact ⟨hsome, hrest⟩
    · intro h
      rw [if_neg (hhidden n (mem_mainBins.mpr h))]
      exact h
  · rw [mem_mainBins, mem_mainBins]
    exact iff_of_false (fun h => hmain h.2) fun h => hmain h.2

/-- The check of `flash_with_idf` sees no difference. -/
theorem looksBuilt_rebuilt (hhidden : ∀ n ∈ mainBins b [], n.head? ≠ some '.') :
    looksBuilt u buildPath = looksBuilt b [] := by
  have hbins : (mainBins u buildPath).isEmpty = (mainBins b []).isEmpty := by
    rw [Bool.eq_iff_iff, List.isEmpty_iff, List.isEmpty_iff, List.eq_nil_iff_forall_not_mem,
      List.eq_nil_iff_forall_not_mem]
    simp only [mem_mainBins_rebuilt harchive hrebuilt hhidden]
  have ha := archiveFirmware_eq_some harchive
  obtain ⟨cb, hb, hfb⟩ := ha.boot
  obtain ⟨cp, hp, hfp⟩ := ha.part
  have hmissing : missingFiles b [] = [] := by
    simp [missingFiles, requiredStructure, hb, hp]
  have hmissing' : missingFiles u buildPath = [] := by
    have hboot : u.find (bootloaderBin :: bootloader :: buildPath) = some (.file cb) :=
      hrebuilt.find_destination hfb
    have hpart : u.find (partitionTableBin :: partitionTable :: buildPath) = some (.file cp) :=
      hrebuilt.find_destination hfp
    simp [missingFiles, requiredStructure, hboot, hpart]
  rw [looksBuilt, looksBuilt, hbins, hmissing, hmissing']

theorem loadFlasherArgs_rebuilt (hargs : b.find [flasherArgsJson] ≠ some .dir)
    (jsonLoad : α → Option Json) :
    loadFlasherArgs jsonLoad u buildPath = loadFlasherArgs jsonLoad b [] := by
  have hsame : u.find (flasherArgsJson :: buildPath) = b.find [flasherArgsJson] := by
    rw [hrebuilt.find_root (by decide),
      ← (archiveFirmware_eq_some harchive).isFlat.find_eq_content, (find_archived harchive).2,
      FileTree.content]
    cases hfile : b.find [flasherArgsJson] with
    | none => rfl
    | some e =>
      cases e with
      | dir => exact absurd hfile hargs
      | file c => rfl
  rw [loadFlasherArgs, loadFlasherArgs, hsame]

theorem flashWithIdf_eq_of_rebuilt (hhidden : ∀ n ∈ mainBins b [], n.head? ≠ some '.')
    (hargs : b.find [flasherArgsJson] ≠ some .dir) (jsonLoad : α → Option Json) (popen : Popen)
    (executable port chip : Str) :
    flashWithIdf jsonLoad popen executable port chip u buildPath =
      flashWithIdf jsonLoad popen executable port chip b [] := by
  rw [flashWithIdf, flashWithIdf, looksBuilt_rebuilt harchive hrebuilt hhidden, prepareCmd,
    prepareCmd, loadFlasherArgs_rebuilt harchive hrebuilt hargs]

/-- A file that a flash map may name is in the structure under the same path. -/
theorem read_rebuilt {f : List Char} (hf : Flashable b f) :
    ∃ c, b.read [] f = some c ∧ u.read buildPath f = some c := by
  have ha := archiveFirmware_eq_some harchive
  rcases hf with rfl | rfl | ⟨hslash, hfile, hbin, hdot, hspecial⟩
  · obtain ⟨c, hb, hflat⟩ := ha.boot
    exact ⟨c, FileTree.read_in_dir hb (by decide) (by decide),
      FileTree.read_in_dir (hrebuilt.find_destination hflat) (by decide) (by decide)⟩
  · obtain ⟨c, hb, hflat⟩ := ha.part
    exact ⟨c, FileTree.read_in_dir hb (by decide) (by decide),
      FileTree.read_in_dir (hrebuilt.find_destination hflat) (by decide) (by decide)⟩
  · obtain ⟨c, hb⟩ := FileTree.isFile_iff.mp hfile
    have hplain := plain_of_bin hslash hbin
    have hdest := hrebuilt.find_destination (ha.bins f c hb hbin hdot hspecial)
    simp only [List.mem_cons, List.not_mem_nil, or_false, not_or] at hspecial
    rw [destination, destDir, if_neg hspecial.1, if_neg hspecial.2] at hdest
    exact ⟨c, FileTree.read_name hb hplain, FileTree.read_name hdest hplain⟩

end

/-- Flashing what the script makes of an archived build does what flashing the build would:
the check ends alike, the same command is run or the same exception raised, and what a flash
map may name has the same content. No binary of the build may be hidden, and its
`flasher_args.json` no directory. -/
theorem flashWithIdf_rebuilt (o o' : Listing) {flashInfo : α}
    (harchive : archiveFirmware o b flashInfo = some flat)
    (hhidden : ∀ n ∈ mainBins b [], n.head? ≠ some '.')
    (hargs : b.find [flasherArgsJson] ≠ some .dir) :
    ∃ path r, recreateBuildStructureFromFlat o' flat = some (path, r) ∧
      (∀ jsonLoad popen executable port chip,
        flashWithIdf jsonLoad popen executable port chip r.tree path =
          flashWithIdf jsonLoad popen executable port chip b []) ∧
      ∀ f, Flashable b f → ∃ c, b.read [] f = some c ∧ r.tree.read path f = some c := by
  have hflat := (archiveFirmware_eq_some harchive).isFlat
  obtain ⟨r, hr, hrebuilt⟩ := recreate_rebuilt o' hflat.flatBeside
  exact ⟨buildPath, r, hr, flashWithIdf_eq_of_rebuilt harchive hrebuilt hhidden hargs,
    fun f => read_rebuilt harchive hrebuilt⟩

theorem flashWithIdf_rebuilt_smallBuild :
    ∃ b flat path r, smallBuild = some b ∧
      archiveFirmware ⟨id, List.Perm.refl⟩ b 0 = some flat ∧
      recreateBuildStructureFromFlat ⟨List.reverse, List.reverse_perm⟩ flat = some (path, r) ∧
      flashWithIdf (fun _ => none) (.exits 0) "python3".toList "COM5".toList "esp32".toList r.tree
          path =
        flashWithIdf (fun _ => none) (.exits 0) "python3".toList "COM5".toList "esp32".toList b
          [] := by
  have hsome : (smallBuild.bind fun b => archiveFirmware ⟨id, List.Perm.refl⟩ b 0).isSome := by
    decide +kernel
  obtain ⟨flat, hflat⟩ := Option.isSome_iff_exists.mp hsome
  obtain ⟨b, hb, harchive⟩ := Option.bind_eq_some_iff.mp hflat
  have hbins : ∀ b ∈ smallBuild, mainBins b [] = ["home-node.bin".toList] := by decide +kernel
  have hargs : ∀ b ∈ smallBuild, b.find [flasherArgsJson] = none := by decide +kernel
  have hhidden : ∀ n ∈ mainBins b [], n.head? ≠ some '.' := by
    rw [hbins b hb]
    decide
  obtain ⟨path, r, hrec, hflash, -⟩ := flashWithIdf_rebuilt _ ⟨List.reverse, List.reverse_perm⟩
    harchive hhidden (by simp [hargs b hb])
  exact ⟨b, flat, path, r, hb, harchive, hrec, hflash _ _ _ _ _⟩

end HomeNode.Flash
