-- SUMMARY: The CI step that copies a build into a flat directory and the script that rebuilds the structure from it.
import HomeNode.Lib.FileTree
import HomeNode.Lib.Transition

/-!
# The firmware artifact

`Archive firmware` of `build.yml` copies the files of a build directory into one
flat directory, which is uploaded as it is. `recreate_build_structure_from_flat`
of `flash_firmware.py` gets the directory that the download was extracted into.
Each tree below is one of these directories, with its own root.
-/

namespace HomeNode.Flash

open FileTree

variable {α : Type}

def buildName : Name := "build".toList
def bootloader : Name := "bootloader".toList
def partitionTable : Name := "partition_table".toList
def bootloaderBin : Name := "bootloader.bin".toList
def partitionTableBin : Name := "partition-table.bin".toList
def flashArgs : Name := "flash_args".toList
def flasherArgsJson : Name := "flasher_args.json".toList
def projectDescription : Name := "project_description.json".toList
def flashInfoTxt : Name := "flash_info.txt".toList
def binExt : Name := ".bin".toList
def elfExt : Name := ".elf".toList

/-! ## Archive firmware -/

/-- The names that the shell puts in for `*` and an extension: a leading dot is not
matched by `*`. -/
def shellGlob (o : Listing) (b : FileTree α) (ext : Name) : List Name :=
  (o.order (b.names [])).filter fun n => ext.isSuffixOf n && n.head? != some '.'

/-- `cp src firmware/`, which fails on a directory and on what is not there. -/
def cp (b : FileTree α) (src : TreePath) (flat : FileTree α) : Option (FileTree α) :=
  match src with
  | [] => none
  | n :: _ => (b.content src).bind fun c => flat.write [n] c

/-- `cp build/*.ext firmware/`. Without a match the pattern itself is not there. -/
def cpGlob (o : Listing) (b : FileTree α) (ext : Name) (flat : FileTree α) : Option (FileTree α) :=
  match shellGlob o b ext with
  | [] => none
  | ns => Transition.run (fun flat n => cp b [n] flat) flat ns

/-- `cp src firmware/ || echo "..."` -/
def cpOrSkip (b : FileTree α) (src : TreePath) (flat : FileTree α) : FileTree α :=
  (cp b src flat).getD flat

/-- The step, whose first failing command ends it. `mkdir -p` makes the directory, since a
checkout has none. -/
def archiveFirmware (o : Listing) (b : FileTree α) (flashInfo : α) : Option (FileTree α) := do
  let flat ← cpGlob o b binExt FileTree.empty
  let flat ← cpGlob o b elfExt flat
  let flat ← cp b [partitionTableBin, partitionTable] flat
  let flat ← cp b [bootloaderBin, bootloader] flat
  let flat := cpOrSkip b [flashArgs] flat
  let flat := cpOrSkip b [flasherArgsJson] flat
  let flat := cpOrSkip b [projectDescription] flat
  flat.write [flashInfoTxt] flashInfo

variable {o : Listing} {b flat flat' t : FileTree α} {src d : TreePath} {n m ext : Name} {c : α}

theorem cp_eq_some (h : cp b (n :: d) flat = some flat') :
    ∃ c, b.find (n :: d) = some (.file c) ∧
      ∀ q, flat'.find q = if q = [n] then some (.file c) else flat.find q := by
  obtain ⟨c, hc, hwrite⟩ := Option.bind_eq_some_iff.mp h
  obtain ⟨hdir, hnew, rfl⟩ := FileTree.write_eq_some hwrite
  exact ⟨c, FileTree.content_eq_some_iff.mp hc, FileTree.find_put hdir hnew⟩

/-- What the copies of a build may leave in the flat directory: nothing but files, and none
with the name of a directory of the structure. -/
def Flat (t : FileTree α) : Prop :=
  ∀ n p e, t.find (n :: p) = some e →
    p = [] ∧ n ∉ [buildName, bootloader, partitionTable] ∧ ∃ c, e = .file c

theorem Flat.empty : Flat (FileTree.empty : FileTree α) := by
  intro n p e h
  simp at h

/-- The rule for each copy: it leaves a flat directory, and the files of other names. -/
theorem Flat.put (hflat : Flat flat) (hn : n ∉ [buildName, bootloader, partitionTable])
    (hput : ∀ q, flat'.find q = if q = [n] then some (.file c) else flat.find q) :
    Flat flat' := by
  intro m p e h
  rw [hput] at h
  split at h
  · next hm =>
    obtain ⟨rfl, rfl⟩ := List.cons.inj hm
    exact ⟨rfl, hn, c, (Option.some.inj h).symm⟩
  · exact hflat m p e h

theorem shellGlob_ext (h : n ∈ shellGlob o b ext) : ext <:+ n := by
  have hn := (List.mem_filter.mp h).2
  simp_all

theorem mem_shellGlob (hfile : b.find [n] = some (.file c)) (hext : ext <:+ n)
    (hdot : n.head? ≠ some '.') : n ∈ shellGlob o b ext := by
  apply List.mem_filter.mpr
  constructor
  · rw [o.mem_order, FileTree.mem_names, hfile]
    rfl
  · simp_all

theorem cpGlob_eq_some (h : cpGlob o b ext flat = some flat') :
    Transition.run (fun flat n => cp b [n] flat) flat (shellGlob o b ext) = some flat' := by
  rw [cpGlob] at h
  cases hns : shellGlob o b ext with
  | nil => simp [hns] at h
  | cons n ns => simpa [hns] using h

/-- A glob copies the files it matches, as they are in the build, and nothing else. -/
theorem find_cpGlob (h : cpGlob o b ext flat = some flat') (m : Name) :
    flat'.find [m] = if m ∈ shellGlob o b ext then b.find [m] else flat.find [m] := by
  apply Transition.run_induction (P := fun ns u =>
    u.find [m] = if m ∈ ns then b.find [m] else flat.find [m]) _ _ _ _ (cpGlob_eq_some h)
  · simp
  · intro ns t n u _ ih hcp
    obtain ⟨c, hc, hu⟩ := cp_eq_some hcp
    rw [hu]
    split
    · next hm =>
      obtain ⟨rfl, -⟩ := List.cons.inj hm
      simp [hc]
    · next hm =>
      have hne : m ≠ n := by simpa using hm
      rw [ih]
      simp [hne]

theorem Flat.cpGlob (hflat : Flat flat)
    (hext : ∀ n ∈ [buildName, bootloader, partitionTable], ¬ ext <:+ n)
    (h : cpGlob o b ext flat = some flat') : Flat flat' := by
  have hall : ∀ ns u, Transition.run (fun flat n => cp b [n] flat) flat ns = some u →
      (∀ n ∈ ns, ext <:+ n) → Flat u := by
    apply Transition.run_induction
    · intro _
      exact hflat
    · intro ns t n u _ ih hcp hns
      obtain ⟨c, -, hu⟩ := cp_eq_some hcp
      have hn : n ∉ [buildName, bootloader, partitionTable] := fun hmem =>
        hext n hmem (hns n (by simp))
      exact (ih fun m hm => hns m (List.mem_append_left _ hm)).put hn hu
  exact hall _ _ (cpGlob_eq_some h) fun n => shellGlob_ext

theorem find_cpOrSkip (hmn : m ≠ n) : (cpOrSkip b (n :: d) flat).find [m] = flat.find [m] := by
  unfold cpOrSkip
  cases h : cp b (n :: d) flat with
  | none => rfl
  | some flat' =>
    obtain ⟨c, -, hput⟩ := cp_eq_some h
    simp [hput, hmn]

theorem Flat.cpOrSkip (hflat : Flat flat) (hn : n ∉ [buildName, bootloader, partitionTable]) :
    Flat (cpOrSkip b (n :: d) flat) := by
  unfold Flash.cpOrSkip
  cases h : cp b (n :: d) flat with
  | none => exact hflat
  | some flat' =>
    obtain ⟨c, -, hput⟩ := cp_eq_some h
    exact hflat.put hn hput

/-- What a completed step leaves of a build. -/
structure Archived (b flat : FileTree α) : Prop where
  isFlat : Flat flat
  boot : ∃ c, b.find [bootloaderBin, bootloader] = some (.file c) ∧
    flat.find [bootloaderBin] = some (.file c)
  part : ∃ c, b.find [partitionTableBin, partitionTable] = some (.file c) ∧
    flat.find [partitionTableBin] = some (.file c)
  bins : ∀ n c, b.find [n] = some (.file c) → binExt <:+ n → n.head? ≠ some '.' →
    n ∉ [bootloaderBin, partitionTableBin] → flat.find [n] = some (.file c)

theorem not_elf_of_bin (h : binExt <:+ n) : ¬ elfExt <:+ n := by
  intro helf
  have hsuffix := List.suffix_of_suffix_length_le helf h (by decide)
  revert hsuffix
  decide

theorem archiveFirmware_eq_some {flashInfo : α} (h : archiveFirmware o b flashInfo = some flat) :
    Archived b flat := by
  simp only [archiveFirmware, Option.bind_eq_bind, Option.bind_eq_some_iff] at h
  obtain ⟨f₁, hbins, f₂, helfs, f₃, hpart, f₄, hboot, hinfo⟩ := h
  obtain ⟨cp, hcp, hf₃⟩ := cp_eq_some hpart
  obtain ⟨cb, hcb, hf₄⟩ := cp_eq_some hboot
  obtain ⟨hdir, hnew, rfl⟩ := FileTree.write_eq_some hinfo
  -- the copies that come last leave every other name alone
  have hlast : ∀ n, n ∉ [flashArgs, flasherArgsJson, projectDescription, flashInfoTxt] →
      (FileTree.put _ flashInfoTxt [] (.file flashInfo) hdir hnew).find [n] = f₄.find [n] := by
    intro n hn
    simp only [List.mem_cons, List.not_mem_nil, or_false, not_or] at hn
    obtain ⟨hargs, hjson, hdesc, htxt⟩ := hn
    rw [FileTree.find_put, if_neg (by simpa using htxt), find_cpOrSkip hdesc, find_cpOrSkip hjson,
      find_cpOrSkip hargs]
  constructor
  · have hf₂ := (Flat.empty.cpGlob (by decide) hbins).cpGlob (by decide) helfs
    have hf₄ := (hf₂.put (by decide) hf₃).put (by decide) hf₄
    apply Flat.put _ (by decide) (FileTree.find_put hdir hnew)
    apply Flat.cpOrSkip _ (by decide)
    apply Flat.cpOrSkip _ (by decide)
    exact hf₄.cpOrSkip (by decide)
  · refine ⟨cb, hcb, ?_⟩
    rw [hlast _ (by decide), hf₄, if_pos rfl]
  · refine ⟨cp, hcp, ?_⟩
    rw [hlast _ (by decide), hf₄, if_neg (by decide), hf₃, if_pos rfl]
  · intro n c hfile hbin hdot hspecial
    simp only [List.mem_cons, List.not_mem_nil, or_false, not_or] at hspecial
    have hglob : n ∉ shellGlob o b elfExt := fun hmem => not_elf_of_bin hbin (shellGlob_ext hmem)
    have hlate : n ∉ [flashArgs, flasherArgsJson, projectDescription, flashInfoTxt] := by
      have hconfig : ∀ m ∈ [flashArgs, flasherArgsJson, projectDescription, flashInfoTxt],
          ¬ binExt <:+ m := by decide
      exact fun hmem => hconfig n hmem hbin
    rw [hlast n hlate, hf₄, if_neg (by simpa using hspecial.1), hf₃,
      if_neg (by simpa using hspecial.2), find_cpGlob helfs, if_neg hglob, find_cpGlob hbins,
      if_pos (mem_shellGlob hfile hbin hdot), hfile]

/-! ## Rebuilding the structure -/

/-- What `recreate_build_structure_from_flat` works on: the tree in `flat_dir` and the lines
`filename -> dest_path` that it has printed. -/
structure Rebuild (α : Type) where
  tree : FileTree α
  moved : List (Name × TreePath) := []

def buildPath : TreePath := [buildName]

/-- `shutil.copy2`, which copies into a directory of the name `dst`. -/
def copy2 (t : FileTree α) (src dst : TreePath) : Option (FileTree α) :=
  match src with
  | [] => none
  | n :: _ => (t.content src).bind fun c => t.write (if t.isDir dst then n :: dst else dst) c

/-- The `dest_path` of a file, with the directory made that it needs. -/
def destPath (t : FileTree α) (filename : Name) : Option (FileTree α × TreePath) :=
  if filename = bootloaderBin then
    (t.mkdir (bootloader :: buildPath)).map fun t => (t, filename :: bootloader :: buildPath)
  else if filename = partitionTableBin then
    (t.mkdir (partitionTable :: buildPath)).map fun t =>
      (t, filename :: partitionTable :: buildPath)
  else
    -- the other binaries, the configuration files, the ELF file and the unknown ones alike
    some (t, filename :: buildPath)

/-- The body of the loop over `flat_files`. -/
def placeFile (r : Rebuild α) (filename : Name) : Option (Rebuild α) := do
  let (t, dst) ← destPath r.tree filename
  let t ← copy2 t [filename] dst
  return { tree := t, moved := r.moved ++ [(filename, dst)] }

def recreateBuildStructureFromFlat (o : Listing) (t : FileTree α) :
    Option (TreePath × Rebuild α) := do
  let t ← if (t.find buildPath).isSome then t.rmtree buildPath else some t
  let t ← t.mkdir buildPath
  let flatFiles := (o.order (t.names [])).filter fun n => t.isFile [n]
  let r ← Transition.run placeFile { tree := t } flatFiles
  return (buildPath, r)

/-- The directory that a file is put into. -/
def destDir (filename : Name) : TreePath :=
  if filename = bootloaderBin then bootloader :: buildPath
  else if filename = partitionTableBin then partitionTable :: buildPath
  else buildPath

def destination (filename : Name) : TreePath := filename :: destDir filename

variable {done : List Name} {r : Rebuild α}

/-- No two files have one destination. -/
theorem destination_injective : Function.Injective destination :=
  fun _ _ heq => (List.cons.inj heq).1

theorem destDir_ne_nil (n : Name) : destDir n ≠ [] := by
  unfold destDir
  split_ifs <;> simp [buildPath]

theorem singleton_ne_destination (n m : Name) : [m] ≠ destination n := by
  intro h
  exact destDir_ne_nil n (List.cons.inj h).2.symm

/-- The loop invariant: what the files `done` have made of the flat directory `t`. -/
structure Rebuilding (t : FileTree α) (done : List Name) (r : Rebuild α) : Prop where
  kept : ∀ n, n ≠ buildName → r.tree.find [n] = t.find [n]
  root : r.tree.find buildPath = some .dir
  placed : ∀ n ∈ done, ∃ c, t.find [n] = some (.file c) ∧
    r.tree.find (destination n) = some (.file c)
  dirs : ∀ n p, r.tree.find (n :: p) = some .dir → n ∈ [buildName, bootloader, partitionTable]
  subdirs : ∀ d ∈ [bootloader, partitionTable], ∀ c, r.tree.find (d :: buildPath) ≠ some (.file c)
  moved : r.moved = done.map fun n => (n, destination n)

theorem Rebuilding.mkdir (h : Rebuilding t done r) {d : Name}
    (hd : d ∈ [bootloader, partitionTable]) :
    ∃ u, r.tree.mkdir (d :: buildPath) = some u ∧ u.find (d :: buildPath) = some .dir ∧
      Rebuilding t done { r with tree := u } := by
  rw [FileTree.mkdir]
  split_ifs with hold hfile hdir
  · exact ⟨r.tree, rfl, FileTree.isDir_iff.mp hold, h⟩
  · obtain ⟨c, hc⟩ := FileTree.isFile_iff.mp hfile
    exact absurd hc (h.subdirs d hd c)
  · have hfind := FileTree.find_put (e := .dir) (FileTree.isDir_iff.mp hdir)
      (mt FileTree.isDir_iff.mpr hold)
    refine ⟨_, rfl, by simp [hfind], ?_⟩
    constructor
    · intro n hn
      rw [hfind, if_neg (by simp [buildPath])]
      exact h.kept n hn
    · rw [hfind, if_neg (by simp [buildPath])]
      exact h.root
    · intro n hn
      obtain ⟨c, hc, hdest⟩ := h.placed n hn
      refine ⟨c, hc, ?_⟩
      rw [hfind, if_neg, hdest]
      -- a file that stood there would have been refused
      intro heq
      rw [heq] at hdest
      exact h.subdirs d hd c hdest
    · intro n p hn
      rw [hfind] at hn
      split at hn
      · next heq =>
        obtain ⟨rfl, -⟩ := List.cons.inj heq
        exact List.mem_cons_of_mem _ hd
      · exact h.dirs n p hn
    · intro d' hd' c
      rw [hfind]
      split
      · simp
      · exact h.subdirs d' hd' c
    · exact h.moved
  · exact absurd (FileTree.isDir_iff.mpr h.root) hdir

theorem Rebuilding.destPath (h : Rebuilding t done r) (n : Name) :
    ∃ u, destPath r.tree n = some (u, destination n) ∧ u.find (destDir n) = some .dir ∧
      Rebuilding t done { r with tree := u } := by
  unfold Flash.destPath destination destDir
  split_ifs
  · obtain ⟨u, hu, hdir, hr⟩ := h.mkdir (d := bootloader) (by simp)
    exact ⟨u, by simp [hu], hdir, hr⟩
  · obtain ⟨u, hu, hdir, hr⟩ := h.mkdir (d := partitionTable) (by simp)
    exact ⟨u, by simp [hu], hdir, hr⟩
  · exact ⟨r.tree, rfl, h.root, h⟩

/-- The step of the loop, for a file that is not named like a directory. -/
theorem Rebuilding.placeFile (h : Rebuilding t done r) (hfile : t.find [n] = some (.file c))
    (hn : n ∉ [buildName, bootloader, partitionTable]) :
    ∃ r', placeFile r n = some r' ∧ Rebuilding t (done ++ [n]) r' := by
  obtain ⟨u, hu, hdir, hr⟩ := h.destPath n
  have hnew : u.find (destination n) ≠ some .dir := fun hdest => hn (hr.dirs n _ hdest)
  have hsrc : u.content [n] = some c := by
    rw [FileTree.content_eq_some_iff, ← hfile]
    exact hr.kept n fun hbuild => hn (by simp [hbuild])
  have hcopy : copy2 u [n] (destination n) = some (u.put n (destDir n) (.file c) hdir hnew) := by
    rw [copy2, hsrc, Option.bind_some, if_neg (mt FileTree.isDir_iff.mp hnew)]
    exact FileTree.write_cons hdir hnew c
  have hfind : ∀ q, (u.put n (destDir n) (.file c) hdir hnew).find q =
      if q = destination n then some (.file c) else u.find q := FileTree.find_put hdir hnew
  have hplace : Flash.placeFile r n = some
      { tree := u.put n (destDir n) (.file c) hdir hnew
        moved := r.moved ++ [(n, destination n)] } := by
    simp [Flash.placeFile, hu, hcopy]
  refine ⟨_, hplace, ?_⟩
  constructor
  · intro m hm
    rw [hfind, if_neg (singleton_ne_destination n m)]
    exact hr.kept m hm
  · have hne : buildPath ≠ destination n := singleton_ne_destination n buildName
    rw [hfind, if_neg hne]
    exact hr.root
  · intro m hm
    by_cases hmn : m = n
    · subst hmn
      exact ⟨c, hfile, by rw [hfind]; exact if_pos rfl⟩
    · have hdone : m ∈ done := by simpa [hmn] using hm
      obtain ⟨c', hc', hdest⟩ := hr.placed m hdone
      refine ⟨c', hc', ?_⟩
      rw [hfind, if_neg fun heq => hmn (destination_injective heq)]
      exact hdest
  · intro m p hm
    rw [hfind] at hm
    split at hm
    · simp at hm
    · exact hr.dirs m p hm
  · intro d hd c'
    rw [hfind, if_neg]
    · exact hr.subdirs d hd c'
    · intro heq
      obtain ⟨rfl, -⟩ := List.cons.inj heq
      exact hn (List.mem_cons_of_mem _ hd)
  · simp [h.moved]

/-- The script succeeds on every flat directory, and the loop takes every file once. -/
theorem recreate_of_flat (o : Listing) (h : Flat t) :
    ∃ files r, recreateBuildStructureFromFlat o t = some (buildPath, r) ∧
      Rebuilding t files r ∧ files.Nodup ∧
      ∀ n, n ∈ files ↔ ∃ c, t.find [n] = some (.file c) := by
  have hfresh : t.find buildPath = none := by
    rw [Option.eq_none_iff_forall_ne_some]
    intro e he
    exact (h buildName [] e he).2.1 (by simp)
  have hnew : t.find (buildName :: []) ≠ some .dir := by
    rw [← buildPath, hfresh]
    simp
  have hmkdir : t.mkdir buildPath = some (t.put buildName [] .dir rfl hnew) := by
    simp [FileTree.mkdir, buildPath, FileTree.isDir, FileTree.isFile,
      show t.find [buildName] = none from hfresh]
  have hfind := FileTree.find_put (e := .dir) (t := t) rfl hnew
  -- what the loop is over: the files of the flat directory
  have hfiles : ∀ n, n ∈ (o.order ((t.put buildName [] .dir rfl hnew).names [])).filter
      (fun n => (t.put buildName [] .dir rfl hnew).isFile [n]) ↔
        ∃ c, t.find [n] = some (.file c) := by
    intro n
    rw [List.mem_filter, o.mem_order, FileTree.mem_names, FileTree.isFile_iff, hfind]
    split
    · next hn =>
      obtain ⟨rfl, -⟩ := List.cons.inj hn
      simp [show t.find [buildName] = none from hfresh]
    · simp +contextual
  have hstart : Rebuilding t [] { tree := t.put buildName [] .dir rfl hnew } := by
    constructor
    · intro n hn
      rw [hfind, if_neg (by simpa using hn)]
    · rw [hfind]
      exact if_pos rfl
    · simp
    · intro n p hn
      rw [hfind] at hn
      split at hn
      · next heq =>
        obtain ⟨rfl, -⟩ := List.cons.inj heq
        simp
      · obtain ⟨-, -, c, hc⟩ := h n p _ hn
        simp at hc
    · intro d hd c
      rw [hfind, if_neg (by simp [buildPath])]
      intro hd
      simpa [buildPath] using (h d buildPath _ hd).1
    · rfl
  obtain ⟨r, hrun, hr⟩ := Transition.run_total hstart fun pre n r hpre hP => by
    obtain ⟨c, hc⟩ := (hfiles n).mp (hpre.subset (by simp))
    exact hP.placeFile hc (h n [] _ hc).2.1
  refine ⟨_, r, ?_, hr, (o.nodup_order FileTree.nodup_names).filter _, hfiles⟩
  simp [recreateBuildStructureFromFlat, hfresh, hmkdir, hrun]

/-- A structure that is there from before is removed first, and the rest rebuilt as if it had
never been there. -/
theorem recreate_of_dir (o : Listing) (hdir : t.find buildPath = some .dir) :
    ∃ u, recreateBuildStructureFromFlat o t = recreateBuildStructureFromFlat o u ∧
      ∀ n p, u.find (n :: p) = if buildPath <:+ n :: p then none else t.find (n :: p) := by
  obtain ⟨u, hu, hfind⟩ := FileTree.rmtree_of_dir hdir
  have hgone : u.find buildPath = none := (hfind buildName []).trans (if_pos List.suffix_rfl)
  refine ⟨u, ?_, hfind⟩
  simp [recreateBuildStructureFromFlat, hdir, hu, hgone]

/-! ## There and back -/

/-- A file of a build that a `flash_files` map may name: the bootloader, the partition table,
or a binary in the root of the build. -/
def Flashable (b : FileTree α) (f : List Char) : Prop :=
  f = "bootloader/bootloader.bin".toList ∨
    f = "partition_table/partition-table.bin".toList ∨
      ('/' ∉ f ∧ b.isFile [f] ∧ binExt <:+ f ∧ f.head? ≠ some '.' ∧
        f ∉ [bootloaderBin, partitionTableBin])

theorem plain_of_bin (hslash : '/' ∉ n) (hbin : binExt <:+ n) : FileTree.Plain n := by
  have hshort : ∀ m ∈ [[], ['.'], ['.', '.']], ¬ binExt <:+ m := by decide
  exact ⟨hslash, fun h => hshort _ (by simp) (h ▸ hbin), fun h => hshort _ (by simp) (h ▸ hbin),
    fun h => hshort _ (by simp) (h ▸ hbin)⟩

theorem Rebuilding.find_destination (h : Rebuilding t done r) (hn : n ∈ done)
    (hfile : t.find [n] = some (.file c)) : r.tree.find (destination n) = some (.file c) := by
  obtain ⟨c', hc', hdest⟩ := h.placed n hn
  rw [hdest, ← hc', hfile]

/-- Whatever a flash map names in a build is under the path that the script returns, with the
content it had, after the build was archived and its structure rebuilt. -/
theorem recreate_archiveFirmware (o o' : Listing) (b flat : FileTree α) (flashInfo : α)
    (flashFiles : List (List Char)) (hfiles : ∀ f ∈ flashFiles, Flashable b f)
    (harchive : archiveFirmware o b flashInfo = some flat) :
    ∃ path r, recreateBuildStructureFromFlat o' flat = some (path, r) ∧
      (∀ f ∈ flashFiles, ∃ c, b.read [] f = some c ∧ r.tree.read path f = some c) ∧
      (r.moved.map Prod.snd).Nodup := by
  have ha := archiveFirmware_eq_some harchive
  obtain ⟨done, r, hrec, hr, hnodup, hmem⟩ := recreate_of_flat o' ha.isFlat
  have hplace : ∀ n c, flat.find [n] = some (.file c) →
      r.tree.find (destination n) = some (.file c) :=
    fun n c hfile => hr.find_destination ((hmem n).mpr ⟨c, hfile⟩) hfile
  refine ⟨buildPath, r, hrec, ?_, ?_⟩
  · intro f hf
    rcases hfiles f hf with rfl | rfl | ⟨hslash, hfile, hbin, hdot, hspecial⟩
    · obtain ⟨c, hb, hflat⟩ := ha.boot
      exact ⟨c, FileTree.read_in_dir hb (by decide) (by decide),
        FileTree.read_in_dir (hplace _ c hflat) (by decide) (by decide)⟩
    · obtain ⟨c, hb, hflat⟩ := ha.part
      exact ⟨c, FileTree.read_in_dir hb (by decide) (by decide),
        FileTree.read_in_dir (hplace _ c hflat) (by decide) (by decide)⟩
    · obtain ⟨c, hb⟩ := FileTree.isFile_iff.mp hfile
      have hplain := plain_of_bin hslash hbin
      have hroot : destination f = f :: buildPath := by
        simp only [List.mem_cons, List.not_mem_nil, or_false, not_or] at hspecial
        rw [destination, destDir, if_neg hspecial.1, if_neg hspecial.2]
      have hdest := hplace f c (ha.bins f c hb hbin hdot hspecial)
      rw [hroot] at hdest
      exact ⟨c, FileTree.read_name hb hplain, FileTree.read_name hdest hplain⟩
  · rw [hr.moved, List.map_map]
    exact hnodup.map destination_injective

/-- A build with one binary of its own. -/
def smallBuild : Option (FileTree Nat) := do
  let t ← FileTree.empty.mkdir [bootloader]
  let t ← t.write [bootloaderBin, bootloader] 1
  let t ← t.mkdir [partitionTable]
  let t ← t.write [partitionTableBin, partitionTable] 2
  let t ← t.write ["home-node.bin".toList] 3
  t.write ["home-node.elf".toList] 4

theorem recreate_archiveFirmware_smallBuild :
    ∃ b flat path r, smallBuild = some b ∧
      archiveFirmware ⟨id, List.Perm.refl⟩ b 0 = some flat ∧
      recreateBuildStructureFromFlat ⟨List.reverse, List.reverse_perm⟩ flat = some (path, r) ∧
      ∀ f ∈ ["bootloader/bootloader.bin".toList, "home-node.bin".toList],
        ∃ c, b.read [] f = some c ∧ r.tree.read path f = some c := by
  have hsome : (smallBuild.bind fun b => archiveFirmware ⟨id, List.Perm.refl⟩ b 0).isSome := by
    decide +kernel
  obtain ⟨flat, hflat⟩ := Option.isSome_iff_exists.mp hsome
  obtain ⟨b, hb, harchive⟩ := Option.bind_eq_some_iff.mp hflat
  have hfile : ∀ b ∈ smallBuild, b.isFile ["home-node.bin".toList] := by decide +kernel
  have hfiles : ∀ f ∈ ["bootloader/bootloader.bin".toList, "home-node.bin".toList],
      Flashable b f := by
    intro f hf
    rcases List.mem_pair.mp hf with rfl | rfl
    · exact .inl rfl
    · exact .inr (.inr ⟨by decide, hfile b hb, by decide, by decide, by decide⟩)
  obtain ⟨path, r, hrec, hread, -⟩ :=
    recreate_archiveFirmware _ ⟨List.reverse, List.reverse_perm⟩ b flat 0 _ hfiles harchive
  exact ⟨b, flat, path, r, hb, harchive, hrec, hread⟩

end HomeNode.Flash
