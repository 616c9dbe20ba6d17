-- SUMMARY: The release job up to Create Release: which of the artifacts become files of the release, and that each manifest comes with its image.
import HomeNode.Release.Build

/-!
# The files of a release

`create-release` runs when all jobs of the matrix are through, and looks for their
artifacts under the name of the pushed tag. What a job has named otherwise is not found,
and no file of the release.
-/

namespace HomeNode.Release

open FileTree Flash Transition

/-- A run of the workflow on a pushed tag: its build jobs, and the order in which the release
job lists a directory. -/
structure Run where
  refName : Tag
  build : Target → BuildJob
  order : Listing

/-- `needs: build`, and `Download all artifacts`. -/
def Run.artifacts (w : Workflow) (r : Run) : Option (List Artifact) := do
  let s3 ← (r.build .esp32s3).run w .esp32s3
  let c3 ← (r.build .esp32c3).run w .esp32c3
  return s3 ++ c3

def firmwareCompleteName (t : Target) (v : Text) : Name :=
  "firmware-complete-".toList ++ t.text ++ "-".toList ++ v ++ ".zip".toList

def latestName (t : Target) : Name :=
  otaManifest ++ t.text ++ "-latest".toList ++ jsonExt

def readmeName : Name := "README.txt".toList

/-! ## Prepare release files -/

/-- The first loop: the complete firmware packages. -/
def zipFirmware (w : Workflow) (v : Text) (artifacts : List Artifact) (files : FileTree Content)
    (t : Target) : Option (FileTree Content) :=
  match artifacts.lookup (firmwareArtifact t v) with
  | some dir => files.write [firmwareCompleteName t v] (w.zip dir)
  | none => some files

/-- The names that the shell puts in for a pattern with one `*`. -/
def matching (o : Listing) (dir : FileTree Content) (start ext : Name) : List Name :=
  (o.order (dir.names [])).filter fun n => start.isPrefixOf n && ext.isSuffixOf n

/-- `cp` of what matches, where anything does. -/
def copyMatching (o : Listing) (dir : FileTree Content) (start ext : Name)
    (files : FileTree Content) : Option (FileTree Content) :=
  run (fun files n => cp dir [n] files) files (matching o dir start ext)

/-- The second loop: the images and manifests for updates. -/
def copyOta (o : Listing) (v : Text) (artifacts : List Artifact) (files : FileTree Content)
    (t : Target) : Option (FileTree Content) :=
  match artifacts.lookup (otaArtifact t v) with
  | some dir => do
    let files ← copyMatching o dir firmwareOta binExt files
    copyMatching o dir otaManifest jsonExt files
  | none => some files

/-- The third loop: the copies for stable addresses. -/
def copyLatest (files : FileTree Content) (t : Target) : Option (FileTree Content) :=
  match files.content [otaManifestName t] with
  | some m => files.write [latestName t] m
  | none => some files

/-- What is uploaded when there is nothing else. -/
def readmeText : Content :=
  bytes "No firmware files were generated for this build.\n".toList

def prepareReleaseFiles (w : Workflow) (o : Listing) (v : Text) (artifacts : List Artifact) :
    Option (FileTree Content) := do
  let files ← run (zipFirmware w v artifacts) FileTree.empty targets
  let files ← run (copyOta o v artifacts) files targets
  let files ← run copyLatest files targets
  if files.names [] = [] then files.write [readmeName] readmeText else some files

/-- `release_files` of a run. -/
def Run.releaseFiles (w : Workflow) (r : Run) : Option (FileTree Content) :=
  (r.artifacts w).bind (prepareReleaseFiles w r.order r.refName.text)

/-! ## Copies of a pattern -/

variable {w : Workflow} {o : Listing} {t t' : Target} {v : Text} {m n start ext : Name}
variable {dir files files' : FileTree Content} {artifacts : List Artifact} {r : Run}

theorem mem_matching : n ∈ matching o dir start ext ↔
    (dir.find [n]).isSome ∧ start <+: n ∧ ext <:+ n := by
  simp [matching, o.mem_order, mem_names]

theorem find_copyMatching (h : copyMatching o dir start ext files = some files') (m : Name) :
    files'.find [m] = if m ∈ matching o dir start ext then dir.find [m] else files.find [m] := by
  apply run_induction (P := fun ns u =>
    u.find [m] = if m ∈ ns then dir.find [m] else files.find [m]) _ _ _ _ h
  · simp
  · intro ns u n u' _ ih hcp
    obtain ⟨c, hc, hput⟩ := cp_eq_some hcp
    rw [hput]
    split
    · next hm =>
      obtain ⟨rfl, -⟩ := List.cons.inj hm
      simp [hc]
    · next hm =>
      have hne : m ≠ n := by simpa using hm
      rw [ih]
      simp [hne]

/-- The patterns match all files for updates, and nothing is lost that stood there before. -/
theorem find_copyOta {t : Target} {j : BuildJob} {image : Content} {ota : FileTree Content}
    (hota : OtaFiles w t j image ota) (hdir : artifacts.lookup (otaArtifact t v) = some ota)
    (h : copyOta o v artifacts files t = some files') (m : Name) :
    files'.find [m] = (ota.find [m]).or (files.find [m]) := by
  simp only [copyOta, hdir, Option.bind_eq_bind, Option.bind_eq_some_iff] at h
  obtain ⟨f, hbin, hjson⟩ := h
  rw [find_copyMatching hjson, find_copyMatching hbin]
  cases hfind : ota.find [m] with
  | none => simp [mem_matching, hfind]
  | some e =>
    have hsome : (ota.find [m]).isSome := by rw [hfind]; rfl
    rw [Option.some_or]
    rw [hota.find] at hfind
    split_ifs at hfind with hmanifest hfirmware
    · rw [if_pos]
      apply mem_matching.mpr ⟨hsome, _⟩
      rw [hmanifest]
      exact otaManifestName_fits t
    · rw [ite_eq_left_iff]
      intro _
      rw [if_pos]
      apply mem_matching.mpr ⟨hsome, _⟩
      rw [hfirmware]
      exact firmwareOtaName_fits t _

/-! ## The files for updates -/

/-- A name under which the job of `t` leaves a file for updates. -/
def IsOtaFile (t : Target) (v : Text) (m : Name) : Prop :=
  m = otaManifestName t ∨ m = firmwareOtaName t v

theorem IsOtaFile.inj (h : IsOtaFile t v m) (h' : IsOtaFile t' v m) : t = t' := by
  rcases h with rfl | rfl <;> rcases h' with h' | h'
  · exact otaManifestName_inj.mp h'
  · exact absurd h' otaManifestName_ne_firmwareOtaName
  · exact absurd h'.symm otaManifestName_ne_firmwareOtaName
  · exact (firmwareOtaName_inj.mp h').1

theorem OtaFiles.isOtaFile {j : BuildJob} {image : Content} {ota : FileTree Content}
    (h : OtaFiles w t j image ota) (hm : ota.find [m] ≠ none) : IsOtaFile t j.version m := by
  rw [h.find] at hm
  split_ifs at hm with hmanifest hfirmware
  · exact .inl hmanifest
  · exact .inr hfirmware
  · exact absurd rfl hm

theorem firmwareCompleteName_not_ota (t : Target) :
    ¬ IsOtaFile t' v (firmwareCompleteName t v) := by
  have hcomplete : (firmwareCompleteName t v)[9]? = some 'c' := by cases t <;> rfl
  rintro (h | h)
  · have hmanifest : (otaManifestName t')[9]? = some 'e' := by cases t' <;> rfl
    rw [← h, hcomplete] at hmanifest
    exact absurd hmanifest (by decide)
  · have hfirmware : (firmwareOtaName t' v)[9]? = some 'o' := by cases t' <;> rfl
    rw [← h, hcomplete] at hfirmware
    exact absurd hfirmware (by decide)

theorem latestName_not_ota (t : Target) : ¬ IsOtaFile t' v (latestName t) := by
  rintro (h | h)
  · revert h
    cases t <;> cases t' <;> decide
  · have hlatest : (latestName t).head? = some 'o' := by cases t <;> rfl
    exact absurd h (ne_of_head hlatest (firmwareOtaName_head t' v) (by decide))

theorem readmeName_not_ota : ¬ IsOtaFile t v readmeName := by
  have hreadme : readmeName.head? = some 'R' := rfl
  rintro (h | h)
  · exact absurd h (ne_of_head hreadme (otaManifestName_head t) (by decide))
  · exact absurd h (ne_of_head hreadme (firmwareOtaName_head t v) (by decide))

/-- Writing another file leaves the files for updates. -/
theorem find_write_ota {c : Content} (hn : ¬ IsOtaFile t v n) (hm : IsOtaFile t v m)
    (h : files.write [n] c = some files') : files'.find [m] = files.find [m] := by
  obtain ⟨hdir, hnew, rfl⟩ := write_eq_some h
  rw [find_put, if_neg]
  intro heq
  obtain ⟨rfl, -⟩ := List.cons.inj heq
  exact hn hm

theorem zipFirmware_ota (hm : IsOtaFile t v m)
    (h : run (zipFirmware w v artifacts) FileTree.empty targets = some files) :
    files.find [m] = none := by
  apply run_induction (P := fun _ u => u.find [m] = none) _ _ _ _ h
  · rfl
  · intro ts u t' u' _ ih hzip
    unfold zipFirmware at hzip
    split at hzip
    · rw [find_write_ota (firmwareCompleteName_not_ota t') hm hzip, ih]
    · rw [← Option.some.inj hzip, ih]

/-- The artifact for updates is found where the job has named its version like the tag. -/
theorem Run.lookup_ota (h : r.artifacts w = some artifacts) (t : Target) :
    ∃ image ota, OtaFiles w t (r.build t) image ota ∧ ∀ v, artifacts.lookup (otaArtifact t v) =
      if (r.build t).version = v then some ota else none := by
  simp only [Run.artifacts, Option.bind_eq_bind, Option.bind_eq_some_iff] at h
  obtain ⟨s3, hs3, c3, hc3, heq⟩ := h
  obtain ⟨f, ota, image, hota, rfl⟩ := run_eq_some hs3
  obtain ⟨f', ota', image', hota', rfl⟩ := run_eq_some hc3
  obtain rfl := Option.some.inj heq
  have hkind : ∀ t t' v v', (otaArtifact t v == firmwareArtifact t' v') = false :=
    fun t t' v v' => beq_eq_false_iff_ne.mpr otaArtifact_ne_firmwareArtifact
  have hkey : ∀ t t' v v', (otaArtifact t v == otaArtifact t' v') = decide (t = t' ∧ v' = v) := by
    intro t t' v v'
    rw [Bool.eq_iff_iff, beq_iff_eq, otaArtifact_inj, decide_eq_true_eq, eq_comm (a := v)]
  cases t with
  | esp32s3 =>
    refine ⟨image, ota, hota, fun v => ?_⟩
    by_cases hv : (r.build .esp32s3).version = v <;> simp [List.lookup_cons, hkind, hkey, hv]
  | esp32c3 =>
    refine ⟨image', ota', hota', fun v => ?_⟩
    by_cases hv : (r.build .esp32c3).version = v <;> simp [List.lookup_cons, hkind, hkey, hv]

/-- The second loop leaves, of each target, what its artifact holds. -/
theorem copyOta_ota (hm : IsOtaFile t v m) (hart : r.artifacts w = some artifacts)
    (hstart : files.find [m] = none)
    (h : run (copyOta o v artifacts) files targets = some files') :
    files'.find [m] = (artifacts.lookup (otaArtifact t v)).bind fun ota => ota.find [m] := by
  have hall : ∀ ts u, run (copyOta o v artifacts) files ts = some u → u.find [m] =
      if t ∈ ts then (artifacts.lookup (otaArtifact t v)).bind fun ota => ota.find [m]
      else none := by
    apply run_induction
    · simpa using hstart
    · intro ts u t' u' _ ih hcopy
      obtain ⟨image, ota, hota, hlookup⟩ := r.lookup_ota hart t'
      by_cases hversion : (r.build t').version = v
      · have hdir := (hlookup v).trans (if_pos hversion)
        rw [find_copyOta hota hdir hcopy, ih]
        by_cases ht : t = t'
        · subst ht
          rw [if_pos (List.mem_concat_self), hdir, Option.bind_some]
          split
          · exact Option.or_self
          · exact Option.or_none
        · have hnone : ota.find [m] = none := by
            by_contra hfile
            exact ht (hm.inj (hversion ▸ hota.isOtaFile hfile))
          simp [hnone, ht]
      · have hdir := (hlookup v).trans (if_neg hversion)
        rw [copyOta, hdir] at hcopy
        obtain rfl := Option.some.inj hcopy
        rw [ih]
        by_cases ht : t = t'
        · subst ht
          simp [hdir]
        · simp [ht]
  rw [hall targets files' h, if_pos (by cases t <;> decide)]

theorem copyLatest_ota (hm : IsOtaFile t v m) (h : run copyLatest files targets = some files') :
    files'.find [m] = files.find [m] := by
  apply run_induction (P := fun _ u => u.find [m] = files.find [m]) _ _ _ _ h
  · rfl
  · intro ts u t' u' _ ih hcopy
    unfold copyLatest at hcopy
    split at hcopy
    · rw [find_write_ota (latestName_not_ota t') hm hcopy, ih]
    · rw [← Option.some.inj hcopy, ih]

/-- The files for updates of a release are those of the jobs that named their version like the
tag. -/
theorem releaseFiles_find (h : r.releaseFiles w = some files) (t : Target) :
    ∃ image ota, OtaFiles w t (r.build t) image ota ∧ ∀ m, IsOtaFile t r.refName.text m →
      files.find [m] = if (r.build t).version = r.refName.text then ota.find [m] else none := by
  obtain ⟨artifacts, hart, hfiles⟩ := Option.bind_eq_some_iff.mp h
  obtain ⟨image, ota, hota, hlookup⟩ := r.lookup_ota hart t
  refine ⟨image, ota, hota, fun m hm => ?_⟩
  simp only [prepareReleaseFiles, Option.bind_eq_bind, Option.bind_eq_some_iff] at hfiles
  obtain ⟨f₁, hzip, f₂, hcopy, f₃, hlatest, hreadme⟩ := hfiles
  have hprepared : f₃.find [m] =
      if (r.build t).version = r.refName.text then ota.find [m] else none := by
    rw [copyLatest_ota hm hlatest, copyOta_ota hm hart (zipFirmware_ota hm hzip) hcopy, hlookup]
    split <;> rfl
  split at hreadme
  · rw [find_write_ota readmeName_not_ota hm hreadme, hprepared]
  · rw [← Option.some.inj hreadme, hprepared]

/-- A manifest among the files of a release announces the image that lies beside it, which the
job of its target has built. -/
theorem releaseFiles_manifest (h : r.releaseFiles w = some files) {c : Content}
    (hc : files.content [otaManifestName t] = some c) :
    ∃ image, files.content [firmwareOtaName t r.refName.text] = some image ∧
      (∃ n, otaBin (r.build t).order (r.build t).build = some n ∧
        (r.build t).build.content [n] = some image) ∧
      c = createOtaManifest w t r.refName.text image (r.build t).date := by
  obtain ⟨image, ota, hota, hfind⟩ := releaseFiles_find h t
  have hmanifest := hfind _ (.inl rfl)
  rw [content_eq_some_iff.mp hc] at hmanifest
  split_ifs at hmanifest with hversion
  rw [hota.find, if_pos rfl, hversion] at hmanifest
  refine ⟨image, ?_, hota.picked, Entry.file.inj (Option.some.inj hmanifest)⟩
  rw [content_eq_some_iff, hfind _ (.inr rfl), if_pos hversion, hota.find,
    if_neg otaManifestName_ne_firmwareOtaName.symm, hversion, if_pos rfl]

/-- A release has a manifest for each target whose job named its version like the tag. -/
theorem releaseFiles_isSome (h : r.releaseFiles w = some files) (t : Target) :
    (files.content [otaManifestName t]).isSome ↔ (r.build t).version = r.refName.text := by
  obtain ⟨image, ota, hota, hfind⟩ := releaseFiles_find h t
  have hmanifest := hfind _ (.inl rfl)
  rw [hota.find, if_pos rfl] at hmanifest
  unfold FileTree.content
  rw [hmanifest]
  by_cases hversion : (r.build t).version = r.refName.text
  · simp [hversion]
  · simp [hversion]

/-! ## A sample release

A build with the data of the OTA partition beside its application, for the runs on fixed
inputs of the modules below. -/

/-- An image with its version where a device looks for it. -/
def sampleImage (v : Text) : Content := List.replicate 48 1 ++ bytes v ++ List.replicate 250 0

def sampleWorkflow : Workflow where
  repository := homeNode
  sha256sum _ := "893c172baa019a7bc919e5b8255d39258346a9953f305d0b115076f2cc26cbed".toList
  sha256sum_length _ := rfl
  sha256sum_word _ := by decide
  zip _ := bytes "PK".toList

def sampleTree (image : Content) : Option (FileTree Content) := do
  let t ← FileTree.empty.mkdir [bootloader]
  let t ← t.write [bootloaderBin, bootloader] [2]
  let t ← t.mkdir [partitionTable]
  let t ← t.write [partitionTableBin, partitionTable] [3]
  let t ← t.write ["ota_data_initial.bin".toList] [255]
  let t ← t.write ["home-node.elf".toList] [4]
  t.write ["home-node.bin".toList] image

theorem sampleTree_isSome (image : Content) : (sampleTree image).isSome := rfl

def sampleDate : Date := ⟨"2026-01-31T12:00:00Z".toList, by decide, by decide⟩

/-- Both targets are built from the tag. -/
def sampleRun (tag : Tag) : Run where
  refName := tag
  build _ :=
    { exactTag := some tag
      describe := tag.text
      order := ⟨id, List.Perm.refl⟩
      build := (sampleTree (sampleImage tag.text)).get (sampleTree_isSome _)
      flashInfo := []
      date := sampleDate }
  order := ⟨id, List.Perm.refl⟩

def stableTag : Tag := ⟨"v1.0".toList, by decide, by decide⟩
def betaTag : Tag := ⟨"v1.1-beta".toList, by decide, by decide⟩

theorem releaseFiles_sample :
    (sampleRun stableTag).releaseFiles sampleWorkflow ≠ none ∧
      (sampleRun betaTag).releaseFiles sampleWorkflow ≠ none := by
  decide +kernel

end HomeNode.Release
