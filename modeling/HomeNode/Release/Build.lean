-- SUMMARY: The CI jobs that build a tagged version: its name, the image for updates, the manifest that announces it, and the artifacts.
import Mathlib.Data.List.Infix
import HomeNode.Flash.Artifact
import HomeNode.Lib.FlatJson

/-!
# The build of a release

The jobs of the build matrix of `build.yml` on a pushed tag. The name that a job gives
its version comes from `git describe`, which need not name the tag that was pushed.
What the expressions of the workflow put into a script stands there as text, so tags
and repository names are words that no shell takes apart.
-/

namespace HomeNode.Release

open FileTree Flash

abbrev Text := List Char
abbrev Content := List UInt8

/-- A text in a file. -/
def bytes (t : Text) : Content := t.map fun c => c.toNat.toUInt8

@[simp] theorem length_bytes (t : Text) : (bytes t).length = t.length := List.length_map _

@[simp] theorem bytes_append (s t : Text) : bytes (s ++ t) = bytes s ++ bytes t := List.map_append

/-! ## Names -/

def wordChar (c : Char) : Bool :=
  c.isAlphanum || c = '.' || c = '_' || c = '-' || c = '+'

/-- A tag that the workflow is triggered by. -/
structure Tag where
  text : Text
  starts : text.head? = some 'v'
  word : text.all wordChar
  deriving DecidableEq

/-- `github.repository` -/
structure Repository where
  owner : Text
  name : Text
  word : (owner ++ name).all wordChar

def Repository.text (r : Repository) : Text := r.owner ++ '/' :: r.name

/-- The repository of this program. -/
def homeNode : Repository := ⟨"khiyamiftikhar".toList, "gate-lock-home-node".toList, by decide⟩

/-- The build matrix. -/
inductive Target where
  | esp32s3
  | esp32c3
  deriving DecidableEq

def Target.text : Target → Text
  | .esp32s3 => "esp32s3".toList
  | .esp32c3 => "esp32c3".toList

/-- `TARGETS` -/
def targets : List Target := [.esp32s3, .esp32c3]

def firmwareOta : Name := "firmware-ota-".toList
def otaManifest : Name := "ota-manifest-".toList
def jsonExt : Name := ".json".toList

def firmwareOtaName (t : Target) (v : Text) : Name :=
  firmwareOta ++ t.text ++ ['-'] ++ v ++ binExt

def otaManifestName (t : Target) : Name := otaManifest ++ t.text ++ jsonExt

def firmwareArtifact (t : Target) (v : Text) : Name := t.text ++ "-firmware-".toList ++ v

def otaArtifact (t : Target) (v : Text) : Name := t.text ++ "-ota-".toList ++ v

def githubUrl : Text := "https://github.com/".toList
def downloadPath : Text := "/releases/download/".toList
def tagPath : Text := "/releases/tag/".toList

/-- The address of a file of a release. -/
def downloadUrl (repo : Repository) (v : Text) (file : Name) : Text :=
  githubUrl ++ repo.text ++ downloadPath ++ v ++ ['/'] ++ file

def changelogUrl (repo : Repository) (v : Text) : Text := githubUrl ++ repo.text ++ tagPath ++ v

/-! ## The steps -/

/-- What all runs of the workflow share: the repository, and the programs that hash and pack. -/
structure Workflow where
  repository : Repository
  sha256sum : Content → Text
  sha256sum_length : ∀ c, (sha256sum c).length = 64
  sha256sum_word : ∀ c, (sha256sum c).all wordChar
  zip : FileTree Content → Content

/-- What `date -u +%Y-%m-%dT%H:%M:%SZ` prints. -/
structure Date where
  text : Text
  length : text.length = 20
  digits : text.all fun c => wordChar c || c = ':'

/-- A job of the matrix: what `git describe` answers in its checkout, the build with the order
in which it is listed, the text of `flash_info.txt`, and the date. -/
structure BuildJob where
  exactTag : Option Tag
  describe : Text
  order : Listing
  build : FileTree Content
  flashInfo : Content
  date : Date

/-- `Get Version from Tag` -/
def BuildJob.version (j : BuildJob) : Text :=
  match j.exactTag with
  | some tag => tag.text
  | none => j.describe ++ "-dev".toList

/-- `PROJECT_VER`, with the variable `VERSION` of the environment. -/
def projectVer (version : Option Text) (gitVersion : Text) : Text := version.getD gitVersion

def partitionTableWord : Name := "partition-table".toList

/-- The binary that `ls`, three `grep`s and `head -1` come to. -/
def otaBin (o : Listing) (b : FileTree Content) : Option Name :=
  ((o.order (b.names [])).filter fun n =>
    n.head? != some '.' && binExt.isSuffixOf n && !decide (bootloader <:+: n) &&
      !decide (partitionTableWord <:+: n)).head?

/-- The members of the manifest in `Create OTA manifest`. -/
def manifestMembers (w : Workflow) (t : Target) (v : Text) (image : Content) (date : Date) :
    List FlatJson.Member :=
  [(CStr.ascii "version", .string (bytes v)),
    (CStr.ascii "target", .string (bytes t.text)),
    (CStr.ascii "firmware_url", .string (bytes (downloadUrl w.repository v (firmwareOtaName t v)))),
    (CStr.ascii "firmware_size", .number image.length),
    (CStr.ascii "checksum", .string (bytes (w.sha256sum image))),
    (CStr.ascii "release_date", .string (bytes date.text)),
    (CStr.ascii "changelog_url", .string (bytes (changelogUrl w.repository v)))]

/-- The text that the here-document writes, which ends a line. -/
def createOtaManifest (w : Workflow) (t : Target) (v : Text) (image : Content) (date : Date) :
    Content :=
  FlatJson.objectText (manifestMembers w t v image date) ++ bytes ['\n']

/-- `Create OTA firmware file` and `Create OTA manifest`. Without a binary `cp` is given the
build directory, and refuses it. -/
def BuildJob.otaFiles (w : Workflow) (t : Target) (j : BuildJob) : Option (FileTree Content) := do
  let n ← otaBin j.order j.build
  let image ← j.build.content [n]
  let ota ← FileTree.empty.write [firmwareOtaName t j.version] image
  ota.write [otaManifestName t] (createOtaManifest w t j.version image j.date)

/-- An uploaded directory under its name. -/
abbrev Artifact := Name × FileTree Content

/-- The job up to its uploads, on a tag. -/
def BuildJob.run (w : Workflow) (t : Target) (j : BuildJob) : Option (List Artifact) := do
  let firmware ← archiveFirmware j.order j.build j.flashInfo
  let ota ← j.otaFiles w t
  return [(firmwareArtifact t j.version, firmware), (otaArtifact t j.version, ota)]

/-! ## What the jobs leave -/

variable {w : Workflow} {t t' : Target} {v v' : Text} {j : BuildJob}

theorem Target.text_inj : t.text = t'.text ↔ t = t' := by
  cases t <;> cases t' <;> decide

theorem Target.length_text (t : Target) : t.text.length = 7 := by
  cases t <;> rfl

theorem otaManifestName_inj : otaManifestName t = otaManifestName t' ↔ t = t' := by
  cases t <;> cases t' <;> decide

/-- Names of one kind are the same only if target and version are. -/
theorem name_inj (pre kind ext : Name) :
    pre ++ t.text ++ kind ++ v ++ ext = pre ++ t'.text ++ kind ++ v' ++ ext ↔ t = t' ∧ v = v' := by
  simp only [List.append_assoc]
  constructor
  · intro h
    obtain ⟨ht, hrest⟩ := List.append_inj (List.append_cancel_left h)
      (by rw [t.length_text, t'.length_text])
    exact ⟨Target.text_inj.mp ht, List.append_cancel_right (List.append_cancel_left hrest)⟩
  · rintro ⟨rfl, rfl⟩
    rfl

theorem firmwareOtaName_inj : firmwareOtaName t v = firmwareOtaName t' v' ↔ t = t' ∧ v = v' :=
  name_inj _ _ _

theorem firmwareOtaName_fits (t : Target) (v : Text) :
    firmwareOta <+: firmwareOtaName t v ∧ binExt <:+ firmwareOtaName t v := by
  refine ⟨?_, List.suffix_append _ _⟩
  simp only [firmwareOtaName, List.append_assoc]
  exact List.prefix_append _ _

theorem otaManifestName_fits (t : Target) :
    otaManifest <+: otaManifestName t ∧ jsonExt <:+ otaManifestName t := by
  refine ⟨?_, List.suffix_append _ _⟩
  simp only [otaManifestName, List.append_assoc]
  exact List.prefix_append _ _

theorem otaManifestName_head (t : Target) : (otaManifestName t).head? = some 'o' := by
  cases t <;> rfl

theorem firmwareOtaName_head (t : Target) (v : Text) :
    (firmwareOtaName t v).head? = some 'f' := by
  cases t <;> rfl

theorem ne_of_head {m n : Name} {c d : Char} (hm : m.head? = some c) (hn : n.head? = some d)
    (hne : c ≠ d) : m ≠ n := by
  rintro rfl
  exact hne (Option.some.inj (hm.symm.trans hn))

theorem otaManifestName_ne_firmwareOtaName : otaManifestName t ≠ firmwareOtaName t' v :=
  ne_of_head (otaManifestName_head t) (firmwareOtaName_head t' v) (by decide)

theorem otaArtifact_inj : otaArtifact t v = otaArtifact t' v' ↔ t = t' ∧ v = v' := by
  rw [← name_inj [] "-ota-".toList [], List.nil_append, List.nil_append, List.append_nil,
    List.append_nil]
  rfl

theorem otaArtifact_ne_firmwareArtifact : otaArtifact t v ≠ firmwareArtifact t' v' := by
  intro h
  simp only [otaArtifact, firmwareArtifact, List.append_assoc] at h
  obtain ⟨-, hrest⟩ := List.append_inj h (by rw [t.length_text, t'.length_text])
  have hota : ("-ota-".toList ++ v)[1]? = some 'o' := rfl
  have hfirmware : ("-firmware-".toList ++ v')[1]? = some 'f' := rfl
  rw [hrest, hfirmware] at hota
  exact absurd hota (by decide)

/-- The files of a job for updates: the image that it picked, and the manifest of this image. -/
structure OtaFiles (w : Workflow) (t : Target) (j : BuildJob) (image : Content)
    (ota : FileTree Content) : Prop where
  picked : ∃ n, otaBin j.order j.build = some n ∧ j.build.content [n] = some image
  find : ∀ m, ota.find [m] =
    if m = otaManifestName t then some (.file (createOtaManifest w t j.version image j.date))
    else if m = firmwareOtaName t j.version then some (.file image)
    else none

theorem otaFiles_eq_some {ota : FileTree Content} (h : j.otaFiles w t = some ota) :
    ∃ image, OtaFiles w t j image ota := by
  simp only [BuildJob.otaFiles, Option.bind_eq_bind, Option.bind_eq_some_iff] at h
  obtain ⟨n, hn, image, himage, files, hfiles, hota⟩ := h
  obtain ⟨hdir, hnew, rfl⟩ := FileTree.write_eq_some hfiles
  obtain ⟨hdir', hnew', rfl⟩ := FileTree.write_eq_some hota
  refine ⟨image, ⟨n, hn, himage⟩, fun m => ?_⟩
  rw [find_put, find_put]
  simp

/-- What a job has uploaded for updates, under the name of its version. -/
theorem run_eq_some {artifacts : List Artifact} (h : j.run w t = some artifacts) :
    ∃ firmware ota image, OtaFiles w t j image ota ∧
      artifacts = [(firmwareArtifact t j.version, firmware), (otaArtifact t j.version, ota)] := by
  simp only [BuildJob.run, Option.bind_eq_bind, Option.bind_eq_some_iff] at h
  obtain ⟨firmware, -, ota, hota, heq⟩ := h
  obtain ⟨image, hfiles⟩ := otaFiles_eq_some hota
  exact ⟨firmware, ota, image, hfiles, (Option.some.inj heq).symm⟩

end HomeNode.Release
