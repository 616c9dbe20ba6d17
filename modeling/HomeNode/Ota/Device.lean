-- SUMMARY: A device over its updates, restarts and rollbacks, and when what it installs is what was announced.
import HomeNode.Ota.Delivery
import HomeNode.Ota.Manifest
import Mathlib.Data.List.Chain

/-!
# The device

The iterations of `ota_task` see the running image through its description, and a
committed image becomes the running one by a restart. Nothing in an iteration
compares the image it has written with the manifest that announced it.
-/

namespace HomeNode.Ota

open Transition

/-- `esp_app_desc_t.version` of an image: 32 bytes behind the image header, the segment
header and the first four words of the description. -/
def imageVersion (img : List UInt8) : CStr := .ofBuffer ((img.drop (24 + 8 + 16)).take 32)

/-- A device and the versions of its images. `busy`: an iteration has not come back yet.
`pending` is the image that was committed since the boot, `fallback` the one to return to
while the running image is not validated, `invalid` the one that was last marked invalid.
`installs` lists the commits. -/
structure Device where
  ota : OtaState
  busy : Bool
  running : CStr
  pending : Option CStr
  fallback : Option CStr
  invalid : Option CStr
  installs : List CStr

inductive DeviceLabel where
  /-- an iteration of `ota_task` -/
  | cycle (e : CycleEnv)
  | restart
  /-- `ota_set_valid(true)` -/
  | validate
  /-- `ota_set_valid(false)`, or a restart before the image was validated -/
  | rollback

namespace Device

/-- A device that runs `v`, with `invalid` in its last invalid partition. -/
def start (v : CStr) (invalid : Option CStr) : Device :=
  ⟨.init, false, v, none, none, invalid, []⟩

/-- The description of the running partition, when it can be read, is the running image's. -/
def sees (d : Device) (e : CycleEnv) : CycleEnv :=
  { e with running := e.running.map fun _ => d.running }

/-- The iteration that the device makes. -/
def cycle (cfg : Config) (d : Device) (e : CycleEnv) : CycleResult := otaCycle cfg d.ota (d.sees e)

def step (cfg : Config) (d : Device) : DeviceLabel → Option Device
  | .cycle e =>
    let r := d.cycle cfg e
    let version := imageVersion (writtenBytes r.calls)
    if d.busy then none
    else if r.exit.commits then
      some { d with ota := r.state, pending := some version, installs := d.installs ++ [version] }
    else some { d with ota := r.state, busy := r.exit = .blocked }
  | .restart =>
    match d.pending, d.fallback with
    | some v, _ => some { d with
        ota := .init, busy := false, running := v, pending := none, fallback := some d.running }
    | none, none => some { d with ota := .init, busy := false }
    | none, some _ => none
  | .validate => some { d with fallback := none }
  | .rollback =>
    match d.pending, d.fallback with
    | none, some v => some { d with
        ota := .init, busy := false, running := v, fallback := none, invalid := some d.running }
    | _, _ => none

/-- The image that an iteration brings to `esp_ota_set_boot_partition`. -/
def committable (cfg : Config) (d : Device) (e : CycleEnv) : Option (List UInt8) :=
  Ota.committable cfg d.ota (d.sees e)

/-- What an iteration of a device installs, read off its inputs. -/
def installed (cfg : Config) (d : Device) (e : CycleEnv) : Option CStr :=
  if e.setBootOk then (d.committable cfg e).map imageVersion else none

/-! ## Steps -/

section

variable {cfg : Config} {d d' : Device} {e : CycleEnv}

/-- An iteration installs what its inputs say, and changes nothing else but the state of
the service. -/
theorem step_cycle (h : d.step cfg (.cycle e) = some d') :
    ∃ busy, d' = { d with
      ota := (d.cycle cfg e).state
      busy := busy
      pending := (d.installed cfg e).or d.pending
      installs := d.installs ++ (d.installed cfg e).toList } := by
  have hcommits : (d.cycle cfg e).exit.commits = true ↔
      (d.committable cfg e).isSome = true ∧ e.setBootOk = true := otaCycle_commits_iff
  obtain ⟨-, h⟩ := Option.ite_none_left_eq_some.mp h
  by_cases hcommit : (d.cycle cfg e).exit.commits = true
  · obtain ⟨hsome, hboot⟩ := hcommits.mp hcommit
    obtain ⟨img, himg⟩ := Option.isSome_iff_exists.mp hsome
    have hwritten : writtenBytes (d.cycle cfg e).calls = img := otaCycle_written himg
    rw [if_pos hcommit, hwritten] at h
    refine ⟨d.busy, ?_⟩
    simpa [installed, hboot, himg] using h.symm
  · have hnone : d.installed cfg e = none := by
      unfold installed
      split_ifs with hboot
      · simpa [hboot] using mt hcommits.mpr hcommit
      · rfl
    rw [if_neg hcommit] at h
    refine ⟨decide ((d.cycle cfg e).exit = .blocked), ?_⟩
    rw [hnone]
    simpa using h.symm

/-- Only an iteration installs. -/
theorem step_installs {l : DeviceLabel} (h : d.step cfg l = some d') (hl : ∀ e, l ≠ .cycle e) :
    d'.installs = d.installs := by
  cases l with
  | cycle e => exact absurd rfl (hl e)
  | restart | rollback =>
    simp only [step] at h
    split at h <;> simp at h <;> simp [← h]
  | validate => exact Option.some.inj h ▸ rfl

end

end Device

/-! ## Announced images -/

/-- The size the manifest announces, as `manifest_t` holds it. -/
def announcedSize (cfg : Config) (s : OtaState) (e : CycleEnv) : Option Nat :=
  (responseManifest cfg s e.manifest).bind fun json =>
    json.firmwareSize.map fun n => (n % 2 ^ 32).toNat

/-- `w` is newer than `v`, by the comparison of `is_update_available`. -/
def Newer (v w : CStr) : Prop := 0 < CStr.strcmp w v

instance (v w : CStr) : Decidable (Newer v w) := inferInstanceAs (Decidable (0 < _))

/-- The image has the announced size, and is newer than the running one. -/
structure Announced (cfg : Config) (d : Device) (e : CycleEnv) (img : List UInt8) : Prop where
  size : ∀ n ∈ announcedSize cfg d.ota.cleared e, img.length = n
  newer : Newer d.running (imageVersion img)

instance (cfg : Config) (d : Device) (e : CycleEnv) (img : List UInt8) :
    Decidable (Announced cfg d e img) :=
  decidable_of_iff ((∀ n ∈ announcedSize cfg d.ota.cleared e, img.length = n) ∧
    Newer d.running (imageVersion img)) ⟨fun h => ⟨h.1, h.2⟩, fun h => ⟨h.size, h.newer⟩⟩

/-- The iteration calls `esp_ota_set_boot_partition` only for an announced image. -/
def CommitsAnnounced (cfg : Config) (d : Device) : DeviceLabel → Prop
  | .cycle e =>
    (∃ c ∈ (d.cycle cfg e).calls, c.isSetBoot = true) →
      Announced cfg d e (writtenBytes (d.cycle cfg e).calls)
  | _ => True

/-- If the inputs of the iteration bring an image to `esp_ota_set_boot_partition`, it is an
announced one; and it is newer than the last installed one if that call succeeds. -/
def DeliversAnnounced (cfg : Config) (d : Device) : DeviceLabel → Prop
  | .cycle e => ∀ img ∈ d.committable cfg e,
    Announced cfg d e img ∧
      (e.setBootOk = true → ∀ v ∈ d.installs.getLast?, Newer v (imageVersion img))
  | _ => True

instance (cfg : Config) (d : Device) : (l : DeviceLabel) → Decidable (DeliversAnnounced cfg d l)
  | .cycle e => inferInstanceAs (Decidable (∀ img ∈ d.committable cfg e, _))
  | .restart | .validate | .rollback => .isTrue trivial

/-- What the iteration installs is newer than what was installed last. -/
def InstallsNewer (cfg : Config) (d : Device) : DeviceLabel → Prop
  | .cycle e => ∀ w ∈ d.installed cfg e, ∀ v ∈ d.installs.getLast?, Newer v w
  | _ => True

theorem deliversAnnounced_iff (cfg : Config) (d : Device) (l : DeviceLabel) :
    (CommitsAnnounced cfg d l ∧ InstallsNewer cfg d l) ↔ DeliversAnnounced cfg d l := by
  cases l with
  | cycle e =>
    have hboot : (∃ c ∈ (d.cycle cfg e).calls, c.isSetBoot = true) ↔
        (d.committable cfg e).isSome = true := otaCycle_setBoot_iff
    unfold CommitsAnnounced InstallsNewer DeliversAnnounced Device.installed
    simp only [hboot]
    cases himg : d.committable cfg e with
    | none => simp
    | some img =>
      have hwritten : writtenBytes (d.cycle cfg e).calls = img := otaCycle_written himg
      cases e.setBootOk <;> simp [hwritten]
  | restart | validate | rollback => exact ⟨fun _ => trivial, fun _ => ⟨trivial, trivial⟩⟩

theorem installs_isChain_step {cfg : Config} {d d' : Device} {l : DeviceLabel}
    (h : d.step cfg l = some d') :
    d'.installs.IsChain Newer ↔ d.installs.IsChain Newer ∧ InstallsNewer cfg d l := by
  cases l with
  | cycle e =>
    obtain ⟨busy, rfl⟩ := Device.step_cycle h
    simp only [List.isChain_append, InstallsNewer]
    cases d.installed cfg e with
    | none => simp
    | some w => simp
  | restart | validate | rollback =>
    rw [Device.step_installs h (by simp)]
    exact ⟨fun h => ⟨h, trivial⟩, fun h => h.1⟩

/-- A device installs what the manifests announced, ever newer versions, exactly when
nothing else comes to `esp_ota_set_boot_partition` by the inputs of an iteration. -/
theorem installsAnnounced_iff {cfg : Config} {v : CStr} {invalid : Option CStr}
    {ls : List DeviceLabel} {d : Device}
    (hrun : Transition.run (Device.step cfg) (.start v invalid) ls = some d) :
    (Throughout (Device.step cfg) (CommitsAnnounced cfg) (.start v invalid) ls ∧
        d.installs.IsChain Newer) ↔
      Throughout (Device.step cfg) (DeliversAnnounced cfg) (.start v invalid) ls := by
  have htrue : Preserved (Device.step cfg) fun _ => True := fun _ _ _ _ _ => trivial
  have hchain := good_iff_throughout htrue (fun _ _ _ _ hstep => installs_isChain_step hstep)
    trivial List.IsChain.nil hrun
  rw [hchain, ← throughout_and]
  exact throughout_congr fun _ l u _ _ => deliversAnnounced_iff cfg u l

/-- An image of 300 bytes with this version, for an update under the handle 1. -/
def versionPacket (v : CStr) : ReadEnv where
  read := .data ((CharArray.zeros 300).write 48 v.bytes).bytes
  begin := some 1

/-- The manifest announces `v2`, and its firmware URL leads to this image. -/
def versionCycle (v : CStr) : CycleEnv :=
  sampleCycle [sampleLocation] [versionPacket v, { read := .data [] },
    { read := .data [], complete := true }]

theorem nulFree_v1 : 0 ∉ CStr.ascii "v1" := by decide

theorem nulFree_v2 : 0 ∉ CStr.ascii "v2" := by decide

def sampleV1 : CStr := ⟨CStr.ascii "v1", nulFree_v1⟩

def sampleV2 : CStr := ⟨CStr.ascii "v2", nulFree_v2⟩

/-- A device that runs `v1` gets the announced image. -/
theorem installsAnnounced_v2 :
    ∃ d, Transition.run (Device.step sampleConfig) (.start sampleV1 none)
        [.cycle (versionCycle sampleV2), .restart] = some d ∧
      d.running = sampleV2 ∧ d.installs.IsChain Newer := by
  have hrun : (Transition.run (Device.step sampleConfig) (.start sampleV1 none)
      [.cycle (versionCycle sampleV2), .restart]).map Device.running = some sampleV2 := by
    decide +kernel
  obtain ⟨d, hd, hrunning⟩ := Option.map_eq_some_iff.mp hrun
  exact ⟨d, hd, hrunning, ((installsAnnounced_iff hd).mpr (by decide +kernel)).2⟩

/-- Another one is installed as well: `v0` replaces `v1`. -/
theorem not_installsAnnounced_downgrade :
    ¬ ∀ cfg v invalid ls d,
      Transition.run (Device.step cfg) (.start v invalid) ls = some d →
        Throughout (Device.step cfg) (CommitsAnnounced cfg) (.start v invalid) ls ∧
          d.installs.IsChain Newer := by
  intro h
  have hrun : (Transition.run (Device.step sampleConfig) (.start sampleV1 none)
      [.cycle (versionCycle ⟨CStr.ascii "v0", by decide⟩)]).isSome = true := by decide +kernel
  obtain ⟨d, hd⟩ := Option.isSome_iff_exists.mp hrun
  have hcommits := (h sampleConfig sampleV1 none _ d hd).1 [] _ _ (List.prefix_refl _) rfl
  exact absurd (hcommits ⟨.setBootPartition 1 true, by decide +kernel, rfl⟩).newer
    (by decide +kernel)

end HomeNode.Ota
