-- SUMMARY: Consistently built releases: when a device stays with the release it runs, and away from the one it rolled back.
import HomeNode.Ota.Device

/-!
# The fixpoint of an update

One build writes the tag of a release into the manifest and into the image. The
tag comes back to the device in two fields: 63 of its characters in `manifest_t`,
31 in the description of an image. `is_update_available` and
`detect_last_invalid_app` compare the one with the other.
-/

namespace HomeNode.Ota

open Transition

/-- `PROJECT_VER` as the description of the image holds it. -/
def builtVersion (tag : CStr) : CStr := tag.take 31

/-- The iteration compares versions: the gate is open, and the manifest was fetched. -/
def compares (cfg : Config) (d : Device) (e : CycleEnv) : Bool :=
  !e.validationPending && (fetchOtaManifest cfg d.ota.cleared e.manifest).ret = some true

/-- The version that it compares. -/
def fetchedVersion (cfg : Config) (d : Device) (e : CycleEnv) : CStr :=
  (fetchOtaManifest cfg d.ota.cleared e.manifest).state.manifest.version.str

/-- What the iteration is given comes from builds of this release: the manifest, the image,
and the description of the last invalid partition, if it can be read. -/
structure BuiltAs (cfg : Config) (tag : CStr) (d : Device) (e : CycleEnv) : Prop where
  manifest : ∀ json ∈ responseManifest cfg d.ota.cleared e.manifest, json.version = some tag
  image : ∀ img ∈ d.committable cfg e, imageVersion img = builtVersion tag
  invalid : d.invalid = some (builtVersion tag) →
    e.lastInvalid = some none ∨ e.lastInvalid = some (some (builtVersion tag))

instance (cfg : Config) (tag : CStr) (d : Device) (e : CycleEnv) :
    Decidable (BuiltAs cfg tag d e) :=
  decidable_of_iff
    ((∀ json ∈ responseManifest cfg d.ota.cleared e.manifest, json.version = some tag) ∧
      (∀ img ∈ d.committable cfg e, imageVersion img = builtVersion tag) ∧
      (d.invalid = some (builtVersion tag) →
        e.lastInvalid = some none ∨ e.lastInvalid = some (some (builtVersion tag))))
    ⟨fun h => ⟨h.1, h.2.1, h.2.2⟩, fun h => ⟨h.manifest, h.image, h.invalid⟩⟩

/-- Every iteration that gets a manifest is given this release. -/
def Released (cfg : Config) (tag : CStr) (d : Device) : DeviceLabel → Prop
  | .cycle e => compares cfg d e = true → BuiltAs cfg tag d e
  | _ => True

instance (cfg : Config) (tag : CStr) (d : Device) :
    (l : DeviceLabel) → Decidable (Released cfg tag d l)
  | .cycle e => inferInstanceAs (Decidable (compares cfg d e = true → BuiltAs cfg tag d e))
  | .restart | .validate | .rollback => .isTrue trivial

/-- A device that runs the release takes it for no update, and one whose last invalid image
it is knows it as invalid. -/
def Skips (cfg : Config) (tag : CStr) (d : Device) : DeviceLabel → Prop
  | .cycle e => compares cfg d e = true →
    (d.running = builtVersion tag →
      isUpdateAvailable (d.sees e).running (fetchedVersion cfg d e) = false) ∧
    (d.invalid = some (builtVersion tag) →
      detectLastInvalidApp e.lastInvalid (fetchedVersion cfg d e) = .invalidVersion)
  | _ => True

/-- The image holds the whole tag, and what must be known of the last invalid partition can
be read. -/
def TagFits (cfg : Config) (tag : CStr) (d : Device) : DeviceLabel → Prop
  | .cycle e => compares cfg d e = true →
    (d.running = builtVersion tag → e.running ≠ none → tag.length ≤ 31) ∧
    (d.invalid = some (builtVersion tag) → tag.length ≤ 31 ∧ e.lastInvalid ≠ some none)
  | _ => True

instance (cfg : Config) (tag : CStr) (d : Device) :
    (l : DeviceLabel) → Decidable (TagFits cfg tag d l)
  | .cycle e => inferInstanceAs (Decidable (compares cfg d e = true → _ ∧ _))
  | .restart | .validate | .rollback => .isTrue trivial

/-- Between a commit and the restart, nothing is installed. -/
def AwaitsRestart (cfg : Config) (d : Device) : DeviceLabel → Prop
  | .cycle e => d.pending ≠ none → d.installed cfg e = none
  | _ => True

instance (cfg : Config) (d : Device) : (l : DeviceLabel) → Decidable (AwaitsRestart cfg d l)
  | .cycle e => inferInstanceAs (Decidable (d.pending ≠ none → d.installed cfg e = none))
  | .restart | .validate | .rollback => .isTrue trivial

/-! ## Comparisons -/

section

variable {cfg : Config} {tag : CStr} {d : Device} {e : CycleEnv}

theorem fetchedVersion_eq (hbuilt : BuiltAs cfg tag d e) (h : compares cfg d e = true) :
    fetchedVersion cfg d e = tag.take 63 := by
  obtain ⟨-, hret⟩ : e.validationPending = false ∧
      (fetchOtaManifest cfg d.ota.cleared e.manifest).ret = some true := by
    simpa [compares] using h
  obtain ⟨json, hjson, hmanifest⟩ := fetchOtaManifest_holds hret
  have hversion := hmanifest.version.str
  rwa [hbuilt.manifest json hjson] at hversion

/-- A running release is taken for an update of itself when its tag was cut. -/
theorem isUpdateAvailable_built (tag : CStr) (running : Option CStr) :
    isUpdateAvailable (running.map fun _ => builtVersion tag) (tag.take 63) = false ↔
      (running ≠ none → tag.length ≤ 31) := by
  unfold isUpdateAvailable
  by_cases hempty : (tag.take 63).bytes = []
  · have hlen : tag.length = 0 := by simpa [CStr.length] using hempty
    rw [if_pos hempty]
    simp [hlen]
  · rw [if_neg hempty]
    cases running with
    | none => simp
    | some v =>
      have hcompare := CStr.strcmp_take_pos_iff tag (m := 31) (n := 63) (by decide)
      simpa [builtVersion] using hcompare.not

/-- An invalid one is known when it was not, and its description can be read. -/
theorem detectLastInvalidApp_built (hbuilt : BuiltAs cfg tag d e)
    (hinvalid : d.invalid = some (builtVersion tag)) :
    detectLastInvalidApp e.lastInvalid (tag.take 63) = .invalidVersion ↔
      tag.length ≤ 31 ∧ e.lastInvalid ≠ some none := by
  have hcompare : CStr.strcmp (builtVersion tag) (tag.take 63) = 0 ↔ tag.length ≤ 31 := by
    simpa [builtVersion] using CStr.strcmp_take_eq_zero_iff tag (m := 31) (n := 63) (by decide)
  rcases hbuilt.invalid hinvalid with h | h
  · simp [h, detectLastInvalidApp]
  · simp [h, detectLastInvalidApp, hcompare]

theorem skips_iff {l : DeviceLabel} (hreleased : Released cfg tag d l) :
    Skips cfg tag d l ↔ TagFits cfg tag d l := by
  cases l with
  | cycle e =>
    refine imp_congr_right fun hcompares => and_congr ?_ ?_
    · apply imp_congr_right
      intro hrunning
      rw [fetchedVersion_eq (hreleased hcompares) hcompares, ← isUpdateAvailable_built, ← hrunning]
      rfl
    · apply imp_congr_right
      intro hinvalid
      rw [fetchedVersion_eq (hreleased hcompares) hcompares]
      exact detectLastInvalidApp_built (hreleased hcompares) hinvalid
  | restart | validate | rollback => exact Iff.rfl

/-! ## Installs -/

/-- An iteration that installs has compared versions, and found nothing against it. -/
theorem installed_compares (h : d.installed cfg e ≠ none) :
    compares cfg d e = true ∧ isUpdateAvailable (d.sees e).running (fetchedVersion cfg d e) = true ∧
      detectLastInvalidApp e.lastInvalid (fetchedVersion cfg d e) ≠ .invalidVersion := by
  obtain ⟨img, himg⟩ : ∃ img, Ota.committable cfg d.ota (d.sees e) = some img := by
    rw [← Option.ne_none_iff_exists']
    rintro hnone
    simp [Device.installed, Device.committable, hnone] at h
  obtain ⟨hgate, hreaches, -⟩ := committable_eq_some.mp himg
  have hrequests : requestsFirmware cfg d.ota.cleared (d.sees e) = true := by
    simp only [reachesLoop, entersDownload, Bool.and_eq_true] at hreaches
    exact hreaches.1.1.1
  simp only [requestsFirmware, Bool.and_eq_true, decide_eq_true_eq] at hrequests
  obtain ⟨⟨hret, hvalid⟩, hnewer⟩ := hrequests
  refine ⟨?_, hnewer, hvalid⟩
  have hopen : e.validationPending = false := hgate
  have hfetched : (fetchOtaManifest cfg d.ota.cleared e.manifest).ret = some true := hret
  simp [compares, hopen, hfetched]

/-- A device that skips the release has neither run it nor rolled it back when it
installs it. -/
theorem Skips.installs (hskips : Skips cfg tag d (.cycle e)) (h : d.installed cfg e ≠ none) :
    d.running ≠ builtVersion tag ∧ d.invalid ≠ some (builtVersion tag) := by
  obtain ⟨hcompares, hnewer, hvalid⟩ := installed_compares h
  obtain ⟨hrunning, hinvalid⟩ := hskips hcompares
  refine ⟨fun heq => ?_, fun heq => hvalid (hinvalid heq)⟩
  simp [hrunning heq] at hnewer

end

/-- Where the device has the release once it has installed it. -/
structure Device.Keeps (d : Device) (tag : CStr) : Prop where
  recorded : d.pending ≠ none → d.installs ≠ []
  placed : d.installs ≠ [] → d.pending = some (builtVersion tag) ∨
    (d.pending = none ∧ d.running = builtVersion tag) ∨
    (d.pending = none ∧ d.fallback = none ∧ d.invalid = some (builtVersion tag))

/-- No release is installed twice. -/
def InstallsFirst (cfg : Config) (d : Device) : DeviceLabel → Prop
  | .cycle e => d.installed cfg e ≠ none → d.installs = []
  | _ => True

section

variable {cfg : Config} {tag : CStr} {d d' : Device} {l : DeviceLabel}

theorem Device.Keeps.step (h : d.Keeps tag) (hreleased : Released cfg tag d l)
    (hstep : d.step cfg l = some d') : d'.Keeps tag := by
  cases l with
  | cycle e =>
    obtain ⟨busy, rfl⟩ := Device.step_cycle hstep
    cases hinstalled : d.installed cfg e with
    | none => simpa using ⟨h.recorded, h.placed⟩
    | some w =>
      obtain rfl : w = builtVersion tag := by
        obtain ⟨-, img, himg, rfl⟩ : e.setBootOk = true ∧
            ∃ img, d.committable cfg e = some img ∧ imageVersion img = w := by
          simpa [Device.installed] using hinstalled
        exact (hreleased (installed_compares (by simp [hinstalled])).1).image img himg
      exact ⟨fun _ => by simp, fun _ => .inl rfl⟩
  | restart =>
    cases hpending : d.pending with
    | some w =>
      obtain rfl := Option.some.inj (by simpa [Device.step, hpending] using hstep)
      refine ⟨fun h => absurd rfl h, fun hinstalls => .inr (.inl ⟨rfl, ?_⟩)⟩
      simpa [hpending] using h.placed hinstalls
    | none =>
      cases hfallback : d.fallback with
      | some w => simp [Device.step, hpending, hfallback] at hstep
      | none =>
        obtain rfl := Option.some.inj (by simpa [Device.step, hpending, hfallback] using hstep)
        refine ⟨fun h => absurd rfl h, fun hinstalls => .inr ?_⟩
        simpa [hpending, hfallback] using h.placed hinstalls
  | validate =>
    obtain rfl := Option.some.inj hstep
    refine ⟨h.recorded, fun hinstalls => ?_⟩
    rcases h.placed hinstalls with h | h | ⟨hpending, -, hinvalid⟩
    · exact .inl h
    · exact .inr (.inl h)
    · exact .inr (.inr ⟨hpending, rfl, hinvalid⟩)
  | rollback =>
    cases hpending : d.pending with
    | some w => simp [Device.step, hpending] at hstep
    | none =>
      cases hfallback : d.fallback with
      | none => simp [Device.step, hpending, hfallback] at hstep
      | some w =>
        obtain rfl := Option.some.inj (by simpa [Device.step, hpending, hfallback] using hstep)
        refine ⟨fun h => absurd rfl h, fun hinstalls => .inr (.inr ⟨rfl, rfl, ?_⟩)⟩
        simpa [hpending, hfallback] using h.placed hinstalls

theorem installs_length_step (hstep : d.step cfg l = some d') :
    d'.installs.length ≤ 1 ↔ d.installs.length ≤ 1 ∧ InstallsFirst cfg d l := by
  cases l with
  | cycle e =>
    obtain ⟨busy, rfl⟩ := Device.step_cycle hstep
    cases hinstalled : d.installed cfg e with
    | none => simp [InstallsFirst, hinstalled]
    | some w =>
      simp only [InstallsFirst, ne_eq, hinstalled, reduceCtorEq, not_false_eq_true, forall_const,
        Option.toList_some, List.length_append, List.length_singleton, ← List.length_eq_zero_iff]
      omega
  | restart | validate | rollback =>
    rw [Device.step_installs hstep (by simp)]
    exact ⟨fun h => ⟨h, trivial⟩, fun h => h.1⟩

/-- A device that skips what it has runs into a second install only between a commit and
the restart. -/
theorem installsFirst_iff (hkeeps : d.Keeps tag) (hskips : Skips cfg tag d l) :
    InstallsFirst cfg d l ↔ AwaitsRestart cfg d l := by
  cases l with
  | cycle e =>
    constructor
    · intro hfirst hpending
      by_contra hinstalled
      exact hkeeps.recorded hpending (hfirst hinstalled)
    · intro hawaits hinstalled
      obtain ⟨hrunning, hinvalid⟩ := hskips.installs hinstalled
      by_contra hinstalls
      rcases hkeeps.placed hinstalls with h | ⟨-, h⟩ | ⟨-, -, h⟩
      · exact hinstalled (hawaits (by simp [h]))
      · exact hrunning h
      · exact hinvalid h
  | restart | validate | rollback => exact Iff.rfl

end

/-- Under one release a device skips the release that it runs or has rolled back, and
installs it at most once, exactly when the image holds the tag and nothing is installed
between the commit and the restart. -/
theorem fixpoint_iff {cfg : Config} {tag v : CStr} {invalid : Option CStr} {ls : List DeviceLabel}
    {d : Device} (hrun : Transition.run (Device.step cfg) (.start v invalid) ls = some d)
    (hreleased : Throughout (Device.step cfg) (Released cfg tag) (.start v invalid) ls) :
    (Throughout (Device.step cfg) (Skips cfg tag) (.start v invalid) ls ∧ d.installs.length ≤ 1) ↔
      Throughout (Device.step cfg) (fun d l => TagFits cfg tag d l ∧ AwaitsRestart cfg d l)
        (.start v invalid) ls := by
  have htrue : Preserved (Device.step cfg) fun _ => True := fun _ _ _ _ _ => trivial
  have hlength := good_iff_throughout htrue (fun _ _ _ _ hstep => installs_length_step hstep)
    trivial (by simp [Device.start]) hrun
  have hstart : (Device.start v invalid).Keeps tag :=
    ⟨fun h => absurd rfl h, fun h => absurd rfl h⟩
  rw [hlength, ← throughout_and]
  apply throughout_congr
  intro pre l u hpre hu
  have hkeeps : u.Keeps tag := hreleased.run (P := fun d => d.Keeps tag)
    (fun _ _ _ h hok hstep => h.step hok hstep) hstart ((List.prefix_append pre [l]).trans hpre) hu
  rw [← skips_iff (hreleased pre l u hpre hu)]
  exact and_congr_right (installsFirst_iff hkeeps)

/-! ## Two tags -/

/-- The manifest that the build writes, with the fields used here. -/
def releaseManifest (tag : CStr) : CStr where
  bytes := CStr.ascii "\x7b\"version\":\"" ++ tag.bytes ++
    CStr.ascii "\",\"firmware_url\":\"https://a/f\"\x7d"
  nulFree h := by
    simp only [List.mem_append, tag.nulFree, or_false] at h
    exact absurd h (by decide)

def releaseConfig (tag : CStr) : Config where
  manifestUrl := sampleConfig.manifestUrl
  cjsonParse body :=
    if body = releaseManifest tag then some { version := some tag, firmwareUrl := some sampleUrl }
    else none

/-- An iteration on the release. -/
def releaseCycle (tag : CStr) : CycleEnv :=
  { versionCycle (builtVersion tag) with
    manifest := {
      openOk := true
      reads := [⟨.data (releaseManifest tag).bytes, false⟩, ⟨.data [], true⟩] } }

/-- The release is installed, rolled back, and then known as invalid. -/
def rolledBackLabels (tag : CStr) : List DeviceLabel :=
  [.cycle (releaseCycle tag), .restart, .cycle (releaseCycle tag), .rollback,
    .cycle { releaseCycle tag with lastInvalid := some (some (builtVersion tag)) }]

/-- The release is installed, and installed again after the restart. -/
def reinstallLabels (tag : CStr) : List DeviceLabel :=
  [.cycle (releaseCycle tag), .restart, .cycle (releaseCycle tag)]

def longTag : CStr := ⟨CStr.ascii "v2.0.0-release-candidate-20251001", by decide⟩

theorem fixpoint_v2 :
    ∃ d, Transition.run (Device.step (releaseConfig sampleV2)) (.start sampleV1 none)
        (rolledBackLabels sampleV2) = some d ∧
      d.running = sampleV1 ∧ d.invalid = some sampleV2 ∧ d.installs.length ≤ 1 := by
  have hrun : (Transition.run (Device.step (releaseConfig sampleV2)) (.start sampleV1 none)
      (rolledBackLabels sampleV2)).map (fun d => (d.running, d.invalid)) =
        some (sampleV1, some sampleV2) := by decide +kernel
  obtain ⟨d, hd, hversions⟩ := Option.map_eq_some_iff.mp hrun
  obtain ⟨hrunning, hinvalid⟩ := Prod.mk.inj hversions
  have hreleased : Throughout (Device.step (releaseConfig sampleV2))
      (Released (releaseConfig sampleV2) sampleV2) (.start sampleV1 none)
      (rolledBackLabels sampleV2) := by decide +kernel
  exact ⟨d, hd, hrunning, hinvalid, ((fixpoint_iff hd hreleased).mpr (by decide +kernel)).2⟩

/-- A tag of 33 characters comes back cut from the image. -/
theorem not_fixpoint_longTag :
    ¬ ∀ cfg tag v invalid ls d, Transition.run (Device.step cfg) (.start v invalid) ls = some d →
      Throughout (Device.step cfg) (Released cfg tag) (.start v invalid) ls →
        Throughout (Device.step cfg) (Skips cfg tag) (.start v invalid) ls ∧
          d.installs.length ≤ 1 := by
  intro h
  have hrun : (Transition.run (Device.step (releaseConfig longTag)) (.start sampleV1 none)
      (reinstallLabels longTag)).map (fun d => d.installs.length) = some 2 := by decide +kernel
  obtain ⟨d, hd, hlength⟩ := Option.map_eq_some_iff.mp hrun
  have honce := (h _ longTag _ _ _ d hd (by decide +kernel)).2
  exact absurd (hlength ▸ honce) (by decide)

end HomeNode.Ota
