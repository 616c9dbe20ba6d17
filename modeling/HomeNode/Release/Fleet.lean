-- SUMMARY: Devices that ask for updates while releases go on: which images they install, and when they take a release.
import HomeNode.Ota.Fixpoint
import HomeNode.Release.Device

/-!
# The fleet

Any number of devices ask for the manifest of their target and make their iterations while
the release jobs take their steps. Between the answer for the manifest and the
download of the image, jobs may go on and devices may wait.
-/

namespace HomeNode.Release

open FileTree Ota Transition

/-! ## Addresses -/

def pagesUrl (repo : Repository) : Text :=
  "https://".toList ++ repo.owner ++ ".github.io/".toList ++ repo.name ++ ['/']

/-- The main address of the manifest of a target. -/
def manifestUrl (repo : Repository) (t : Target) : Text := pagesUrl repo ++ OtaDir.main.manifest t

/-- `FIRMWARE_URL` of the configuration, as it is by default. -/
def firmwareUrl : Target → Text
  | .esp32c3 =>
    "https://khiyamiftikhar.github.io/gate-lock-home-node/ota/ota-manifest-esp32c3.json".toList
  | .esp32s3 =>
    "https://khiyamiftikhar.github.io/gate-lock-home-node/ota/ota-manifest-esp32s3.json".toList

/-- Devices are configured with the addresses that their releases write to. -/
theorem firmwareUrl_eq (t : Target) : firmwareUrl t = manifestUrl homeNode t := by
  cases t <;> decide

/-- What the server of the pages answers. -/
def Forge.serve {ι : Type} (s : Forge ι) (repo : Repository) (url : Text) : Option Content :=
  if pagesUrl repo <+: url then
    s.pages.value.bind fun pages => pages.lookup (url.drop (pagesUrl repo).length)
  else none

theorem Forge.serve_manifestUrl {ι : Type} (s : Forge ι) (repo : Repository) (t : Target) :
    s.serve repo (manifestUrl repo t) =
      s.pages.value.bind fun pages => pages.lookup (OtaDir.main.manifest t) := by
  rw [Forge.serve, manifestUrl, if_pos (List.prefix_append _ _), List.drop_left]

/-! ## Devices in the field -/

/-- A device with the last answer it got for its manifest, and the images that it has
committed, in order. -/
structure Node where
  device : Device
  offered : Option Content
  images : List Content

/-- The configuration of a device with this `FIRMWARE_URL`. -/
def deviceConfig (cjsonParse : CStr → Option Json) (url : Text) : Config :=
  ⟨CStr.ofBuffer (bytes url), cjsonParse⟩

def Node.commits (cfg : Config) (n : Node) : DeviceLabel → Option Content
  | .cycle e =>
    let r := n.device.cycle cfg e
    if r.exit.commits then some (writtenBytes r.calls) else none
  | _ => none

def Node.step (cfg : Config) (n : Node) (l : DeviceLabel) : Option Node :=
  (n.device.step cfg l).map fun device =>
    { n with device, images := n.images ++ (n.commits cfg l).toList }

/-- The release jobs, and the devices. -/
structure Fleet (ι κ : Type) where
  forge : Forge ι
  nodes : κ → Node

inductive FleetLabel (ι κ : Type) where
  | forge (l : Label ι)
  /-- the pages are asked for the manifest of a device -/
  | ask (k : κ)
  | device (k : κ) (l : DeviceLabel)

section

variable {ι κ : Type} [DecidableEq ι] [DecidableEq κ] (w : Workflow) (site : Site)
  (jobs : ι → ReleaseJob w) (cjsonParse : CStr → Option Json) (url : κ → Text)

namespace Fleet

def start (device : κ → Device) : Fleet ι κ := ⟨.start, fun k => ⟨device k, none, []⟩⟩

def setNode (f : Fleet ι κ) (k : κ) (n : Node) : Fleet ι κ :=
  { f with nodes := Function.update f.nodes k n }

def step (f : Fleet ι κ) : FleetLabel ι κ → Option (Fleet ι κ)
  | .forge l => (f.forge.step w site jobs l).map fun forge => { f with forge }
  | .ask k => some (f.setNode k { f.nodes k with offered := f.forge.serve w.repository (url k) })
  | .device k l => ((f.nodes k).step (deviceConfig cjsonParse (url k)) l).map (f.setNode k)

/-- The servers answer a device with what they have: the pages with the manifest that was asked
for, the releases with the image at its address. Connections may fail at any time. -/
structure Answered (target : κ → Target) (f : Fleet ι κ) (k : κ) (e : CycleEnv) : Prop where
  manifest : e.manifest.openOk = true → e.manifest.status = 200 →
    ∃ m, (f.nodes k).offered = some m ∧
      Serves true (maxHttpRecvBuffer - 1) m e.manifest.reads
  image : ∀ i image,
    (fetchOtaManifest (deviceConfig cjsonParse (url k)) (f.nodes k).device.ota.cleared
        e.manifest).state.manifest.firmwareUrl.str =
      CStr.ofBuffer (bytes ((jobs i).imageUrl (target k))) →
    f.forge.download w.repository ((jobs i).imageUrl (target k)) = some image →
      Streams image [] e.reads

def Honest (target : κ → Target) (f : Fleet ι κ) : FleetLabel ι κ → Prop
  | .device k (.cycle e) => f.Answered w jobs cjsonParse url target k e
  | _ => True

end Fleet

end

/-! ## Assumptions -/

/-- The tag of a release, as devices know it. -/
def ReleaseJob.tag {w : Workflow} (j : ReleaseJob w) : CStr := CStr.ofBuffer (bytes j.version)

/-- Images are smaller than 2 GiB. -/
def Sized {ι : Type} {w : Workflow} (jobs : ι → ReleaseJob w) : Prop :=
  ∀ i t image, (jobs i).Built t image → image.length < 2 ^ 31

/-- What a build writes into its image: the `PROJECT_VER` of its job, which has `VERSION` in its
environment. Images are smaller than 2 GiB, and tags fit the description of an image. -/
structure Consistent {ι : Type} {w : Workflow} (jobs : ι → ReleaseJob w) : Prop where
  stamped : ∀ i t image, (jobs i).Built t image → imageVersion image =
    builtVersion (CStr.ofBuffer (bytes (projectVer (some ((jobs i).run.build t).version)
      ((jobs i).run.build t).describe)))
  size : Sized jobs
  tag : ∀ i, (jobs i).version.length ≤ 31

/-- An iteration in which nothing fails, and which is given the manifest `m` and some image. -/
structure Smooth (m : Content) (e : CycleEnv) : Prop where
  gate : e.validationPending = false
  opened : e.manifest.openOk = true
  status : e.manifest.status = 200
  served : Serves false (maxHttpRecvBuffer - 1) m e.manifest.reads
  performed : e.performOk = true
  redirected : e.redirectOpenOk = true
  partition : e.nextPartition.isSome = true
  delivered : (delivered e.reads).isSome = true
  complete : e.completeAfter = true
  ended : e.endOk = true
  booted : e.setBootOk = true

/-! ### A sample fleet

One device that runs an older version asks behind the releases of the sample run. -/

/-- The address of the release leads on to the image, which comes in one piece. -/
def sampleUpdate : CycleEnv where
  manifest := sampleFetch
  performHeaders := [sampleLocation]
  running := some (CStr.ofBuffer (CStr.ascii "v0.9"))
  nextPartition := some 1
  reads := [{ read := .data (sampleImage stableTag.text), begin := some 1 }, { read := .data [] },
    { read := .data [], complete := true }]

def sampleDevices : Unit → Ota.Device := fun _ => .start (CStr.ofBuffer (CStr.ascii "v0.9")) none

def sampleTarget : Unit → Target := fun _ => .esp32s3

def sampleUrl : Unit → Text := fun k => firmwareUrl (sampleTarget k)

def sampleStep : Fleet Bool Unit → FleetLabel Bool Unit → Option (Fleet Bool Unit) :=
  Fleet.step sampleWorkflow sampleSite sampleJobs (FlatJson.parse memberJson) sampleUrl

/-- The device is answered. -/
def sampleAsked : List (FleetLabel Bool Unit) := sampleLabels.map .forge ++ [.ask ()]

theorem sampleAsked_run : ∃ f, run sampleStep (.start sampleDevices) sampleAsked = some f ∧
    (f.nodes ()).offered = some sampleText ∧
    f.forge.download homeNode ((sampleJobs false).imageUrl .esp32s3) =
      some (sampleImage stableTag.text) := by
  have hrun : (run sampleStep (.start sampleDevices) sampleAsked).map (fun f =>
      ((f.nodes ()).offered,
        f.forge.download homeNode ((sampleJobs false).imageUrl .esp32s3))) =
      some (some sampleText, some (sampleImage stableTag.text)) := by
    decide +kernel
  obtain ⟨f, hf, heq⟩ := Option.map_eq_some_iff.mp hrun
  exact ⟨f, hf, Prod.mk.inj heq⟩

theorem sampleUpdate_streams : Streams (sampleImage stableTag.text) [] sampleUpdate.reads := by
  have hlen : (sampleImage stableTag.text).length ≤ maxHttpRecvBuffer := by decide +kernel
  simp [sampleUpdate, Streams, Read.bytes, hlen]

theorem sampleUpdate_smooth : Smooth sampleText sampleUpdate where
  gate := rfl
  opened := rfl
  status := rfl
  served := sampleFetch_serves false
  performed := rfl
  redirected := rfl
  partition := rfl
  delivered := by decide +kernel
  complete := rfl
  ended := rfl
  booted := rfl

/-- The device finds the address of the stable release. -/
theorem sampleUpdate_url {cfg : Config} (hparse : FlatJson.Parses cfg.cjsonParse memberJson)
    (o : OtaState) {i : Bool}
    (h : (fetchOtaManifest cfg o sampleUpdate.manifest).state.manifest.firmwareUrl.str =
      CStr.ofBuffer (bytes ((sampleJobs i).imageUrl .esp32s3))) : i = false := by
  obtain ⟨hwhole, hfetched⟩ := fetch_createOtaManifest hparse stableTag.word
    (show (sampleImage stableTag.text).length < 2 ^ 31 by decide +kernel) o
    sampleUpdate_smooth.opened sampleUpdate_smooth.status sampleUpdate_smooth.served
  have hret : (fetchOtaManifest cfg o sampleUpdate.manifest).ret = some true := by
    rw [hwhole rfl]
    decide +kernel
  rw [(hfetched hret).2.firmwareUrl] at h
  cases i with
  | false => rfl
  | true => exact absurd h (by decide +kernel)

theorem sampleAsked_honest : Throughout sampleStep
    (Fleet.Honest sampleWorkflow sampleJobs (FlatJson.parse memberJson) sampleUrl sampleTarget)
    (.start sampleDevices) sampleAsked := by
  intro pre l f hpre _
  have hl : l ∈ sampleAsked := hpre.subset (by simp)
  simp only [sampleAsked, List.mem_append, List.mem_map, List.mem_singleton] at hl
  rcases hl with ⟨l, -, rfl⟩ | rfl <;> exact trivial

theorem sampleUpdate_answered {f : Fleet Bool Unit}
    (hoffered : (f.nodes ()).offered = some sampleText)
    (hdownload : f.forge.download homeNode ((sampleJobs false).imageUrl .esp32s3) =
      some (sampleImage stableTag.text)) :
    f.Answered sampleWorkflow sampleJobs (FlatJson.parse memberJson) sampleUrl sampleTarget ()
      sampleUpdate where
  manifest _ _ := ⟨sampleText, hoffered, sampleFetch_serves true⟩
  image i image hurl himage := by
    obtain rfl := sampleUpdate_url (FlatJson.parses_parse memberJson) _ hurl
    obtain rfl := Option.some.inj (hdownload.symm.trans himage)
    exact sampleUpdate_streams

theorem sampleJobs_consistent : Consistent sampleJobs := by
  have hbuilt : ∀ {i t image}, (sampleJobs i).Built t image →
      image = sampleImage (sampleJobs i).version := by
    rintro i t image ⟨n, hpick, hpicked⟩
    have hall : ∀ n ∈ otaBin ((sampleJobs i).run.build t).order ((sampleJobs i).run.build t).build,
        ((sampleJobs i).run.build t).build.content [n] =
          some (sampleImage (sampleJobs i).version) := by
      cases i <;> cases t <;> decide +kernel
    exact Option.some.inj (hpicked.symm.trans (hall n hpick))
  constructor
  · intro i t image h
    rw [hbuilt h]
    cases i <;> cases t <;> decide +kernel
  · intro i t image h
    rw [hbuilt h]
    cases i <;> decide +kernel
  · intro i
    cases i <;> decide

/-- The device is answered, and makes its iteration. -/
def sampleUpdated : List (FleetLabel Bool Unit) := sampleAsked ++ [.device () (.cycle sampleUpdate)]

theorem sampleUpdated_honest : Throughout sampleStep
    (Fleet.Honest sampleWorkflow sampleJobs (FlatJson.parse memberJson) sampleUrl sampleTarget)
    (.start sampleDevices) sampleUpdated := by
  obtain ⟨f, hrun, hoffered, hdownload⟩ := sampleAsked_run
  exact (throughout_concat hrun).mpr ⟨sampleAsked_honest, sampleUpdate_answered hoffered hdownload⟩

theorem sampleUrl_eq (k : Unit) :
    sampleUrl k = manifestUrl sampleWorkflow.repository (sampleTarget k) :=
  firmwareUrl_eq _

section

variable {ι κ : Type} [DecidableEq ι] [DecidableEq κ] {w : Workflow} {site : Site}
  {jobs : ι → ReleaseJob w} {cjsonParse : CStr → Option Json} {url : κ → Text}
  {target : κ → Target} {f f' : Fleet ι κ} {ls : List (FleetLabel ι κ)}

/-! ## What devices install -/

/-- What a device was offered and has installed comes from releases that were deployed. -/
structure Node.Sourced (jobs : ι → ReleaseJob w) (forge : Forge ι) (t : Target) (n : Node) :
    Prop where
  offered : ∀ m, n.offered = some m →
    ∃ i, forge.phase i = .deployed ∧ (jobs i).manifest .main t = some m
  images : ∀ image ∈ n.images, ∃ i, forge.phase i = .deployed ∧
    channelOf (jobs i).version = .stable ∧ (jobs i).Built t image

structure Fleet.Sourced (w : Workflow) (site : Site) (jobs : ι → ReleaseJob w)
    (target : κ → Target) (f : Fleet ι κ) : Prop where
  forge : ∃ ls, Transition.run (Forge.step w site jobs) .start ls = some f.forge
  nodes : ∀ k, (f.nodes k).Sourced jobs f.forge (target k)

omit [DecidableEq ι] in
/-- One device changes. -/
theorem Fleet.nodes_setNode {P : κ → Node → Prop} {k : κ} {n : Node} (hn : P k n)
    (hf : ∀ k, P k (f.nodes k)) (k' : κ) : P k' ((f.setNode k n).nodes k') := by
  by_cases hk : k' = k
  · subst hk
    simpa [Fleet.setNode] using hn
  · simpa [Fleet.setNode, hk] using hf k'

omit [DecidableEq κ] in
/-- The release that a device was offered. -/
theorem Fleet.Sourced.announces (hf : f.Sourced w site jobs target)
    (hdistinct : Function.Injective fun i => (jobs i).version) {k : κ} {m : Content}
    (hm : (f.nodes k).offered = some m) :
    ∃ i image, f.forge.phase i = .deployed ∧ channelOf (jobs i).version = .stable ∧
      Announces f.forge (jobs i) (target k) m image := by
  obtain ⟨ls, hrun⟩ := hf.forge
  obtain ⟨i, hphase, hmanifest⟩ := (hf.nodes k).offered m hm
  obtain ⟨image, hannounces⟩ := (Forge.backed_run hdistinct hrun).announces hphase hmanifest
  exact ⟨i, image, hphase, ReleaseJob.channel hmanifest, hannounces⟩

omit [DecidableEq κ] in
/-- What an iteration comes to commit is the image of the release that the device was
offered. -/
theorem Fleet.Sourced.committable (hf : f.Sourced w site jobs target)
    (hparse : FlatJson.Parses cjsonParse memberJson) (hsize : Sized jobs)
    (hdistinct : Function.Injective fun i => (jobs i).version) {k : κ} {e : CycleEnv}
    (hanswered : f.Answered w jobs cjsonParse url target k e) {img : Content}
    (himg : (f.nodes k).device.committable (deviceConfig cjsonParse (url k)) e = some img) :
    ∃ i m, f.forge.phase i = .deployed ∧ channelOf (jobs i).version = .stable ∧
      Announces f.forge (jobs i) (target k) m img ∧
      responseManifest (deviceConfig cjsonParse (url k)) (f.nodes k).device.ota.cleared
          e.manifest =
        some (memberJson (manifestMembers w (target k) (jobs i).version img
          ((jobs i).run.build (target k)).date)) ∧
      Stored (fetchOtaManifest (deviceConfig cjsonParse (url k)) (f.nodes k).device.ota.cleared
        e.manifest).state.manifest w (target k) (jobs i).version img := by
  obtain ⟨hopen, hstatus⟩ := fetchOtaManifest_answered
    (requestsFirmware_fetched (committable_requests himg))
  obtain ⟨m, hm, hserves⟩ := hanswered.manifest hopen hstatus
  obtain ⟨i, image, hphase, hchannel, hannounces⟩ := hf.announces hdistinct hm
  obtain ⟨rfl, hresponse, hstored⟩ := hannounces.committable (e := (f.nodes k).device.sees e) hparse
    (hsize i (target k) image hannounces.built) hserves
    (fun h => hanswered.image i image h hannounces.address) himg
  exact ⟨i, m, hphase, hchannel, hannounces, hresponse, hstored⟩

theorem Node.commits_committable {cfg : Config} {n : Node} {e : CycleEnv} {img : Content}
    (h : n.commits cfg (.cycle e) = some img) : n.device.committable cfg e = some img := by
  obtain ⟨hcommits, hwritten⟩ := Option.ite_none_right_eq_some.mp h
  obtain ⟨img', himg⟩ := Option.isSome_iff_exists.mp (otaCycle_commits_iff.mp hcommits).1
  have hsame : writtenBytes (n.device.cycle cfg e).calls = img' := otaCycle_written himg
  rw [← Option.some.inj hwritten, hsame]
  exact himg

/-- A step adds to the images of a device only what it was offered. -/
theorem Fleet.Sourced.step (hf : f.Sourced w site jobs target)
    (hparse : FlatJson.Parses cjsonParse memberJson) (hsize : Sized jobs)
    (hdistinct : Function.Injective fun i => (jobs i).version)
    (hurl : ∀ k, url k = manifestUrl w.repository (target k)) {l : FleetLabel ι κ}
    (hhonest : f.Honest w jobs cjsonParse url target l)
    (hstep : f.step w site jobs cjsonParse url l = some f') : f'.Sourced w site jobs target := by
  obtain ⟨ls, hrun⟩ := hf.forge
  cases l with
  | forge l =>
    obtain ⟨forge, hforge, rfl⟩ := Option.map_eq_some_iff.mp hstep
    refine ⟨⟨ls ++ [l], run_concat.mpr ⟨_, hrun, hforge⟩⟩, fun k => ⟨fun m hm => ?_, ?_⟩⟩
    · obtain ⟨i, hphase, hmanifest⟩ := (hf.nodes k).offered m hm
      exact ⟨i, Forge.deployed_step hforge hphase, hmanifest⟩
    · intro image himage
      obtain ⟨i, hphase, hbuilt⟩ := (hf.nodes k).images image himage
      exact ⟨i, Forge.deployed_step hforge hphase, hbuilt⟩
  | ask k =>
    obtain rfl := Option.some.inj hstep
    refine ⟨⟨ls, hrun⟩, Fleet.nodes_setNode (P := fun k n => n.Sourced jobs f.forge (target k))
      ⟨fun m hm => ?_, (hf.nodes k).images⟩ hf.nodes⟩
    rw [hurl, Forge.serve_manifestUrl] at hm
    obtain ⟨pages, hpages, hlookup⟩ := Option.bind_eq_some_iff.mp hm
    exact Forge.manifest_deployed hdistinct hrun hpages hlookup
  | device k l =>
    obtain ⟨n, hnode, rfl⟩ := Option.map_eq_some_iff.mp hstep
    obtain ⟨d, -, rfl⟩ := Option.map_eq_some_iff.mp hnode
    refine ⟨⟨ls, hrun⟩, Fleet.nodes_setNode (P := fun k n => n.Sourced jobs f.forge (target k))
      ⟨(hf.nodes k).offered, fun image himage => ?_⟩ hf.nodes⟩
    rcases List.mem_append.mp himage with himage | himage
    · exact (hf.nodes k).images image himage
    · cases l with
      | cycle e =>
        obtain ⟨i, m, hphase, hchannel, hannounces, -⟩ :=
          hf.committable hparse hsize hdistinct hhonest
          (Node.commits_committable (Option.mem_toList.mp himage))
        exact ⟨i, hphase, hchannel, hannounces.built⟩
      | restart | validate | rollback => simp [Node.commits] at himage

omit [DecidableEq κ] in
theorem Fleet.sourced_start (device : κ → Device) :
    (Fleet.start device : Fleet ι κ).Sourced w site jobs target :=
  ⟨⟨[], rfl⟩, fun _ => ⟨fun _ hm => absurd hm (by simp [Fleet.start]),
    fun _ himage => absurd himage (by simp [Fleet.start])⟩⟩

/-- Whatever the order of the steps, a device installs nothing but images that the build jobs
of its target have picked for published releases of the stable channel. -/
theorem fleet_installs {device : κ → Device} (hparse : FlatJson.Parses cjsonParse memberJson)
    (hsize : Sized jobs) (hdistinct : Function.Injective fun i => (jobs i).version)
    (hurl : ∀ k, url k = manifestUrl w.repository (target k))
    (hrun : run (Fleet.step w site jobs cjsonParse url) (.start device) ls = some f)
    (hhonest : Throughout (Fleet.step w site jobs cjsonParse url)
      (Fleet.Honest w jobs cjsonParse url target) (.start device) ls)
    (k : κ) (image : Content) (himage : image ∈ (f.nodes k).images) :
    ∃ i, channelOf (jobs i).version = .stable ∧ (jobs i).Built (target k) image ∧
      f.forge.releases (jobs i).version = some (jobs i).published := by
  have hsourced : f.Sourced w site jobs target :=
    hhonest.run (fun _ _ _ hf hl hstep => hf.step hparse hsize hdistinct hurl hl hstep)
      (Fleet.sourced_start device) List.prefix_rfl hrun
  obtain ⟨i, hphase, hchannel, hbuilt⟩ := (hsourced.nodes k).images image himage
  obtain ⟨ms, hforge⟩ := hsourced.forge
  refine ⟨i, hchannel, hbuilt, (Forge.backed_run hdistinct hforge).live i ?_⟩
  rw [hphase]
  rfl

theorem fleet_installs_sample : ∃ f image,
    run sampleStep (.start sampleDevices) sampleUpdated = some f ∧
      image ∈ (f.nodes ()).images ∧ ∃ i, channelOf (sampleJobs i).version = .stable ∧
      (sampleJobs i).Built .esp32s3 image ∧
      f.forge.releases (sampleJobs i).version = some (sampleJobs i).published := by
  have hrun : (run sampleStep (.start sampleDevices) sampleUpdated).map (fun f =>
      (f.nodes ()).images) = some [sampleImage stableTag.text] := by
    decide +kernel
  obtain ⟨f, hf, himages⟩ := Option.map_eq_some_iff.mp hrun
  have himage : sampleImage stableTag.text ∈ (f.nodes ()).images := by
    rw [himages]
    exact List.mem_singleton_self _
  exact ⟨f, _, hf, himage, fleet_installs (FlatJson.parses_parse memberJson)
    sampleJobs_consistent.size sampleJobs_distinct sampleUrl_eq hf sampleUpdated_honest () _ himage⟩

/-! ## Announced images -/

omit [DecidableEq ι] in
theorem Consistent.imageVersion (h : Consistent jobs) {i : ι} {t : Target} {m image : Content}
    {s : Forge ι} (hannounces : Announces s (jobs i) t m image) :
    Ota.imageVersion image = (jobs i).tag := by
  rw [h.stamped i t image hannounces.built, projectVer, Option.getD_some, hannounces.named,
    builtVersion, take_ofBuffer (by rw [length_bytes]; exact h.tag i)]
  rfl

/-- An update that is requested is newer than what runs. -/
theorem newer_of_requestsFirmware {cfg : Config} {d : Device} {e : CycleEnv} {s : OtaState}
    (h : requestsFirmware cfg s (d.sees e) = true) :
    Newer d.running (fetchOtaManifest cfg s e.manifest).state.manifest.version.str := by
  simp only [requestsFirmware, Bool.and_eq_true, decide_eq_true_eq] at h
  obtain ⟨-, hnewer⟩ := h
  unfold isUpdateAvailable Device.sees at hnewer
  split at hnewer
  · exact absurd hnewer (by simp)
  · cases hrunning : e.running with
    | none => simp [hrunning] at hnewer
    | some v => simpa [hrunning, Newer] using hnewer

def Fleet.CommitsAnnounced (cjsonParse : CStr → Option Json) (url : κ → Text) (f : Fleet ι κ) :
    FleetLabel ι κ → Prop
  | .device k l => Ota.CommitsAnnounced (deviceConfig cjsonParse (url k)) (f.nodes k).device l
  | _ => True

/-- With consistent builds, what a device commits has the size that was announced and is
newer than what it runs, though the device checks neither. -/
theorem fleet_announced {device : κ → Device} (hparse : FlatJson.Parses cjsonParse memberJson)
    (hdistinct : Function.Injective fun i => (jobs i).version)
    (hurl : ∀ k, url k = manifestUrl w.repository (target k)) (hconsistent : Consistent jobs)
    (hhonest : Throughout (Fleet.step w site jobs cjsonParse url)
      (Fleet.Honest w jobs cjsonParse url target) (.start device) ls) :
    Throughout (Fleet.step w site jobs cjsonParse url) (Fleet.CommitsAnnounced cjsonParse url)
      (.start device) ls := by
  intro pre l f hpre hrun
  have hsourced : f.Sourced w site jobs target :=
    hhonest.run (fun _ _ _ hf hl hstep => hf.step hparse hconsistent.size hdistinct hurl hl hstep)
      (Fleet.sourced_start device) ((List.prefix_append pre [l]).trans hpre) hrun
  match l with
  | .forge _ | .ask _ | .device _ .restart | .device _ .validate | .device _ .rollback =>
    exact trivial
  | .device k (.cycle e) =>
    intro hboot
    obtain ⟨img, himg⟩ := Option.isSome_iff_exists.mp (otaCycle_setBoot_iff.mp hboot)
    have hwritten : writtenBytes
        ((f.nodes k).device.cycle (deviceConfig cjsonParse (url k)) e).calls = img :=
      otaCycle_written himg
    rw [hwritten]
    obtain ⟨i, m, -, -, hannounces, hresponse, hstored⟩ :=
      hsourced.committable hparse hconsistent.size hdistinct (hhonest pre _ f hpre hrun) himg
    constructor
    · intro n hn
      have hsize := hconsistent.size i (target k) img hannounces.built
      rw [announcedSize, hresponse, memberJson_manifestMembers] at hn
      simp only [Option.bind_some, Option.map_some, Option.mem_some] at hn
      omega
    · have hnewer := newer_of_requestsFirmware (committable_requests himg)
      rw [hstored.version, take_ofBuffer] at hnewer
      · rw [hconsistent.imageVersion hannounces]
        exact hnewer
      · rw [length_bytes]
        exact (hconsistent.tag i).trans (by decide)

theorem fleet_announced_sample : Throughout sampleStep
    (Fleet.CommitsAnnounced (FlatJson.parse memberJson) sampleUrl) (.start sampleDevices)
    sampleUpdated :=
  fleet_announced (FlatJson.parses_parse memberJson) sampleJobs_distinct sampleUrl_eq
    sampleJobs_consistent sampleUpdated_honest

/-! ## Updates -/

omit [DecidableEq ι] in
/-- Such an iteration commits what it was offered exactly if its version is newer than the
running one, and not the one that was last marked invalid. -/
theorem Announces.commits_iff {s : Forge ι} {j : ReleaseJob w} {t : Target} {m image : Content}
    {cfg : Config} {o : OtaState} {e : CycleEnv} (h : Announces s j t m image)
    (hparse : FlatJson.Parses cfg.cjsonParse memberJson) (hsmooth : Smooth m e)
    (hrepo : w.repository.text.length ≤ 140) (htag : j.version.length ≤ 63)
    (hsize : image.length < 2 ^ 31) :
    (otaCycle cfg o e).exit.commits = true ↔ isUpdateAvailable e.running j.tag = true ∧
      detectLastInvalidApp e.lastInvalid j.tag ≠ .invalidVersion := by
  obtain ⟨hwhole, hfetched⟩ := fetch_createOtaManifest hparse j.run.refName.word hsize o.cleared
    hsmooth.opened hsmooth.status (h.text ▸ hsmooth.served)
  have hret : (fetchOtaManifest cfg o.cleared e.manifest).ret = some true := by
    rw [hwhole rfl, Option.some.injEq, decide_eq_true_eq]
    exact manifestLength_fits hrepo htag hsize
  have hversion :
      (fetchOtaManifest cfg o.cleared e.manifest).state.manifest.version.str = j.tag := by
    rw [(hfetched hret).2.version, take_ofBuffer (by rw [length_bytes]; exact htag)]
    rfl
  have hcommittable : (Ota.committable cfg o e).isSome = true ↔
      reachesLoop cfg o.cleared e = true := by
    rw [Ota.committable, hsmooth.gate, hsmooth.complete, hsmooth.ended]
    cases reachesLoop cfg o.cleared e <;> simp [hsmooth.delivered]
  rw [otaCycle_commits_iff, hcommittable, hsmooth.booted]
  simp [reachesLoop, entersDownload, requestsFirmware, hret, hversion, hsmooth.performed,
    hsmooth.redirected, hsmooth.partition, and_comm]

omit [DecidableEq ι] in
theorem ReleaseJob.tag_ne_nil (j : ReleaseJob w) : j.tag.bytes ≠ [] := by
  obtain ⟨rest, hrest⟩ := List.head?_eq_some_iff.mp j.run.refName.starts
  have hbytes : bytes j.version = 118 :: bytes rest := by
    rw [ReleaseJob.version, hrest]
    rfl
  rw [ReleaseJob.tag, hbytes]
  simp [CStr.ofBuffer]

/-- What a device takes for an update. -/
theorem isUpdateAvailable_sees {d : Device} {e : CycleEnv} {v : CStr} (hv : v.bytes ≠ []) :
    isUpdateAvailable (d.sees e).running v = true ↔
      e.running.isSome = true ∧ Newer d.running v := by
  cases hrunning : e.running <;> simp [isUpdateAvailable, Device.sees, hv, hrunning, Newer]

/-- In every reachable state, a device whose iteration meets no failure commits the image of
the stable release that it was offered exactly if it can read its own version, the release is
newer, and it is not the one that was last marked invalid. -/
theorem fleet_takes {device : κ → Device} {k : κ} {m : Content} {e : CycleEnv}
    (hparse : FlatJson.Parses cjsonParse memberJson)
    (hdistinct : Function.Injective fun i => (jobs i).version)
    (hurl : ∀ k, url k = manifestUrl w.repository (target k)) (hconsistent : Consistent jobs)
    (hrepo : w.repository.text.length ≤ 140)
    (hrun : run (Fleet.step w site jobs cjsonParse url) (.start device) ls = some f)
    (hhonest : Throughout (Fleet.step w site jobs cjsonParse url)
      (Fleet.Honest w jobs cjsonParse url target) (.start device) ls)
    (hm : (f.nodes k).offered = some m) (hsmooth : Smooth m e)
    (hanswered : f.Answered w jobs cjsonParse url target k e) :
    ∃ i image, channelOf (jobs i).version = .stable ∧
      Announces f.forge (jobs i) (target k) m image ∧
      ((f.nodes k).commits (deviceConfig cjsonParse (url k)) (.cycle e) = some image ↔
        e.running.isSome = true ∧ Newer (f.nodes k).device.running (jobs i).tag ∧
          detectLastInvalidApp e.lastInvalid (jobs i).tag ≠ .invalidVersion) := by
  have hsourced : f.Sourced w site jobs target :=
    hhonest.run (fun _ _ _ hf hl hstep => hf.step hparse hconsistent.size hdistinct hurl hl hstep)
      (Fleet.sourced_start device) List.prefix_rfl hrun
  obtain ⟨i, image, -, hchannel, hannounces⟩ := hsourced.announces hdistinct hm
  have hsees : Smooth m ((f.nodes k).device.sees e) :=
    ⟨hsmooth.gate, hsmooth.opened, hsmooth.status, hsmooth.served, hsmooth.performed,
      hsmooth.redirected, hsmooth.partition, hsmooth.delivered, hsmooth.complete, hsmooth.ended,
      hsmooth.booted⟩
  have hcommits : ((f.nodes k).device.cycle (deviceConfig cjsonParse (url k)) e).exit.commits =
      true ↔ _ := hannounces.commits_iff hparse hsees hrepo
    ((hconsistent.tag i).trans (by decide))
    (hconsistent.size i _ _ hannounces.built)
  rw [isUpdateAvailable_sees (jobs i).tag_ne_nil, and_assoc] at hcommits
  refine ⟨i, image, hchannel, hannounces, Iff.trans ?_ hcommits⟩
  constructor
  · exact fun h => (Option.ite_none_right_eq_some.mp h).1
  · intro h
    obtain ⟨img, himg⟩ := Option.isSome_iff_exists.mp (otaCycle_commits_iff.mp h).1
    obtain ⟨m', hm', hserves⟩ := hanswered.manifest hsmooth.opened hsmooth.status
    obtain rfl := Option.some.inj (hm.symm.trans hm')
    obtain ⟨rfl, -⟩ := hannounces.committable (e := (f.nodes k).device.sees e) hparse
      (hconsistent.size i _ _ hannounces.built) hserves
      (fun hurl => hanswered.image i image hurl hannounces.address) himg
    have hwritten : writtenBytes
        ((f.nodes k).device.cycle (deviceConfig cjsonParse (url k)) e).calls = img :=
      otaCycle_written himg
    rw [Node.commits, if_pos h, hwritten]

theorem fleet_takes_sample : ∃ f i image,
    run sampleStep (.start sampleDevices) sampleAsked = some f ∧
      channelOf (sampleJobs i).version = .stable ∧
      Announces f.forge (sampleJobs i) .esp32s3 sampleText image ∧
      ((f.nodes ()).commits (deviceConfig (FlatJson.parse memberJson) (sampleUrl ()))
          (.cycle sampleUpdate) = some image ↔
        sampleUpdate.running.isSome = true ∧
          Newer (f.nodes ()).device.running (sampleJobs i).tag ∧
          detectLastInvalidApp sampleUpdate.lastInvalid (sampleJobs i).tag ≠ .invalidVersion) := by
  obtain ⟨f, hrun, hoffered, hdownload⟩ := sampleAsked_run
  obtain ⟨i, image, h⟩ := fleet_takes (FlatJson.parses_parse memberJson) sampleJobs_distinct
    sampleUrl_eq sampleJobs_consistent (by decide) hrun sampleAsked_honest hoffered
    sampleUpdate_smooth (sampleUpdate_answered hoffered hdownload)
  exact ⟨f, i, image, hrun, h⟩

end

end HomeNode.Release
