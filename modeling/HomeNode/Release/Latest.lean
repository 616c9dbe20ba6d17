-- SUMMARY: What devices find on the pages after any interleaving of release jobs: the newest manifest of the channel, and the image it announces.
import HomeNode.Release.Deploy

/-!
# What the pages announce

After any interleaving of release jobs the branch is what its commits make of it, one
after the other. Each directory holds the manifests of the last release of its channel
that was pushed, and what a manifest announces can be downloaded.
-/

namespace HomeNode.Release

open FileTree Branch Transition

variable {ι : Type} [DecidableEq ι] {w : Workflow} {site : Site} {jobs : ι → ReleaseJob w}
variable {s s' : Forge ι} {l : Label ι} {ls : List (Label ι)}

/-! ## Commits -/

/-- The branch is made by its commits in the order of their pushes, each on top of the ones
before it, whatever the jobs had cloned. -/
theorem pages_eq_commits (hrun : run (Forge.step w site jobs) .start ls = some s) :
    s.pages.value = (commits ls).foldl (Commit.apply w site jobs) none := by
  apply run_eq_foldl (fun s : Forge ι => s.pages.value) Forge.Valid.preserved _ Forge.valid_start
    hrun
  intro s l t hs h
  rw [(hs.step_pages h).1]
  cases l.commit <;> rfl

/-! ### A sample run -/

def sampleSite : Site := ⟨bytes "# gate".toList, fun v _ updated => bytes (v ++ updated)⟩

def sampleJob (tag : Tag) (h : (sampleRun tag).releaseFiles sampleWorkflow ≠ none) :
    ReleaseJob sampleWorkflow where
  run := sampleRun tag
  files := ((sampleRun tag).releaseFiles sampleWorkflow).get (Option.isSome_iff_ne_none.mpr h)
  prepared := (Option.some_get _).symm

/-- A stable release and a beta. -/
def sampleJobs : Bool → ReleaseJob sampleWorkflow
  | false => sampleJob stableTag releaseFiles_sample.1
  | true => sampleJob betaTag releaseFiles_sample.2

/-- Both jobs have a clone of the same commit, and the beta is the second one to push. -/
def sampleLabels : List (Label Bool) :=
  [.createRelease false, .createRelease true, .lsRemote false false, .setup false true,
    .lsRemote true true, .clone true true, .deploy false [] [] .pushed,
    .deploy true [] [] .rejected]

def sampleText : Content :=
  createOtaManifest sampleWorkflow .esp32s3 stableTag.text (sampleImage stableTag.text) sampleDate

/-- What the run leaves for a device of the first target. -/
theorem sampleLabels_main :
    ((Transition.run (Forge.step sampleWorkflow sampleSite sampleJobs) .start sampleLabels).bind
      fun s => s.pages.value.bind fun p => p.lookup (OtaDir.main.manifest .esp32s3)) =
      some sampleText := by
  decide +kernel

theorem sampleLabels_run : ∃ s pages,
    Transition.run (Forge.step sampleWorkflow sampleSite sampleJobs) .start sampleLabels = some s ∧
      s.pages.value = some pages ∧ pages.lookup (OtaDir.main.manifest .esp32s3) =
        some sampleText := by
  obtain ⟨s, hrun, hrest⟩ := Option.bind_eq_some_iff.mp sampleLabels_main
  obtain ⟨pages, hpages, hlookup⟩ := Option.bind_eq_some_iff.mp hrest
  exact ⟨s, pages, hrun, hpages, hlookup⟩

theorem pages_eq_commits_sample : ∃ s,
    Transition.run (Forge.step sampleWorkflow sampleSite sampleJobs) .start sampleLabels = some s ∧
      s.pages.value = (commits sampleLabels).foldl
        (Commit.apply sampleWorkflow sampleSite sampleJobs) none := by
  obtain ⟨s, -, hrun, -, -⟩ := sampleLabels_run
  exact ⟨s, hrun, pages_eq_commits hrun⟩

/-! ## The newest manifests -/

/-- The manifest that a commit brings. -/
def Commit.manifest (jobs : ι → ReleaseJob w) (d : OtaDir) (t : Target) : Commit ι → Option Content
  | .setup => none
  | .deploy i _ _ => (jobs i).manifest d t

/-- The manifest of the last commit that brought one. -/
def latest (jobs : ι → ReleaseJob w) (d : OtaDir) (t : Target) (cs : List (Commit ι)) :
    Option Content :=
  cs.reverse.findSome? (Commit.manifest jobs d t)

omit [DecidableEq ι] in
theorem latest_concat (d : OtaDir) (t : Target) (cs : List (Commit ι)) (k : Commit ι) :
    latest jobs d t (cs ++ [k]) = (k.manifest jobs d t).or (latest jobs d t cs) := by
  rw [latest, List.reverse_concat, List.findSome?_cons]
  cases k.manifest jobs d t <;> rfl

omit [DecidableEq ι] in
theorem commits_concat (ls : List (Label ι)) (l : Label ι) :
    commits (ls ++ [l]) = commits ls ++ l.commit.toList := by
  simp only [commits, List.filterMap_append]
  cases h : l.commit <;> simp [h]

/-- What the branch holds behind the commits `cs`. -/
structure Forge.Holds (jobs : ι → ReleaseJob w) (cs : List (Commit ι)) (s : Forge ι) : Prop where
  valid : s.Valid
  revision : s.pages.revision = cs.length
  manifests : ∀ pages d t, s.pages.value = some pages →
    pages.lookup (d.manifest t) = latest jobs d t cs

omit [DecidableEq ι] in
theorem Forge.Holds.commit {cs : List (Commit ι)} {k : Commit ι} (hs : s.Holds jobs cs)
    (hvalid : s'.Valid)
    (hpages : s'.pages = ⟨s.pages.revision + 1, k.apply w site jobs s.pages.value⟩)
    (hsetup : k = .setup → s.pages.revision = 0) : s'.Holds jobs (cs ++ [k]) := by
  refine ⟨hvalid, ?_, fun pages d t hvalue => ?_⟩
  · rw [hpages, List.length_append, hs.revision]
    rfl
  · rw [hpages] at hvalue
    rw [latest_concat]
    cases k with
    | setup =>
      have hnil : cs = [] := by
        rw [← List.length_eq_zero_iff, ← hs.revision, hsetup rfl]
      rw [← Option.some.inj hvalue, lookup_setupPages, hnil]
      rfl
    | deploy i updatedAt updated =>
      obtain ⟨old, hold, rfl⟩ := Option.map_eq_some_iff.mp hvalue
      rw [lookup_deployOta, hs.manifests old d t hold]
      change _ = ((jobs i).manifest d t).or _
      unfold ReleaseJob.manifest
      split
      · rfl
      · rw [Option.none_or]

theorem Forge.holds_run (hrun : run (Forge.step w site jobs) .start ls = some s) :
    s.Holds jobs (commits ls) := by
  have hall : ∀ ls s, run (Forge.step w site jobs) Forge.start ls = some s →
      s.Holds jobs (commits ls) := by
    apply run_induction
    · exact ⟨Forge.valid_start, rfl, fun pages d t h => by simp [Forge.start] at h⟩
    · intro ls s l s' _ hs h
      obtain ⟨hpages, hsetup⟩ := hs.valid.step_pages h
      have hvalid := Forge.Valid.preserved s l s' hs.valid h
      rw [commits_concat]
      cases hcommit : l.commit with
      | none =>
        rw [hcommit] at hpages
        rw [Option.toList_none, List.append_nil]
        exact ⟨hvalid, by rw [hpages, hs.revision], by rw [hpages]; exact hs.manifests⟩
      | some k =>
        rw [hcommit] at hpages
        exact hs.commit hvalid hpages fun hk => hsetup (by rw [hcommit, hk])
  exact hall ls s hrun

/-- Each directory holds, for each target, the manifest of the last release of its channel
that was pushed and had one. So does `ota/` for the stable channel: no release of another
channel is ever announced there. -/
theorem pages_latest {pages : Pages}
    (hrun : run (Forge.step w site jobs) .start ls = some s) (hpages : s.pages.value = some pages)
    (d : OtaDir) (t : Target) :
    pages.lookup (d.manifest t) = latest jobs d t (commits ls) :=
  (Forge.holds_run hrun).manifests pages d t hpages

theorem pages_latest_sample : ∃ s pages,
    Transition.run (Forge.step sampleWorkflow sampleSite sampleJobs) .start sampleLabels = some s ∧
      s.pages.value = some pages ∧ pages.lookup (OtaDir.main.manifest .esp32s3) =
        latest sampleJobs .main .esp32s3 (commits sampleLabels) := by
  obtain ⟨s, pages, hrun, hpages, -⟩ := sampleLabels_run
  exact ⟨s, pages, hrun, hpages, pages_latest hrun hpages .main .esp32s3⟩

/-! ## Releases -/

/-- The job has created its release, and has not failed since. -/
def Phase.live : Phase → Bool
  | .queued | .failed => false
  | _ => true

/-- The releases of the jobs that are past `Create Release` are there, and so are those whose
manifests were pushed. -/
structure Forge.Backed (jobs : ι → ReleaseJob w) (cs : List (Commit ι)) (s : Forge ι) : Prop where
  live : ∀ i, (s.phase i).live → s.releases (jobs i).version = some (jobs i).published
  pushed : ∀ i updatedAt updated, .deploy i updatedAt updated ∈ cs → s.phase i = .deployed

/-- A job goes on that has not pushed yet. -/
theorem Forge.Backed.goto {cs : List (Commit ι)} {i : ι} {p : Phase} (hs : s.Backed jobs cs)
    (hold : s.phase i ≠ .deployed)
    (hnew : p.live → s.releases (jobs i).version = some (jobs i).published) :
    (s.goto i p).Backed jobs cs where
  live k h := by
    by_cases hk : k = i
    · subst hk
      exact hnew (by simpa [Forge.goto] using h)
    · exact hs.live k (by simpa [Forge.goto, hk] using h)
  pushed k updatedAt updated h := by
    have hphase := hs.pushed k updatedAt updated h
    have hk : k ≠ i := by
      rintro rfl
      exact hold hphase
    simpa [Forge.goto, hk] using hphase

omit [DecidableEq ι] in
/-- A job that has not created its release yet changes no other one. -/
theorem Forge.Backed.setRelease {cs : List (Commit ι)} {i : ι} (hs : s.Backed jobs cs)
    (hdistinct : Function.Injective fun i => (jobs i).version) (hold : s.phase i = .queued)
    (r : Option Published) : (s.setRelease (jobs i).version r).Backed jobs cs where
  live k h := by
    have hk : k ≠ i := by
      rintro rfl
      rw [Forge.setRelease, hold] at h
      exact absurd h (by decide)
    have hne : (jobs k).version ≠ (jobs i).version := fun heq => hk (hdistinct heq)
    simpa [Forge.setRelease, hne] using hs.live k h
  pushed := hs.pushed

/-- A job pushes that has created its release. -/
theorem Forge.Backed.commit {cs : List (Commit ι)} {k : Commit ι} {i : ι} {p : Phase}
    {pages : Branch (Option Pages)} (hs : s.Backed jobs cs) (hold : s.phase i ≠ .deployed)
    (hlive : (s.phase i).live)
    (hk : ∀ j updatedAt updated, k = .deploy j updatedAt updated → j = i ∧ p = .deployed) :
    ({ s with pages }.goto i p : Forge ι).Backed jobs (cs ++ [k]) := by
  have hbacked : Forge.Backed jobs cs { s with pages } := ⟨hs.live, hs.pushed⟩
  have hgoto := hbacked.goto (p := p) hold fun _ => hs.live i hlive
  refine ⟨hgoto.live, fun j updatedAt updated hmem => ?_⟩
  rcases List.mem_append.mp hmem with hmem | hmem
  · exact hgoto.pushed j updatedAt updated hmem
  · obtain ⟨rfl, rfl⟩ := hk j updatedAt updated (List.mem_singleton.mp hmem).symm
    simp [Forge.goto]

theorem Forge.Backed.step {cs : List (Commit ι)} (hs : s.Backed jobs cs)
    (hdistinct : Function.Injective fun i => (jobs i).version)
    (h : s.step w site jobs l = some s') : s'.Backed jobs (cs ++ l.commit.toList) := by
  have hsame : ∀ s' : Forge ι, l.commit = none → s'.Backed jobs cs →
      s'.Backed jobs (cs ++ l.commit.toList) := by
    intro s' hnone hs'
    rwa [hnone, Option.toList_none, List.append_nil]
  cases takes_of_step h with
  | createRelease hphase =>
    apply hsame _ rfl
    refine (hs.setRelease hdistinct hphase _).goto (by simp [Forge.setRelease, hphase]) fun _ => ?_
    simp [Forge.setRelease]
  | uploadFailed hphase =>
    apply hsame _ rfl
    refine (hs.setRelease hdistinct hphase _).goto (by simp [Forge.setRelease, hphase]) ?_
    simp [Phase.live]
  | seen hphase | unseen hphase | clone hphase | unchanged hphase =>
    exact hsame _ rfl (hs.goto (by simp [hphase]) fun _ => hs.live _ (by rw [hphase]; rfl))
  | cloneFailed hphase | setupFailed hphase | rejected hphase =>
    exact hsame _ rfl (hs.goto (by simp [hphase]) (by simp [Phase.live]))
  | setup hphase =>
    exact hs.commit (by simp [hphase]) (by rw [hphase]; rfl) (by simp)
  | pushed hphase =>
    apply hs.commit (by simp [hphase]) (by rw [hphase]; rfl)
    intro k updatedAt updated heq
    exact ⟨(Commit.deploy.inj heq).1.symm, rfl⟩

theorem Forge.backed_run (hdistinct : Function.Injective fun i => (jobs i).version)
    (hrun : Transition.run (Forge.step w site jobs) .start ls = some s) :
    s.Backed jobs (commits ls) := by
  have hall : ∀ ls s, Transition.run (Forge.step w site jobs) Forge.start ls = some s →
      s.Backed jobs (commits ls) := by
    apply run_induction
    · exact ⟨fun i h => by simp [Forge.start, Phase.live] at h,
        fun i _ _ h => by simp [commits] at h⟩
    · intro ls s l s' _ hs h
      rw [commits_concat]
      exact hs.step hdistinct h
  exact hall ls s hrun

/-! ## Announcements -/

/-- Where the files of a release are found. -/
def releaseBase (repo : Repository) : Text := githubUrl ++ repo.text ++ downloadPath

/-- What can be downloaded from an address. -/
def Forge.download (s : Forge ι) (repo : Repository) (url : Text) : Option Content :=
  if releaseBase repo <+: url then
    match (url.drop (releaseBase repo).length).splitOn '/' with
    | [v, file] => (s.releases v).bind fun r => r.files.content [file]
    | _ => none
  else none

theorem not_mem_of_word {u : Text} (h : u.all wordChar) : '/' ∉ u := by
  intro hmem
  exact absurd (List.all_eq_true.mp h '/' hmem) (by decide)

theorem firmwareOtaName_plain {v : Text} (hv : '/' ∉ v) (t : Target) :
    '/' ∉ firmwareOtaName t v := by
  have hfixed : '/' ∉ firmwareOta ∧ '/' ∉ Flash.binExt ∧ '/' ∉ t.text := by
    cases t <;> decide
  obtain ⟨hstart, hext, ht⟩ := hfixed
  simp [firmwareOtaName, hstart, hext, ht, hv]

omit [DecidableEq ι] in
/-- The address that a manifest gives is the one of the image in its release. -/
theorem Forge.download_downloadUrl (s : Forge ι) (repo : Repository) {v : Text} {file : Name}
    (hv : '/' ∉ v) (hfile : '/' ∉ file) : s.download repo (downloadUrl repo v file) =
      (s.releases v).bind fun r => r.files.content [file] := by
  have hurl : downloadUrl repo v file = releaseBase repo ++ (v ++ '/' :: file) := by
    simp only [downloadUrl, releaseBase, List.append_assoc, List.singleton_append]
  rw [Forge.download, hurl, if_pos (List.prefix_append _ _), List.drop_left,
    List.splitOn_append_cons_self_of_not_mem hv, List.splitOn_eq_singleton hfile]

/-- The build job of `t` has picked `image` from its build. -/
def ReleaseJob.Built (j : ReleaseJob w) (t : Target) (image : Content) : Prop :=
  ∃ n, otaBin (j.run.build t).order (j.run.build t).build = some n ∧
    (j.run.build t).build.content [n] = some image

/-- The text `m` is the manifest of the release `j` for `t`. It announces the `image` that was
built for `t`, and that its address leads to. -/
structure Announces (s : Forge ι) (j : ReleaseJob w) (t : Target) (m image : Content) : Prop where
  text : m = createOtaManifest w t j.version image (j.run.build t).date
  built : j.Built t image
  named : (j.run.build t).version = j.version
  published : s.releases j.version = some j.published
  address : s.download w.repository
    (downloadUrl w.repository j.version (firmwareOtaName t j.version)) = some image

omit [DecidableEq ι] in
theorem ReleaseJob.announces {j : ReleaseJob w} {d : OtaDir} {t : Target} {m : Content}
    (hpublished : s.releases j.version = some j.published) (hm : j.manifest d t = some m) :
    ∃ image, Announces s j t m image := by
  obtain ⟨-, hm⟩ := Option.ite_none_right_eq_some.mp hm
  obtain ⟨image, himage, hpicked, htext⟩ := releaseFiles_manifest j.prepared hm
  have hnamed := (releaseFiles_isSome j.prepared t).mp (by rw [hm]; rfl)
  have hv : '/' ∉ j.version := not_mem_of_word j.run.refName.word
  refine ⟨image, htext, hpicked, hnamed, hpublished, ?_⟩
  rw [s.download_downloadUrl w.repository hv (firmwareOtaName_plain hv t), hpublished]
  exact himage

/-- A manifest on the pages was pushed by the job of a release of the channel. -/
theorem Forge.manifest_deployed {pages : Pages} {d : OtaDir} {t : Target} {m : Content}
    (hdistinct : Function.Injective fun i => (jobs i).version)
    (hrun : Transition.run (Forge.step w site jobs) .start ls = some s)
    (hpages : s.pages.value = some pages) (hm : pages.lookup (d.manifest t) = some m) :
    ∃ i, s.phase i = .deployed ∧ (jobs i).manifest d t = some m := by
  rw [(Forge.holds_run hrun).manifests pages d t hpages] at hm
  obtain ⟨k, hk, hmanifest⟩ := List.exists_of_findSome?_eq_some hm
  cases k with
  | setup => exact absurd hmanifest (by simp [Commit.manifest])
  | deploy i updatedAt updated =>
    exact ⟨i, (Forge.backed_run hdistinct hrun).pushed i updatedAt updated (List.mem_reverse.mp hk),
      hmanifest⟩

omit [DecidableEq ι] in
/-- What it announces can be downloaded. -/
theorem Forge.Backed.announces {cs : List (Commit ι)} {i : ι} {d : OtaDir} {t : Target}
    {m : Content} (hs : s.Backed jobs cs) (hphase : s.phase i = .deployed)
    (hm : (jobs i).manifest d t = some m) : ∃ image, Announces s (jobs i) t m image := by
  apply ReleaseJob.announces _ hm
  apply hs.live
  rw [hphase]
  rfl

omit [DecidableEq ι] in
theorem ReleaseJob.channel {j : ReleaseJob w} {d : OtaDir} {t : Target} {m : Content}
    (hm : j.manifest d t = some m) : channelOf j.version = d.source :=
  (Option.ite_none_right_eq_some.mp hm).1.symm

/-- Where tags are in small letters, what devices are offered at the main address is a release
that is not marked as a prerelease, with the image, its size and its checksum. -/
theorem main_announces_release {pages : Pages} {t : Target} {m : Content}
    (hdistinct : Function.Injective fun i => (jobs i).version)
    (hlower : ∀ i, (jobs i).version.map Char.toLower = (jobs i).version)
    (hrun : Transition.run (Forge.step w site jobs) .start ls = some s)
    (hpages : s.pages.value = some pages) (hm : pages.lookup (OtaDir.main.manifest t) = some m) :
    ∃ v date r image, s.releases v = some r ∧ r.prerelease = false ∧
      s.download w.repository (downloadUrl w.repository v (firmwareOtaName t v)) = some image ∧
      m = createOtaManifest w t v image date := by
  obtain ⟨i, hphase, hmanifest⟩ := Forge.manifest_deployed hdistinct hrun hpages hm
  obtain ⟨image, hannounces⟩ := (Forge.backed_run hdistinct hrun).announces hphase hmanifest
  exact ⟨_, _, _, image, hannounces.published,
    isPrerelease_of_stable (hlower i) (ReleaseJob.channel hmanifest), hannounces.address,
    hannounces.text⟩

theorem sampleJobs_distinct : Function.Injective fun i => (sampleJobs i).version := by
  have hne : stableTag.text ≠ betaTag.text := by decide
  intro i k h
  cases i <;> cases k
  · rfl
  · exact absurd h hne
  · exact absurd h hne.symm
  · rfl

theorem main_announces_release_sample : ∃ s pages m,
    Transition.run (Forge.step sampleWorkflow sampleSite sampleJobs) .start sampleLabels = some s ∧
      s.pages.value = some pages ∧ pages.lookup (OtaDir.main.manifest .esp32s3) = some m ∧
      ∃ v date r image, s.releases v = some r ∧ r.prerelease = false ∧
        s.download sampleWorkflow.repository
          (downloadUrl sampleWorkflow.repository v (firmwareOtaName .esp32s3 v)) = some image ∧
        m = createOtaManifest sampleWorkflow .esp32s3 v image date := by
  have hlower : ∀ i, (sampleJobs i).version.map Char.toLower = (sampleJobs i).version := by
    intro i
    cases i <;> decide
  obtain ⟨s, pages, hrun, hpages, hm⟩ := sampleLabels_run
  exact ⟨s, pages, _, hrun, hpages, hm,
    main_announces_release sampleJobs_distinct hlower hrun hpages hm⟩

end HomeNode.Release
