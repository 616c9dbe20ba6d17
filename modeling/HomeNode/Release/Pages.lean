-- SUMMARY: The pages that devices look for updates on: the channel of a version, and what one deployment changes.
import HomeNode.Release.Files

/-!
# The pages of a release

`Deploy Professional OTA` copies the manifests of a release into the directory of its
channel, and those of a stable one into `ota/` as well, where devices look for them.
The pages are the files of the branch under their paths.
-/

namespace HomeNode.Release

open FileTree Flash

/-! ## Channels -/

inductive Channel where
  | stable
  | beta
  | dev
  deriving DecidableEq

def Channel.text : Channel → Text
  | .stable => "stable".toList
  | .beta => "beta".toList
  | .dev => "dev".toList

def alphaWord : Text := "alpha".toList
def devWord : Text := "dev".toList
def betaWord : Text := "beta".toList
def testWord : Text := "test".toList

/-- The `CHANNEL` of a version. -/
def channelOf (v : Text) : Channel :=
  if alphaWord <:+: v ∨ devWord <:+: v then .dev
  else if betaWord <:+: v ∨ testWord <:+: v then .beta
  else .stable

/-- `contains` of a workflow expression, which does not look at the case. -/
def containsWord (v word : Text) : Bool := decide (word <:+: v.map Char.toLower)

/-- The `prerelease` of `Create Release`. -/
def isPrerelease (v : Text) : Bool :=
  containsWord v alphaWord || containsWord v betaWord || containsWord v testWord

/-- A version in small letters that the step takes for a stable one is no prerelease. -/
theorem isPrerelease_of_stable {v : Text} (hlower : v.map Char.toLower = v)
    (hstable : channelOf v = .stable) : isPrerelease v = false := by
  unfold channelOf at hstable
  split_ifs at hstable with hdev hbeta
  rw [not_or] at hdev hbeta
  simp [isPrerelease, containsWord, hlower, hdev.1, hbeta.1, hbeta.2]

/-! ## Paths -/

/-- A directory with manifests: `ota/` itself, or the one of a channel. -/
inductive OtaDir where
  | main
  | channel (c : Channel)
  deriving DecidableEq

def OtaDir.text : OtaDir → Name
  | .main => "ota/".toList
  | .channel c => "ota/".toList ++ c.text ++ ['/']

def OtaDir.manifest (d : OtaDir) (t : Target) : Name := d.text ++ otaManifestName t

/-- The channel that a directory holds the manifests of. -/
def OtaDir.source : OtaDir → Channel
  | .main => .stable
  | .channel c => c

def channelInfoPath (c : Channel) : Name := (OtaDir.channel c).text ++ "channel-info.json".toList

def indexPath : Name := "ota/index.html".toList
def nojekyllPath : Name := ".nojekyll".toList
def readmePath : Name := "README.md".toList

/-! ## The step -/

/-- The files of the branch. -/
abbrev Pages := AList fun _ : Name => Content

/-- The pages for readers: the `README.md` of a new branch, and `ota/index.html` with the
version, its channel and the date. -/
structure Site where
  readme : Content
  index : Text → Channel → Text → Content

/-- The text of `channel-info.json`. -/
def channelInfo (repo : Repository) (c : Channel) (v updatedAt : Text) : Content :=
  bytes ("\x7b\n  \"channel\": \"".toList ++ c.text ++
    "\",\n  \"latest_version\": \"".toList ++ v ++
    "\",\n  \"updated_at\": \"".toList ++ updatedAt ++
    "\",\n  \"targets\": [\"esp32s3\",\"esp32c3\"],\n  \"changelog_url\": \"".toList ++
    changelogUrl repo v ++ "\"\n\x7d\n".toList)

/-- The first commit of the branch. -/
def setupPages (site : Site) : Pages := AList.singleton readmePath site.readme

/-- The loop over the targets. -/
def deployManifest (files : FileTree Content) (c : Channel) (pages : Pages) (t : Target) : Pages :=
  match files.content [otaManifestName t] with
  | some m =>
    let pages := pages.insert ((OtaDir.channel c).manifest t) m
    if c = .stable then pages.insert (OtaDir.main.manifest t) m else pages
  | none => pages

/-- `touch` -/
def touch (p : Name) (pages : Pages) : Pages :=
  if p ∈ pages then pages else pages.insert p []

/-- What the step makes of the branch that it has cloned, at the two dates it asks for. -/
def deployOta (w : Workflow) (site : Site) (v : Text) (files : FileTree Content)
    (updatedAt updated : Text) (pages : Pages) : Pages :=
  let c := channelOf v
  let pages := targets.foldl (deployManifest files c) pages
  let pages := pages.insert (channelInfoPath c) (channelInfo w.repository c v updatedAt)
  let pages := pages.insert indexPath (site.index v c updated)
  touch nojekyllPath pages

/-- `git diff --staged --quiet` -/
def sameFiles (p q : Pages) : Bool := (p.keys ++ q.keys).all fun k => p.lookup k == q.lookup k

/-! ## What a deployment changes -/

variable {w : Workflow} {site : Site} {t t' : Target} {c : Channel} {d d' : OtaDir} {v : Text}
variable {files : FileTree Content} {pages : Pages} {updatedAt updated : Text}

theorem mem_targets (t : Target) : t ∈ targets := by
  cases t <;> decide

def otaDirs : List OtaDir := [.main, .channel .stable, .channel .beta, .channel .dev]

theorem mem_otaDirs (d : OtaDir) : d ∈ otaDirs := by
  rcases d with _ | c
  · decide
  · cases c <;> decide

/-- The paths that the workflow writes to besides those of manifests. -/
def otherPaths : List Name :=
  [channelInfoPath .stable, channelInfoPath .beta, channelInfoPath .dev, indexPath, nojekyllPath,
    readmePath]

theorem OtaDir.manifest_inj : d.manifest t = d'.manifest t' ↔ d = d' ∧ t = t' := by
  constructor
  · have hall : ∀ d ∈ otaDirs, ∀ d' ∈ otaDirs, ∀ t ∈ targets, ∀ t' ∈ targets,
        d.manifest t = d'.manifest t' → d = d' ∧ t = t' := by decide +kernel
    exact hall d (mem_otaDirs d) d' (mem_otaDirs d') t (mem_targets t) t' (mem_targets t')
  · rintro ⟨rfl, rfl⟩
    rfl

theorem OtaDir.manifest_ne {p : Name} (hp : p ∈ otherPaths) : d.manifest t ≠ p := by
  have hall : ∀ d ∈ otaDirs, ∀ t ∈ targets, ∀ p ∈ otherPaths, d.manifest t ≠ p := by
    decide +kernel
  exact hall d (mem_otaDirs d) t (mem_targets t) p hp

theorem lookup_setupPages (d : OtaDir) (t : Target) :
    (setupPages site).lookup (d.manifest t) = none := by
  have hreadme : d.manifest t ≠ readmePath := OtaDir.manifest_ne (by simp [otherPaths])
  rw [setupPages, ← AList.insert_empty, AList.lookup_insert_ne hreadme, AList.lookup_empty]

/-- One turn of the loop changes the manifests of its target in the directories of the channel. -/
theorem lookup_deployManifest :
    (deployManifest files c pages t').lookup (d.manifest t) =
      if d.source = c ∧ t = t' then
        (files.content [otaManifestName t]).or (pages.lookup (d.manifest t))
      else pages.lookup (d.manifest t) := by
  have hinsert : ∀ (pages : Pages) d' m, (pages.insert (d'.manifest t') m).lookup (d.manifest t) =
      if d = d' ∧ t = t' then some m else pages.lookup (d.manifest t) := by
    intro pages d' m
    split
    · next h => rw [h.1, h.2, AList.lookup_insert]
    · next h => rw [AList.lookup_insert_ne (mt OtaDir.manifest_inj.mp h)]
  unfold deployManifest
  cases hm : files.content [otaManifestName t'] with
  | none =>
    simp only
    split
    · next h => rw [h.2, hm, Option.none_or]
    · rfl
  | some m =>
    by_cases ht : t = t'
    · subst ht
      rcases d with _ | c' <;> cases c <;> simp [hinsert, hm, OtaDir.source]
    · by_cases hc : c = .stable <;> simp [hinsert, ht, hc]

/-- A deployment replaces the manifests that the release has, in the directories of its channel. -/
theorem lookup_deployOta :
    (deployOta w site v files updatedAt updated pages).lookup (d.manifest t) =
      if d.source = channelOf v then
        (files.content [otaManifestName t]).or (pages.lookup (d.manifest t))
      else pages.lookup (d.manifest t) := by
  have hnojekyll : d.manifest t ≠ nojekyllPath := OtaDir.manifest_ne (by simp [otherPaths])
  have hindex : d.manifest t ≠ indexPath := OtaDir.manifest_ne (by simp [otherPaths])
  have hinfo : d.manifest t ≠ channelInfoPath (channelOf v) := by
    apply OtaDir.manifest_ne
    cases channelOf v <;> simp [otherPaths]
  have htouch : ∀ pages : Pages,
      (touch nojekyllPath pages).lookup (d.manifest t) = pages.lookup (d.manifest t) := by
    intro pages
    unfold touch
    split
    · rfl
    · exact AList.lookup_insert_ne hnojekyll
  rw [deployOta, htouch, AList.lookup_insert_ne hindex, AList.lookup_insert_ne hinfo]
  simp only [targets, List.foldl_cons, List.foldl_nil, lookup_deployManifest]
  cases t <;> simp

end HomeNode.Release
