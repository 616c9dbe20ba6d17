-- SUMMARY: download_latest_artifact and the main program of flash_firmware.py: which run is taken, what is left on the disk, how it ends.
import HomeNode.Flash.RoundTrip
import HomeNode.Lib.Trace
import Mathlib.Data.List.DropRight

/-!
# Downloading

`download_latest_artifact` looks for an artifact in the last successful runs of the
workflow, newest first, and rebuilds the structure of what it finds. The main program
flashes that, unless it is given a build of its own. The answers of GitHub are
parameters, in the shape of its API.
-/

namespace HomeNode.Flash

open FileTree

/-- How a request ends. `raise_for_status` raises with a response; a connection that fails, a
timeout or a body that is no JSON raise without one. -/
inductive Response (β : Type) where
  | ok (body : β)
  | errorStatus (status : Nat)
  | noResponse

/-- An artifact of a run. -/
structure ArtifactInfo where
  name : Str
  archiveDownloadUrl : Str

/-- What GitHub answers, for archives `ζ`. The runs come newest first. -/
structure GitHub (ζ : Type) where
  runs : Str → Str → Response (List Nat)
  artifacts : Str → Str → Nat → Response (List ArtifactInfo)
  archive : Str → Response ζ

/-- `output_dir`: the archives and the extracted directories, by the name of the artifact. -/
structure OutputDir (ζ α : Type) where
  zips : Str → Option ζ
  dirs : Str → Option (FileTree α)

/-- The exceptions that are not caught. -/
inductive DownloadError where
  /-- `e.response.status_code` of an exception without a response -/
  | attribute
  /-- `zipfile` refuses the archive -/
  | badZip
  /-- `recreate_build_structure_from_flat` raises -/
  | rebuild
  deriving DecidableEq

variable {ζ α : Type}

/-! ## The name of the repository -/

def githubUrl : Str := "https://github.com/".toList
def githubHost : Str := "github.com/".toList

/-- `s.replace(pat, '')`, with the characters that are still to be passed over. -/
def removeAll (pat : Str) : Nat → Str → Str
  | _, [] => []
  | k + 1, _ :: cs => removeAll pat k cs
  | 0, c :: cs =>
    if pat.isPrefixOf (c :: cs) then removeAll pat (pat.length - 1) cs
    else c :: removeAll pat 0 cs

/-- `repo_path` -/
def repoPath (repoUrl : Str) : Str :=
  if githubUrl.isPrefixOf repoUrl then (removeAll githubUrl 0 repoUrl).rdropWhile (· = '/')
  else if githubHost.isPrefixOf repoUrl then (removeAll githubHost 0 repoUrl).rdropWhile (· = '/')
  else repoUrl.rdropWhile (· = '/')

/-- `owner, repo = repo_path.split('/', 1)`, where there is a slash. -/
def parseRepo (repoUrl : Str) : Option (Str × Str) :=
  let path := repoPath repoUrl
  if '/' ∈ path then some (path.takeWhile (· ≠ '/'), (path.dropWhile (· ≠ '/')).tail) else none

/-! ## The download -/

abbrev Downloaded := Except DownloadError (Option (Str × TreePath))

/-- The `except` clause. -/
def requestException {β : Type} : Response β → Downloaded
  | .noResponse => .error .attribute
  | _ => .ok none

/-- An artifact that was found: it is saved, extracted and rebuilt. -/
def fetchArtifact (gh : GitHub ζ) (extractall : ζ → Option (FileTree α)) (o : Listing) (name : Str)
    (a : ArtifactInfo) (out : OutputDir ζ α) : OutputDir ζ α × Downloaded :=
  match gh.archive a.archiveDownloadUrl with
  | .ok zip =>
    -- what an earlier download has extracted is removed
    let saved : OutputDir ζ α :=
      ⟨Function.update out.zips name (some zip), Function.update out.dirs name none⟩
    match extractall zip with
    | none => (saved, .error .badZip)
    | some flat =>
      match recreateBuildStructureFromFlat o flat with
      | none => ({ saved with dirs := Function.update out.dirs name (some flat) }, .error .rebuild)
      | some (path, r) =>
        (⟨Function.update out.zips name none, Function.update out.dirs name (some r.tree)⟩,
          .ok (some (name, path)))
  | r => (out, requestException r)

/-- The loop over the runs. -/
def tryRuns (gh : GitHub ζ) (extractall : ζ → Option (FileTree α)) (o : Listing)
    (owner repo name : Str) (out : OutputDir ζ α) : List Nat → OutputDir ζ α × Downloaded
  | [] => (out, .ok none)
  | run :: runs =>
    match gh.artifacts owner repo run with
    | .ok artifacts =>
      match artifacts.find? fun a => a.name = name with
      | some a => fetchArtifact gh extractall o name a out
      | none => tryRuns gh extractall o owner repo name out runs
    | r => (out, requestException r)

/-- GitHub as it answers the requests, which have a token unless that is empty. -/
def withToken (github : Option Str → GitHub ζ) (token : Option Str) : GitHub ζ :=
  github (token.filter fun t => t ≠ [])

/-- `github` is what GitHub answers to requests with a token or without. -/
def downloadLatestArtifact (github : Option Str → GitHub ζ) (extractall : ζ → Option (FileTree α))
    (o : Listing) (repoUrl name : Str) (token : Option Str) (out : OutputDir ζ α) :
    OutputDir ζ α × Downloaded :=
  match parseRepo repoUrl with
  | none => (out, .ok none)
  | some (owner, repo) =>
    let gh := withToken github token
    match gh.runs owner repo with
    | .ok runs => tryRuns gh extractall o owner repo name out runs
    | r => (out, requestException r)

/-! ## Which build it is -/

section

variable {gh : GitHub ζ} {extractall : ζ → Option (FileTree α)} {o : Listing}
  {owner repo name : Str} {out out' : OutputDir ζ α} {runs : List Nat} {path : Str × TreePath}

/-- The artifact is in this run. -/
def Offers (gh : GitHub ζ) (owner repo name : Str) (run : Nat) (a : ArtifactInfo) : Prop :=
  ∃ artifacts, gh.artifacts owner repo run = .ok artifacts ∧
    artifacts.find? (fun a => a.name = name) = some a

/-- The run answers, and does not have the artifact. -/
def Lacks (gh : GitHub ζ) (owner repo name : Str) (run : Nat) : Prop :=
  ∃ artifacts, gh.artifacts owner repo run = .ok artifacts ∧ ∀ a ∈ artifacts, a.name ≠ name

/-- What a download makes of the archive of an artifact, and leaves in `output_dir`. -/
def RebuiltFrom (gh : GitHub ζ) (extractall : ζ → Option (FileTree α)) (o : Listing) (name : Str)
    (out : OutputDir ζ α) (a : ArtifactInfo) (path : Str × TreePath) (out' : OutputDir ζ α) :
    Prop :=
  ∃ zip flat r, gh.archive a.archiveDownloadUrl = .ok zip ∧ extractall zip = some flat ∧
    recreateBuildStructureFromFlat o flat = some (path.2, r) ∧ path.1 = name ∧
    out' = ⟨Function.update out.zips name none, Function.update out.dirs name (some r.tree)⟩

theorem fetchArtifact_eq_ok_some {a : ArtifactInfo} :
    fetchArtifact gh extractall o name a out = (out', .ok (some path)) ↔
      RebuiltFrom gh extractall o name out a path out' := by
  unfold fetchArtifact RebuiltFrom
  cases harchive : gh.archive a.archiveDownloadUrl with
  | errorStatus status => simp [requestException]
  | noResponse => simp [requestException]
  | ok zip =>
    cases hextract : extractall zip with
    | none => simp [hextract]
    | some flat =>
      cases hrec : recreateBuildStructureFromFlat o flat with
      | none => simp [hextract, hrec]
      | some built =>
        obtain ⟨p, r⟩ := built
        obtain ⟨n, q⟩ := path
        simp only [hextract, hrec, Prod.mk.injEq, Except.ok.injEq, Option.some.injEq,
          Response.ok.injEq, exists_and_left, exists_eq_left']
        constructor
        · rintro ⟨rfl, rfl, rfl⟩
          exact ⟨r, ⟨rfl, rfl⟩, rfl, rfl⟩
        · rintro ⟨r', ⟨rfl, rfl⟩, rfl, rfl⟩
          exact ⟨rfl, rfl, rfl⟩

/-- The run ends the loop: with a build of the artifact that it offers. -/
def Yields (gh : GitHub ζ) (extractall : ζ → Option (FileTree α)) (o : Listing)
    (owner repo name : Str) (out : OutputDir ζ α) (path : Str × TreePath) (out' : OutputDir ζ α)
    (run : Nat) : Prop :=
  ∃ a, Offers gh owner repo name run a ∧ RebuiltFrom gh extractall o name out a path out'

/-- The run ends the loop: a request to it or for its artifact gets no response. -/
def Unanswered (gh : GitHub ζ) (owner repo name : Str) (run : Nat) : Prop :=
  gh.artifacts owner repo run = .noResponse ∨
    ∃ a, Offers gh owner repo name run a ∧ gh.archive a.archiveDownloadUrl = .noResponse

/-- The turn of the loop at a run that answers. -/
theorem tryRuns_cons (extractall : ζ → Option (FileTree α)) (o : Listing) (name : Str)
    (out : OutputDir ζ α) (run : Nat) (runs : List Nat) {artifacts : List ArtifactInfo}
    (h : gh.artifacts owner repo run = .ok artifacts) :
    (∃ a, (∀ a', Offers gh owner repo name run a' ↔ a' = a) ∧ ¬ Lacks gh owner repo name run ∧
        tryRuns gh extractall o owner repo name out (run :: runs) =
          fetchArtifact gh extractall o name a out) ∨
      (∀ a, ¬ Offers gh owner repo name run a) ∧ Lacks gh owner repo name run ∧
        tryRuns gh extractall o owner repo name out (run :: runs) =
          tryRuns gh extractall o owner repo name out runs := by
  have hoffers : ∀ a, Offers gh owner repo name run a ↔
      artifacts.find? (fun a => a.name = name) = some a := by
    intro a
    simp [Offers, h]
  have hlacks : Lacks gh owner repo name run ↔
      artifacts.find? (fun a => a.name = name) = none := by
    simp [Lacks, h]
  have hturn : tryRuns gh extractall o owner repo name out (run :: runs) =
      match artifacts.find? (fun a => a.name = name) with
      | some a => fetchArtifact gh extractall o name a out
      | none => tryRuns gh extractall o owner repo name out runs := by
    rw [tryRuns, h]
  simp only [hoffers, hlacks, hturn]
  cases artifacts.find? (fun a => a.name = name) with
  | some a => exact .inl ⟨a, by simp [eq_comm], by simp, rfl⟩
  | none => exact .inr ⟨by simp, rfl, rfl⟩

/-- The loop ends with a build exactly when the runs before the first one with the artifact
answer, and that artifact can be had and rebuilt. -/
theorem tryRuns_eq_ok_some :
    tryRuns gh extractall o owner repo name out runs = (out', .ok (some path)) ↔
      ∃ newer run older, runs = newer ++ run :: older ∧
        (∀ r ∈ newer, Lacks gh owner repo name r) ∧
        Yields gh extractall o owner repo name out path out' run := by
  induction runs with
  | nil => simp [tryRuns]
  | cons run runs ih =>
    rw [Trace.exists_first_cons, ← ih, Yields]
    cases hartifacts : gh.artifacts owner repo run with
    | errorStatus status => simp [tryRuns, Offers, Lacks, hartifacts, requestException]
    | noResponse => simp [tryRuns, Offers, Lacks, hartifacts, requestException]
    | ok artifacts =>
      rcases tryRuns_cons extractall o name out run runs hartifacts with
        ⟨a, hoffers, hlacks, hturn⟩ | ⟨hoffers, hlacks, hturn⟩
      · simp only [hturn, hoffers, hlacks, fetchArtifact_eq_ok_some, exists_eq_left, false_and,
          or_false]
      · simp only [hturn, hoffers, hlacks, false_and, exists_false, true_and, false_or]

theorem fetchArtifact_eq_attribute {a : ArtifactInfo} :
    (fetchArtifact gh extractall o name a out).2 = .error .attribute ↔
      gh.archive a.archiveDownloadUrl = .noResponse := by
  unfold fetchArtifact
  cases harchive : gh.archive a.archiveDownloadUrl with
  | errorStatus status => simp [requestException]
  | noResponse => simp [requestException]
  | ok zip =>
    cases hextract : extractall zip with
    | none => simp [hextract]
    | some flat => cases hrec : recreateBuildStructureFromFlat o flat <;> simp [hextract, hrec]

theorem tryRuns_eq_attribute :
    (tryRuns gh extractall o owner repo name out runs).2 = .error .attribute ↔
      ∃ newer run older, runs = newer ++ run :: older ∧
        (∀ r ∈ newer, Lacks gh owner repo name r) ∧ Unanswered gh owner repo name run := by
  induction runs with
  | nil => simp [tryRuns]
  | cons run runs ih =>
    rw [Trace.exists_first_cons, ← ih, Unanswered]
    cases hartifacts : gh.artifacts owner repo run with
    | errorStatus status => simp [tryRuns, Offers, Lacks, hartifacts, requestException]
    | noResponse => simp [tryRuns, Offers, Lacks, hartifacts, requestException]
    | ok artifacts =>
      rcases tryRuns_cons extractall o name out run runs hartifacts with
        ⟨a, hoffers, hlacks, hturn⟩ | ⟨hoffers, hlacks, hturn⟩
      · simp only [hturn, hoffers, hlacks, fetchArtifact_eq_attribute, exists_eq_left, false_and,
          or_false, reduceCtorEq, false_or]
      · simp only [hturn, hoffers, hlacks, false_and, exists_false, true_and, false_or,
          reduceCtorEq]

/-- Where the download comes to nothing, nothing is left on the disk. -/
theorem fetchArtifact_out {a : ArtifactInfo}
    (h : (fetchArtifact gh extractall o name a out).2 = .ok none ∨
      (fetchArtifact gh extractall o name a out).2 = .error .attribute) :
    (fetchArtifact gh extractall o name a out).1 = out := by
  unfold fetchArtifact at h ⊢
  cases harchive : gh.archive a.archiveDownloadUrl with
  | errorStatus status => rfl
  | noResponse => rfl
  | ok zip =>
    cases hextract : extractall zip with
    | none => simp [harchive, hextract] at h
    | some flat =>
      cases hrec : recreateBuildStructureFromFlat o flat <;>
        simp [harchive, hextract, hrec] at h

theorem tryRuns_out
    (h : (tryRuns gh extractall o owner repo name out runs).2 = .ok none ∨
      (tryRuns gh extractall o owner repo name out runs).2 = .error .attribute) :
    (tryRuns gh extractall o owner repo name out runs).1 = out := by
  induction runs with
  | nil => rfl
  | cons run runs ih =>
    cases hartifacts : gh.artifacts owner repo run with
    | errorStatus status => simp [tryRuns, hartifacts]
    | noResponse => simp [tryRuns, hartifacts]
    | ok artifacts =>
      rcases tryRuns_cons extractall o name out run runs hartifacts with
        ⟨a, -, -, hturn⟩ | ⟨-, -, hturn⟩
      · rw [hturn] at h ⊢
        exact fetchArtifact_out h
      · rw [hturn] at h ⊢
        exact ih h

theorem exists_parsed {P : Str → Str → Prop} :
    (∃ owner' repo', some (owner, repo) = some (owner', repo') ∧ P owner' repo') ↔
      P owner repo := by
  constructor
  · rintro ⟨_, _, heq, h⟩
    obtain ⟨rfl, rfl⟩ := Prod.mk.inj (Option.some.inj heq)
    exact h
  · exact fun h => ⟨owner, repo, rfl, h⟩

end

section

variable (github : Option Str → GitHub ζ) (extractall : ζ → Option (FileTree α)) (o : Listing)
  (repoUrl name : Str) (token : Option Str) (out : OutputDir ζ α)

theorem downloadLatestArtifact_eq_ok_some (out' : OutputDir ζ α) (path : Str × TreePath) :
    downloadLatestArtifact github extractall o repoUrl name token out = (out', .ok (some path)) ↔
      ∃ owner repo, parseRepo repoUrl = some (owner, repo) ∧ ∃ newer run older,
        (withToken github token).runs owner repo = .ok (newer ++ run :: older) ∧
        (∀ r ∈ newer, Lacks (withToken github token) owner repo name r) ∧
        Yields (withToken github token) extractall o owner repo name out path out' run := by
  unfold downloadLatestArtifact
  cases hparse : parseRepo repoUrl with
  | none => simp
  | some ownerRepo =>
    obtain ⟨owner, repo⟩ := ownerRepo
    rw [exists_parsed]
    cases hruns : (withToken github token).runs owner repo with
    | errorStatus status => simp [hruns, requestException]
    | noResponse => simp [hruns, requestException]
    | ok runs => simp only [hruns, tryRuns_eq_ok_some, Response.ok.injEq]

theorem downloadLatestArtifact_eq_attribute :
    (downloadLatestArtifact github extractall o repoUrl name token out).2 = .error .attribute ↔
      ∃ owner repo, parseRepo repoUrl = some (owner, repo) ∧
        ((withToken github token).runs owner repo = .noResponse ∨ ∃ newer run older,
          (withToken github token).runs owner repo = .ok (newer ++ run :: older) ∧
          (∀ r ∈ newer, Lacks (withToken github token) owner repo name r) ∧
          Unanswered (withToken github token) owner repo name run) := by
  unfold downloadLatestArtifact
  cases hparse : parseRepo repoUrl with
  | none => simp
  | some ownerRepo =>
    obtain ⟨owner, repo⟩ := ownerRepo
    rw [exists_parsed]
    cases hruns : (withToken github token).runs owner repo with
    | errorStatus status => simp [hruns, requestException]
    | noResponse => simp [hruns, requestException]
    | ok runs => simp only [hruns, tryRuns_eq_attribute, reduceCtorEq, false_or, Response.ok.injEq]

theorem downloadLatestArtifact_out
    (h : (downloadLatestArtifact github extractall o repoUrl name token out).2 = .ok none ∨
      (downloadLatestArtifact github extractall o repoUrl name token out).2 = .error .attribute) :
    (downloadLatestArtifact github extractall o repoUrl name token out).1 = out := by
  unfold downloadLatestArtifact at h ⊢
  cases hparse : parseRepo repoUrl with
  | none => rfl
  | some ownerRepo =>
    obtain ⟨owner, repo⟩ := ownerRepo
    cases hruns : (withToken github token).runs owner repo with
    | errorStatus status => simp [hruns]
    | noResponse => simp [hruns]
    | ok runs =>
      simp only [hparse, hruns] at h ⊢
      exact tryRuns_out h

/-- A build is downloaded exactly when the runs are listed, those newer than the first one
with the artifact answer without it, and its archive can be had, extracted and rebuilt: it
is the build of that run, whatever an earlier download has left, and no archive stays. The
first request that gets no response ends the script with an `AttributeError` instead of a
message. Where a download gives up or ends so, `output_dir` is left as it was. -/
theorem downloadLatestArtifact_ends :
    (∀ out' path,
      downloadLatestArtifact github extractall o repoUrl name token out =
          (out', .ok (some path)) ↔
        ∃ owner repo, parseRepo repoUrl = some (owner, repo) ∧ ∃ newer run older,
          (withToken github token).runs owner repo = .ok (newer ++ run :: older) ∧
          (∀ r ∈ newer, Lacks (withToken github token) owner repo name r) ∧
          Yields (withToken github token) extractall o owner repo name out path out' run) ∧
    ((downloadLatestArtifact github extractall o repoUrl name token out).2 = .error .attribute ↔
      ∃ owner repo, parseRepo repoUrl = some (owner, repo) ∧
        ((withToken github token).runs owner repo = .noResponse ∨ ∃ newer run older,
          (withToken github token).runs owner repo = .ok (newer ++ run :: older) ∧
          (∀ r ∈ newer, Lacks (withToken github token) owner repo name r) ∧
          Unanswered (withToken github token) owner repo name run)) ∧
    ((downloadLatestArtifact github extractall o repoUrl name token out).2 = .ok none ∨
      (downloadLatestArtifact github extractall o repoUrl name token out).2 = .error .attribute →
      (downloadLatestArtifact github extractall o repoUrl name token out).1 = out) :=
  ⟨downloadLatestArtifact_eq_ok_some github extractall o repoUrl name token out,
    downloadLatestArtifact_eq_attribute github extractall o repoUrl name token out,
    downloadLatestArtifact_out github extractall o repoUrl name token out⟩

end

/-! ## The main program -/

/-- The arguments of the script. `buildPath` is where the given path leads. -/
structure Args where
  repo : Option Str := none
  token : Option Str := none
  artifact : Option Str := none
  port : Option Str := none
  chip : Option Str := none
  buildPath : Option TreePath := none
  listPorts : Bool := false
  downloadOnly : Bool := false
  monitor : Bool := false

/-- What the script runs in. -/
structure Host (ζ α : Type) where
  githubToken : Option Str
  github : Option Str → GitHub ζ
  extractall : ζ → Option (FileTree α)
  listing : Listing
  fs : FileTree α
  jsonLoad : α → Option Json
  popen : Popen
  executable : Str

/-- A build that was given, or one in `output_dir`. -/
inductive Build where
  | given (path : TreePath)
  | downloaded (name : Str) (path : TreePath)

/-- The exit status, what `flash_with_idf` did if it was called, and whether the monitor was
started. An exception that is not caught exits with 1. -/
structure Exit (ζ α : Type) where
  status : Nat
  flashed : Option Outcome := none
  monitored : Bool := false
  out : OutputDir ζ α

/-- An argument that is given and not empty. -/
def truthy (s : Option Str) : Option Str := s.filter fun s => s ≠ []

/-- `flash_with_idf` on a build, if that exists. -/
def Host.flash (h : Host ζ α) (out : OutputDir ζ α) (port chip : Str) : Build → Option Outcome
  | .given path =>
    if (h.fs.find path).isSome then
      some (flashWithIdf h.jsonLoad h.popen h.executable port chip h.fs path)
    else none
  | .downloaded name path =>
    (out.dirs name).bind fun t =>
      if (t.find path).isSome then
        some (flashWithIdf h.jsonLoad h.popen h.executable port chip t path)
      else none

/-- The part of the program behind the download. -/
def Host.finish (h : Host ζ α) (args : Args) (out : OutputDir ζ α) (build : Option Build) :
    Exit ζ α :=
  match truthy args.port, truthy args.chip, build with
  | some port, some chip, some build =>
    match h.flash out port chip build with
    | none => { status := 1, out := out }
    | some outcome =>
      match outcome.result with
      | .ok true => { status := 0, flashed := some outcome, monitored := args.monitor, out := out }
      | .ok false => { status := 1, flashed := some outcome, out := out }
      | .error _ => { status := 1, flashed := some outcome, out := out }
  | _, _, _ => { status := 1, out := out }

def Host.main (h : Host ζ α) (args : Args) (out : OutputDir ζ α) : Exit ζ α :=
  if args.listPorts then { status := 0, out := out }
  else
    match truthy args.repo, truthy args.artifact with
    | some repo, some artifact =>
      let token := (truthy args.token).or h.githubToken
      match downloadLatestArtifact h.github h.extractall h.listing repo artifact token out with
      | (out, .ok (some (name, path))) =>
        if args.downloadOnly then { status := 0, out := out }
        else
          h.finish args out (some ((args.buildPath.map .given).getD (.downloaded name path)))
      | (out, _) => { status := 1, out := out }
    | _, _ => h.finish args out (args.buildPath.map .given)

/-! ## From the workflow to the device -/

variable {h : Host ζ α} {args : Args} {out : OutputDir ζ α} {port chip : Str}

/-- The exit status tells how flashing has ended. -/
theorem finish_of_flash {build : Build} {outcome : Outcome} (hport : truthy args.port = some port)
    (hchip : truthy args.chip = some chip) (hflash : h.flash out port chip build = some outcome) :
    (h.finish args out (some build)).flashed = some outcome ∧
      ((h.finish args out (some build)).status = 0 ↔ outcome.result = .ok true) := by
  simp only [Host.finish, hport, hchip, hflash]
  split
  · next hresult => simp [hresult]
  · next hresult => simp [hresult]
  · next hresult => simp [hresult]

/-- The arguments ask for an artifact of a repository to be downloaded and flashed. -/
structure Args.AskFor (args : Args) (repoUrl name port chip : Str) : Prop where
  listPorts : args.listPorts = false
  downloadOnly : args.downloadOnly = false
  repo : truthy args.repo = some repoUrl
  artifact : truthy args.artifact = some name
  port : truthy args.port = some port
  chip : truthy args.chip = some chip
  buildPath : args.buildPath = none

/-- The newest run with the artifact has archived the build `b`. -/
def NewestArchives (gh : GitHub ζ) (extractall : ζ → Option (FileTree α)) (owner repo name : Str)
    (b : FileTree α) : Prop :=
  ∃ newer run older a zip flat o flashInfo,
    gh.runs owner repo = .ok (newer ++ run :: older) ∧
    (∀ r ∈ newer, Lacks gh owner repo name r) ∧ Offers gh owner repo name run a ∧
    gh.archive a.archiveDownloadUrl = .ok zip ∧ extractall zip = some flat ∧
    archiveFirmware o b flashInfo = some flat

/-- The requests of the script. -/
def Host.gh (h : Host ζ α) (args : Args) : GitHub ζ :=
  withToken h.github ((truthy args.token).or h.githubToken)

/-- Asked for an artifact of which the newest run has archived the build `b`, the script flashes
what `flash_with_idf` would flash of `b`, and exits with 0 exactly if that succeeds. -/
theorem main_flashes_archived {repoUrl name owner repo : Str} {b : FileTree α}
    (hask : args.AskFor repoUrl name port chip) (hparse : parseRepo repoUrl = some (owner, repo))
    (hnewest : NewestArchives (h.gh args) h.extractall owner repo name b)
    (hhidden : ∀ n ∈ mainBins b [], n.head? ≠ some '.')
    (hargs : b.find [flasherArgsJson] ≠ some .dir) :
    (h.main args out).flashed =
        some (flashWithIdf h.jsonLoad h.popen h.executable port chip b []) ∧
      ((h.main args out).status = 0 ↔
        (flashWithIdf h.jsonLoad h.popen h.executable port chip b []).result = .ok true) := by
  obtain ⟨newer, run, older, a, zip, flat, o, flashInfo, hruns, hnewer, hoffers, hzip, hextract,
    harchive⟩ := hnewest
  have hflat := (archiveFirmware_eq_some harchive).isFlat
  obtain ⟨r, hrec, hrebuilt⟩ := recreate_rebuilt h.listing hflat.flatBeside
  have hroot : r.tree.find buildPath = some .dir :=
    (hrebuilt.dir buildPath List.suffix_rfl).mpr (.inl rfl)
  have hdownload := (downloadLatestArtifact_eq_ok_some h.github h.extractall h.listing repoUrl name
    ((truthy args.token).or h.githubToken) out _ (name, buildPath)).mpr
      ⟨owner, repo, hparse, newer, run, older, hruns, hnewer, a, hoffers, zip, flat, r, hzip,
        hextract, hrec, rfl, rfl⟩
  have hmain : h.main args out = h.finish args
      ⟨Function.update out.zips name none, Function.update out.dirs name (some r.tree)⟩
      (some (.downloaded name buildPath)) := by
    simp [Host.main, hask.listPorts, hask.downloadOnly, hask.repo, hask.artifact, hask.buildPath,
      hdownload]
  rw [hmain, ← flashWithIdf_eq_of_rebuilt harchive hrebuilt hhidden hargs]
  apply finish_of_flash hask.port hask.chip
  simp [Host.flash, hroot]

/-- Two runs, of which the older one has archived the small build. -/
def smallHost : Host Unit Nat where
  githubToken := none
  github _ := {
    runs := fun _ _ => .ok [8, 7]
    artifacts := fun _ _ run => .ok (if run = 7 then [⟨"esp32s3-firmware".toList, []⟩] else [])
    archive := fun _ => .ok () }
  extractall _ := smallBuild.bind fun b => archiveFirmware ⟨id, List.Perm.refl⟩ b 0
  listing := ⟨List.reverse, List.reverse_perm⟩
  fs := FileTree.empty
  jsonLoad _ := none
  popen := .exits 0
  executable := "python3".toList

def smallArgs : Args where
  repo := some "owner/repo/".toList
  artifact := some "esp32s3-firmware".toList
  port := some "COM5".toList
  chip := some "esp32s3".toList

theorem main_flashes_archived_smallBuild :
    ∃ b, smallBuild = some b ∧
      (smallHost.main smallArgs ⟨fun _ => none, fun _ => none⟩).flashed =
        some (flashWithIdf (fun _ => none) (.exits 0) "python3".toList "COM5".toList
          "esp32s3".toList b []) := by
  have hsome : (smallBuild.bind fun b => archiveFirmware ⟨id, List.Perm.refl⟩ b 0).isSome := by
    decide +kernel
  obtain ⟨flat, hflat⟩ := Option.isSome_iff_exists.mp hsome
  obtain ⟨b, hb, harchive⟩ := Option.bind_eq_some_iff.mp hflat
  have hbins : ∀ b ∈ smallBuild, mainBins b [] = ["home-node.bin".toList] := by decide +kernel
  have hargs : ∀ b ∈ smallBuild, b.find [flasherArgsJson] = none := by decide +kernel
  have hhidden : ∀ n ∈ mainBins b [], n.head? ≠ some '.' := by
    rw [hbins b hb]
    decide
  have hask : smallArgs.AskFor "owner/repo/".toList "esp32s3-firmware".toList "COM5".toList
      "esp32s3".toList := by
    constructor <;> decide +kernel
  have hextract : smallHost.extractall () = some flat := by
    simp only [smallHost]
    exact hflat
  have hnewest : NewestArchives (smallHost.gh smallArgs) smallHost.extractall "owner".toList
      "repo".toList "esp32s3-firmware".toList b := by
    refine ⟨[8], 7, [], ⟨"esp32s3-firmware".toList, []⟩, (), flat, _, 0, rfl, ?_, ?_, rfl,
      hextract, harchive⟩
    · intro r hr
      obtain rfl := List.mem_singleton.mp hr
      exact ⟨[], rfl, by simp⟩
    · exact ⟨_, rfl, rfl⟩
  exact ⟨b, hb, (main_flashes_archived hask (by decide) hnewest hhidden (by simp [hargs b hb])).1⟩

end HomeNode.Flash
