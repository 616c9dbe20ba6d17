-- SUMMARY: Release jobs that run at the same time: what each step of one does to the releases and to the branch with the pages.
import HomeNode.Lib.Branch
import HomeNode.Release.Pages
import Mathlib.Logic.Function.Basic

/-!
# Concurrent releases

Nothing in the workflow keeps the runs of two tags apart. Each has a clone of the
branch with the pages, and the remote takes a push only from a clone of what it has.
A step of the system is a step of one release job, with what the remote answers.
-/

namespace HomeNode.Release

open FileTree Branch Transition

/-! ## Jobs -/

/-- A run whose release files are ready for `Create Release`. -/
structure ReleaseJob (w : Workflow) where
  run : Run
  files : FileTree Content
  prepared : run.releaseFiles w = some files

namespace ReleaseJob

variable {w : Workflow}

def version (j : ReleaseJob w) : Text := j.run.refName.text

/-- What the job brings to `d` for `t`. -/
def manifest (j : ReleaseJob w) (d : OtaDir) (t : Target) : Option Content :=
  if d.source = channelOf j.version then j.files.content [otaManifestName t] else none

end ReleaseJob

/-- A release as it can be downloaded. -/
structure Published where
  files : FileTree Content
  prerelease : Bool

def ReleaseJob.published {w : Workflow} (j : ReleaseJob w) : Published :=
  ⟨j.files, isPrerelease j.version⟩

/-- Where a release job is. -/
inductive Phase where
  | queued
  | released
  /-- `git ls-remote` has shown the branch -/
  | found
  /-- it has not, and a branch of its own was made -/
  | fresh
  | cloned (c : Copy (Option Pages))
  | deployed
  | failed

/-- The releases by their tags, the branch `gh-pages`, which is not there at first, and the
jobs. -/
structure Forge (ι : Type) where
  releases : Text → Option Published
  pages : Branch (Option Pages)
  phase : ι → Phase

/-- How the last part of a deployment ends. -/
inductive Outcome where
  | pushed
  | unchanged
  | rejected
  deriving DecidableEq

inductive Label (ι : Type) where
  | createRelease (i : ι)
  /-- the upload stops, and leaves `left` -/
  | uploadFailed (i : ι) (left : Option Published)
  | lsRemote (i : ι) (seen : Bool)
  | clone (i : ι) (ok : Bool)
  /-- the first commit of a new branch, and its push -/
  | setup (i : ι) (accepted : Bool)
  | deploy (i : ι) (updatedAt updated : Text) (outcome : Outcome)

section

variable {ι : Type} [DecidableEq ι] (w : Workflow) (site : Site) (jobs : ι → ReleaseJob w)

/-- What a deployment of the job makes of the branch. -/
def deployed (i : ι) (updatedAt updated : Text) : Option Pages → Option Pages :=
  Option.map (deployOta w site (jobs i).version (jobs i).files updatedAt updated)

/-- There is something to commit. -/
def changed : Option Pages → Option Pages → Bool
  | some p, some q => !sameFiles p q
  | _, _ => true

namespace Forge

def start : Forge ι := ⟨fun _ => none, ⟨0, none⟩, fun _ => .queued⟩

def goto (s : Forge ι) (i : ι) (p : Phase) : Forge ι :=
  { s with phase := Function.update s.phase i p }

def setRelease (s : Forge ι) (v : Text) (r : Option Published) : Forge ι :=
  { s with releases := Function.update s.releases v r }

def step (s : Forge ι) : Label ι → Option (Forge ι)
  | .createRelease i =>
    match s.phase i with
    | .queued =>
      some ((s.setRelease (jobs i).version (some (jobs i).published)).goto i .released)
    | _ => none
  | .uploadFailed i left =>
    match s.phase i with
    | .queued => some ((s.setRelease (jobs i).version left).goto i .failed)
    | _ => none
  | .lsRemote i seen =>
    match s.phase i with
    -- a branch that is there is not seen when the remote does not answer
    | .released =>
      if seen then
        if s.pages.value.isSome then some (s.goto i .found) else none
      else some (s.goto i .fresh)
    | _ => none
  | .clone i ok =>
    match s.phase i with
    | .found => some (s.goto i (if ok then .cloned s.pages.checkout else .failed))
    | _ => none
  | .setup i accepted =>
    match s.phase i with
    | .fresh =>
      if accepted then
        -- a branch with a history of its own is taken only where there is none
        (s.pages.push ⟨0, some (setupPages site)⟩).map fun pages =>
          { s with pages }.goto i (.cloned pages.checkout)
      else some (s.goto i .failed)
    | _ => none
  | .deploy i updatedAt updated outcome =>
    match s.phase i with
    | .cloned c =>
      let c' := c.edit (deployed w site jobs i updatedAt updated)
      match outcome with
      | .unchanged => if changed c.value c'.value then none else some (s.goto i .deployed)
      | .pushed =>
        if changed c.value c'.value then
          (s.pages.push c').map fun pages => { s with pages }.goto i .deployed
        else none
      | .rejected => if changed c.value c'.value then some (s.goto i .failed) else none
    | _ => none

end Forge

/-- A push that was accepted. -/
inductive Commit (ι : Type) where
  | setup
  | deploy (i : ι) (updatedAt updated : Text)

def Label.commit : Label ι → Option (Commit ι)
  | .setup _ true => some .setup
  | .deploy i updatedAt updated .pushed => some (.deploy i updatedAt updated)
  | _ => none

/-- What a commit changes when nothing else goes on. -/
def Commit.apply (pages : Option Pages) : Commit ι → Option Pages
  | .setup => some (setupPages site)
  | .deploy i updatedAt updated => deployed w site jobs i updatedAt updated pages

/-- The commits of a run. -/
def commits (ls : List (Label ι)) : List (Commit ι) := ls.filterMap Label.commit

/-! ## Steps -/

/-- What each step needs, and all that it changes. -/
inductive Takes : Forge ι → Label ι → Forge ι → Prop where
  | createRelease {s i} (h : s.phase i = .queued) :
    Takes s (.createRelease i)
      ((s.setRelease (jobs i).version (some (jobs i).published)).goto i .released)
  | uploadFailed {s i left} (h : s.phase i = .queued) :
    Takes s (.uploadFailed i left) ((s.setRelease (jobs i).version left).goto i .failed)
  | seen {s i} (h : s.phase i = .released) (hbranch : s.pages.value.isSome) :
    Takes s (.lsRemote i true) (s.goto i .found)
  | unseen {s i} (h : s.phase i = .released) : Takes s (.lsRemote i false) (s.goto i .fresh)
  | clone {s i} (h : s.phase i = .found) :
    Takes s (.clone i true) (s.goto i (.cloned s.pages.checkout))
  | cloneFailed {s i} (h : s.phase i = .found) : Takes s (.clone i false) (s.goto i .failed)
  | setup {s i pages} (h : s.phase i = .fresh)
    (hpush : s.pages.push ⟨0, some (setupPages site)⟩ = some pages) :
    Takes s (.setup i true) ({ s with pages }.goto i (.cloned pages.checkout))
  | setupFailed {s i} (h : s.phase i = .fresh) : Takes s (.setup i false) (s.goto i .failed)
  | unchanged {s i c updatedAt updated} (h : s.phase i = .cloned c) :
    Takes s (.deploy i updatedAt updated .unchanged) (s.goto i .deployed)
  | pushed {s i c updatedAt updated pages} (h : s.phase i = .cloned c)
    (hpush : s.pages.push (c.edit (deployed w site jobs i updatedAt updated)) = some pages) :
    Takes s (.deploy i updatedAt updated .pushed) ({ s with pages }.goto i .deployed)
  | rejected {s i c updatedAt updated} (h : s.phase i = .cloned c) :
    Takes s (.deploy i updatedAt updated .rejected) (s.goto i .failed)

variable {w site jobs} {s s' : Forge ι} {l : Label ι}

theorem Forge.takes_of_step (h : s.step w site jobs l = some s') : Takes w site jobs s l s' := by
  cases l with
  | createRelease i | uploadFailed i left =>
    simp only [Forge.step] at h
    split at h
    · next hphase =>
      rw [← Option.some.inj h]
      constructor
      exact hphase
    · exact absurd h (by simp)
  | lsRemote i seen =>
    simp only [Forge.step] at h
    split at h
    · next hphase =>
      cases seen
      · rw [← Option.some.inj h]
        exact .unseen hphase
      · obtain ⟨hbranch, hgoto⟩ := Option.ite_none_right_eq_some.mp h
        rw [← Option.some.inj hgoto]
        exact .seen hphase hbranch
    · exact absurd h (by simp)
  | clone i ok =>
    simp only [Forge.step] at h
    split at h
    · next hphase =>
      rw [← Option.some.inj h]
      cases ok
      · exact .cloneFailed hphase
      · exact .clone hphase
    · exact absurd h (by simp)
  | setup i accepted =>
    simp only [Forge.step] at h
    split at h
    · next hphase =>
      cases accepted
      · rw [← Option.some.inj h]
        exact .setupFailed hphase
      · obtain ⟨pages, hpush, rfl⟩ := Option.map_eq_some_iff.mp h
        exact .setup hphase hpush
    · exact absurd h (by simp)
  | deploy i updatedAt updated outcome =>
    simp only [Forge.step] at h
    split at h
    · next c hphase =>
      cases outcome with
      | pushed =>
        obtain ⟨-, hmap⟩ := Option.ite_none_right_eq_some.mp h
        obtain ⟨pages, hpush, rfl⟩ := Option.map_eq_some_iff.mp hmap
        exact .pushed hphase hpush
      | unchanged =>
        rw [← Option.some.inj (Option.ite_none_left_eq_some.mp h).2]
        exact .unchanged hphase
      | rejected =>
        rw [← Option.some.inj (Option.ite_none_right_eq_some.mp h).2]
        exact .rejected hphase
    · exact absurd h (by simp)

/-- A job that has deployed is done. -/
theorem Forge.deployed_step (h : s.step w site jobs l = some s') {i : ι}
    (hi : s.phase i = .deployed) : s'.phase i = .deployed := by
  have hgoto : ∀ (s' : Forge ι) k p, s'.phase = s.phase → s.phase k ≠ .deployed →
      (s'.goto k p).phase i = .deployed := by
    intro s' k p hphase hk
    have hne : i ≠ k := fun heq => hk (heq ▸ hi)
    simp [Forge.goto, hne, hphase, hi]
  cases takes_of_step h with
  | createRelease hphase | uploadFailed hphase | seen hphase | unseen hphase | clone hphase
    | cloneFailed hphase | setup hphase | setupFailed hphase | unchanged hphase | pushed hphase
    | rejected hphase => exact hgoto _ _ _ rfl (by simp [hphase])

/-! ## The branch and its clones -/

/-- The branch is there from its first commit on, and each clone was taken from it. -/
structure Forge.Valid (s : Forge ι) : Prop where
  absent : s.pages.revision = 0 ↔ s.pages.value = none
  found : ∀ i, s.phase i = .found → s.pages.value.isSome
  clones : ∀ i c, s.phase i = .cloned c → c.Of s.pages ∧ c.value.isSome

omit [DecidableEq ι] in
theorem Forge.valid_start : (Forge.start : Forge ι).Valid where
  absent := ⟨fun _ => rfl, fun _ => rfl⟩
  found _ h := by simp [Forge.start] at h
  clones _ _ h := by simp [Forge.start] at h

/-- A job goes on without the branch. -/
theorem Forge.Valid.goto (hs : s.Valid) {i : ι} {p : Phase}
    (hfound : p = .found → s.pages.value.isSome)
    (hclone : ∀ c, p = .cloned c → c.Of s.pages ∧ c.value.isSome) : (s.goto i p).Valid where
  absent := hs.absent
  found k h := by
    by_cases hk : k = i
    · exact hfound (by simpa [Forge.goto, hk] using h)
    · exact hs.found k (by simpa [Forge.goto, hk] using h)
  clones k c h := by
    by_cases hk : k = i
    · exact hclone c (by simpa [Forge.goto, hk] using h)
    · exact hs.clones k c (by simpa [Forge.goto, hk] using h)

omit [DecidableEq ι] in
theorem Forge.Valid.setRelease (hs : s.Valid) (v : Text) (r : Option Published) :
    (s.setRelease v r).Valid :=
  ⟨hs.absent, hs.found, hs.clones⟩

omit [DecidableEq ι] in
/-- The branch takes a push. -/
theorem Forge.Valid.push (hs : s.Valid) {c : Copy (Option Pages)} {pages : Branch (Option Pages)}
    (hpush : s.pages.push c = some pages) (hsome : c.value.isSome) :
    ({ s with pages } : Forge ι).Valid where
  absent := by
    obtain ⟨-, rfl⟩ := push_eq_some hpush
    simp [Option.isSome_iff_ne_none.mp hsome]
  found _ _ := by
    obtain ⟨-, rfl⟩ := push_eq_some hpush
    exact hsome
  clones i c h := by
    obtain ⟨hof, hvalue⟩ := hs.clones i c h
    exact ⟨hof.mono (push_extends hpush), hvalue⟩

theorem Forge.Valid.preserved : Preserved (Forge.step w site jobs) Forge.Valid := by
  intro s l s' hs h
  cases takes_of_step h with
  | createRelease | uploadFailed =>
    exact (hs.setRelease _ _).goto (by simp) (by simp)
  | seen _ hbranch => exact hs.goto (fun _ => hbranch) (by simp)
  | clone hphase =>
    refine hs.goto (by simp) fun c hc => ?_
    rw [← Phase.cloned.inj hc]
    exact ⟨checkout_of _, hs.found _ hphase⟩
  | unseen | cloneFailed | setupFailed | unchanged | rejected =>
    exact hs.goto (by simp) (by simp)
  | setup _ hpush =>
    have hvalid := hs.push hpush rfl
    refine hvalid.goto (by simp) fun c hc => ?_
    rw [← Phase.cloned.inj hc]
    refine ⟨checkout_of _, ?_⟩
    obtain ⟨-, rfl⟩ := push_eq_some hpush
    rfl
  | pushed hphase hpush =>
    refine (hs.push hpush ?_).goto (by simp) (by simp)
    simpa [Copy.edit, deployed] using (hs.clones _ _ hphase).2

/-- An accepted push applies its commit to the branch as it is, and every other step leaves
it. A new branch is accepted only where there is none. -/
theorem Forge.Valid.step_pages (hs : s.Valid) (h : s.step w site jobs l = some s') :
    s'.pages = (match l.commit with
      | none => s.pages
      | some k => ⟨s.pages.revision + 1, k.apply w site jobs s.pages.value⟩) ∧
    (l.commit = some .setup → s.pages.revision = 0) := by
  cases takes_of_step h with
  | createRelease | uploadFailed | seen | unseen | clone | cloneFailed | setupFailed | unchanged
    | rejected => exact ⟨rfl, by simp [Label.commit]⟩
  | setup _ hpush =>
    obtain ⟨hbase, rfl⟩ := push_eq_some hpush
    exact ⟨rfl, fun _ => hbase.symm⟩
  | pushed hphase hpush =>
    obtain ⟨hpages, -⟩ := push_edit (hs.clones _ _ hphase).1 hpush
    exact ⟨hpages, by simp [Label.commit]⟩

end

end HomeNode.Release
