-- SUMMARY: When serving the image at the announced URL and redirecting to it lead to the same download.
import HomeNode.Ota.Delivery

/-!
# Direct and redirected downloads

`esp_http_client_perform` consumes the body of its response, and the connection
is closed behind it. An image served at the announced URL is gone by then, so
the loop reads it only from the connection of the redirect branch, which a flag
left over from an earlier iteration opens for a direct answer too.
-/

namespace HomeNode.Ota

/-! ## The bytes that are handed over -/

/-- The bytes that the reads bring to `esp_ota_write`. -/
def handed (again checked : Bool) : List ReadEnv → List UInt8
  | [] => []
  | e :: es =>
    if e.waits again then handed true checked es
    else if e.read.bytes ≠ [] ∧ (checked || (e.holdsHeader && e.begin.isSome)) then
      e.read.bytes.take maxHttpRecvBuffer ++ (if e.writeOk then handed again true es else [])
    else []

section

variable {p : Partition} {l : Loop} {e : ReadEnv}

/-- A packet that the loop hands over. -/
theorem downloadTurn_hands (hbytes : e.read.bytes ≠ [])
    (hopens : (l.headerChecked || (e.holdsHeader && e.begin.isSome)) = true) :
    (downloadTurn p l e).Hands (if e.writeOk then none else some .writeFailed) true
      (e.read.bytes.take maxHttpRecvBuffer) := by
  cases hread : e.read with
  | error => simp [hread, Read.bytes] at hbytes
  | data bs =>
    have hbs : bs ≠ [] := by simpa [hread, Read.bytes] using hbytes
    cases hchecked : l.headerChecked with
    | true => exact downloadTurn_write hread (List.length_pos_iff.mpr hbs) hchecked
    | false =>
      obtain ⟨hlong, hbegin⟩ : imageHeaderSize < bs.length ∧ e.begin ≠ none := by
        simpa [hchecked, ReadEnv.holdsHeader, hread, Read.bytes, Option.isSome_iff_ne_none]
          using hopens
      have hturn := downloadTurn_begin (p := p) hread hlong hchecked
      rwa [if_neg hbegin, if_neg hbegin] at hturn

/-- Any other read that the loop does not wait through ends it, and nothing is handed over. -/
theorem downloadTurn_hands_nothing (hwaits : e.waits (l.attempts ≠ 0) = false)
    (hpacket : ¬ (e.read.bytes ≠ [] ∧
      (l.headerChecked || (e.holdsHeader && e.begin.isSome)) = true)) :
    ∃ b c, (downloadTurn p l e).Hands (some b) c [] := by
  cases hread : e.read with
  | error =>
    rw [downloadTurn_error hread]
    exact ⟨_, _, rfl, rfl, rfl⟩
  | data bs =>
    by_cases hbs : bs = []
    · subst hbs
      obtain ⟨hagain, hends⟩ : l.attempts ≠ 0 ∧ (e.connReset = false → e.complete = true) := by
        simpa [ReadEnv.waits, hread] using hwaits
      rw [downloadTurn_empty hread, handleEmptyRead, if_neg hagain]
      cases hreset : e.connReset with
      | true => exact ⟨_, _, rfl, rfl, rfl⟩
      | false =>
        rw [hends hreset]
        exact ⟨_, _, rfl, rfl, rfl⟩
    · have hpos : 0 < bs.length := List.length_pos_iff.mpr hbs
      obtain ⟨hchecked, hbegin⟩ : l.headerChecked = false ∧
          (imageHeaderSize < bs.length → e.begin = none) := by
        simpa [hread, Read.bytes, hbs, ReadEnv.holdsHeader] using hpacket
      by_cases hlong : imageHeaderSize < bs.length
      · have hturn := downloadTurn_begin (p := p) hread hlong hchecked
        rw [if_pos (hbegin hlong), if_pos (hbegin hlong)] at hturn
        exact ⟨_, _, hturn⟩
      · exact ⟨_, _, downloadTurn_short hread hpos (not_lt.mp hlong) hchecked⟩

theorem downloadLoop_handed (p : Partition) (l : Loop) (es : List ReadEnv) :
    writtenBytes (downloadLoop p l es).calls = handed (l.attempts ≠ 0) l.headerChecked es := by
  induction es generalizing l with
  | nil => rfl
  | cons e es ih =>
    have hrest := ih (downloadTurn p l e).loop
    rw [handed]
    cases hwaits : e.waits (l.attempts ≠ 0) with
    | true =>
      have hturn := downloadTurn_waiting (p := p) hwaits
      rw [hturn.checked, decide_eq_true hturn.attempts] at hrest
      rw [downloadLoop_cons rfl, if_pos rfl]
      simp only [hturn.left, Turn.after_calls, writtenBytes_append, hrest]
      rw [(waiting_quiet hturn.calls).1, List.nil_append]
    | false =>
      rw [if_neg Bool.false_ne_true]
      split_ifs with hpacket hwrite
      · -- the loop goes on behind the packet
        have hturn := downloadTurn_hands (p := p) hpacket.1 hpacket.2
        rw [hwrite, if_pos rfl] at hturn
        rw [hturn.checked, downloadTurn_attempts hpacket.1] at hrest
        rw [downloadLoop_cons rfl]
        simp only [hturn.left, Turn.after_calls, writtenBytes_append, hrest, hturn.written]
      · have hturn := downloadTurn_hands (p := p) hpacket.1 hpacket.2
        rw [if_neg hwrite] at hturn
        rw [hturn.stop.written, List.append_nil]
      · obtain ⟨b, c, hturn⟩ := downloadTurn_hands_nothing (p := p) hwaits hpacket
        exact hturn.stop.written

end

/-- An iteration that comes to the loop hands over what its reads bring. -/
theorem otaUpdate_handed (cfg : Config) (s : OtaState) (e : CycleEnv) :
    writtenBytes (otaUpdate cfg s e).calls =
      if reachesLoop cfg s e then handed false false e.reads else [] := by
  cases hreaches : reachesLoop cfg s e with
  | false =>
    have hquiet := (otaUpdate_not_reaches hreaches).1.otaWrites
    simp [writtenBytes, hquiet]
  | true =>
    obtain ⟨p, t, front, hfront, -, heq⟩ := otaUpdate_reaches hreaches
    have hloop : writtenBytes (downloadLoop p (.start t) e.reads).calls =
        handed false false e.reads := downloadLoop_handed p (.start t) e.reads
    rw [heq, CycleResult.after_calls, writtenBytes, otaWrites_append, hfront.otaWrites,
      List.nil_append, otaAfterLoop_otaWrites, ← writtenBytes, hloop, if_pos rfl]

theorem handed_eq_nil_iff (es : List ReadEnv) :
    handed false false es = [] ↔ opensUpdate es = false := by
  have hloop : writtenBytes (downloadLoop 0 (.start .init) es).calls = handed false false es :=
    downloadLoop_handed 0 (.start .init) es
  rw [← hloop]
  exact (downloadLoop_first 0 (.start .init) es rfl rfl).1

/-! ## The two answers -/

/-- Two otherwise equal iterations: the firmware request is answered with the image, or
with a redirect to it. What is read behind a direct answer comes from a closed connection
and holds no byte of the body, unless the task takes the answer for a redirect and opens
another connection. -/
structure Answers (cfg : Config) (s : OtaState) (direct redirected : CycleEnv) : Prop where
  otherwise : redirected = { direct with
    performHeaders := redirected.performHeaders
    redirectUrlOk := redirected.redirectUrlOk
    redirectOpenOk := redirected.redirectOpenOk
    redirectHeaders := redirected.redirectHeaders
    reads := redirected.reads }
  noLocation : anyLocation direct.performHeaders = false
  consumed : takesRedirect cfg s.cleared direct = false → ∀ e ∈ direct.reads, e.read.bytes = []
  location : anyLocation redirected.performHeaders = true
  leads : redirected.redirectUrlOk = true ∧ redirected.redirectOpenOk = true

/-- The two runs hand the same bytes to the flash and decide alike. -/
structure PathsAgree (cfg : Config) (s : OtaState) (direct redirected : CycleEnv) : Prop where
  written : writtenBytes (otaCycle cfg s direct).calls =
    writtenBytes (otaCycle cfg s redirected).calls
  decision : (otaCycle cfg s direct).exit.commits = (otaCycle cfg s redirected).exit.commits

/-- The reads on the connection that a direct answer is taken to lead to. -/
def CycleEnv.reopened (e : CycleEnv) : List ReadEnv := if e.redirectOpenOk then e.reads else []

/-- If the redirected iteration gets to the loop: where the task takes the direct answer for
a redirect, the connection it opens brings the same bytes and the same end. Where it does
not, the reads of the redirected one do not open the update, and unless a later call fails
the reads of both deliver nothing or the empty image alike. -/
def BringsTheSame (cfg : Config) (s : OtaState) (direct redirected : CycleEnv) : Prop :=
  redirected.validationPending = false → reachesLoop cfg s.cleared redirected = true →
    if takesRedirect cfg s.cleared direct then
      handed false false direct.reopened = handed false false redirected.reads ∧
        (redirected.commitOk = true →
          ((delivered direct.reopened).isSome = true ↔ (delivered redirected.reads).isSome = true))
    else
      opensUpdate redirected.reads = false ∧ (redirected.commitOk = true →
        ((delivered direct.reads).isSome = true ↔ (delivered redirected.reads).isSome = true))

theorem skipWaiting_suffix (again : Bool) (es : List ReadEnv) : skipWaiting again es <:+ es := by
  induction es generalizing again with
  | nil => exact List.suffix_refl _
  | cons e es ih =>
    rw [skipWaiting]
    split
    · exact (ih true).trans (List.suffix_cons e es)
    · exact List.suffix_refl _

theorem handed_of_consumed {es : List ReadEnv} (h : ∀ e ∈ es, e.read.bytes = []) :
    handed false false es = [] := by
  rw [handed_eq_nil_iff, opensUpdate]
  have hsuffix := skipWaiting_suffix false es
  cases hskip : skipWaiting false es with
  | nil => rfl
  | cons e rest =>
    rw [hskip] at hsuffix
    have hread := h e (hsuffix.subset List.mem_cons_self)
    simp [ReadEnv.holdsHeader, hread]

section

variable {cfg : Config} {s : OtaState} {direct redirected : CycleEnv}

/-- The reads that the loop of the direct iteration comes to. -/
def CycleEnv.comesTo (e : CycleEnv) (cfg : Config) (s : OtaState) : List ReadEnv :=
  if takesRedirect cfg s e then e.reopened else e.reads

/-- The direct iteration downloads those reads when the redirected one comes to the loop. -/
theorem Answers.direct_handed (h : Answers cfg s direct redirected) :
    writtenBytes (otaUpdate cfg s.cleared direct).calls =
        (if reachesLoop cfg s.cleared redirected then
          handed false false (direct.comesTo cfg s.cleared) else []) ∧
      ((otaUpdate cfg s.cleared direct).exit.commits = true ↔
        reachesLoop cfg s.cleared redirected = true ∧
          (delivered (direct.comesTo cfg s.cleared)).isSome = true ∧
          redirected.commitOk = true) := by
  have hrequests : requestsFirmware cfg s.cleared redirected =
      requestsFirmware cfg s.cleared direct := by
    rw [h.otherwise]
    rfl
  have hperform : redirected.performOk = direct.performOk := by rw [h.otherwise]
  have hpartition : redirected.nextPartition = direct.nextPartition := by rw [h.otherwise]
  have hcommit : redirected.commitOk = direct.commitOk := by
    rw [CycleEnv.commitOk, h.otherwise]
    rfl
  have hreaches : reachesLoop cfg s.cleared direct = (reachesLoop cfg s.cleared redirected &&
      (!takesRedirect cfg s.cleared direct || direct.redirectOpenOk)) := by
    rw [reachesLoop, reachesLoop, entersDownload, entersDownload, hrequests, hperform, hpartition,
      h.leads.2, Bool.or_true, Bool.and_true]
    cases !takesRedirect cfg s.cleared direct || direct.redirectOpenOk <;> simp
  rw [otaUpdate_handed, otaUpdate_commits_iff, hreaches, hcommit]
  unfold CycleEnv.comesTo CycleEnv.reopened
  cases reachesLoop cfg s.cleared redirected <;> cases takesRedirect cfg s.cleared direct <;>
    cases direct.redirectOpenOk <;> simp [handed, delivered, delivery]

theorem BringsTheSame.iff (h : Answers cfg s direct redirected) :
    BringsTheSame cfg s direct redirected ↔
      (redirected.validationPending = false → reachesLoop cfg s.cleared redirected = true →
        handed false false (direct.comesTo cfg s.cleared) = handed false false redirected.reads ∧
          (redirected.commitOk = true →
            ((delivered (direct.comesTo cfg s.cleared)).isSome = true ↔
              (delivered redirected.reads).isSome = true))) := by
  unfold BringsTheSame CycleEnv.comesTo
  cases hstale : takesRedirect cfg s.cleared direct with
  | true => rfl
  | false =>
    simp only [Bool.false_eq_true, if_false]
    rw [handed_of_consumed (h.consumed hstale), ← handed_eq_nil_iff, eq_comm (a := [])]

/-- The paths agree exactly when a flag that was left over has the direct one read the same,
or the redirected one has nothing to install. -/
theorem pathsAgree_iff (h : Answers cfg s direct redirected) :
    PathsAgree cfg s direct redirected ↔ BringsTheSame cfg s direct redirected := by
  have hgate : redirected.validationPending = direct.validationPending := by rw [h.otherwise]
  rw [BringsTheSame.iff h]
  cases hpending : redirected.validationPending with
  | true =>
    refine ⟨fun _ hopen => Bool.noConfusion hopen, fun _ => ⟨?_, ?_⟩⟩
    · rw [otaCycle, otaCycle, ← hgate, hpending]
      rfl
    · rw [otaCycle, otaCycle, ← hgate, hpending]
      rfl
  | false =>
    have hopen := otaCycle_open cfg s hpending
    have hopen' := otaCycle_open cfg s (hgate ▸ hpending)
    obtain ⟨hwritten, hcommits⟩ := h.direct_handed
    have hagree : PathsAgree cfg s direct redirected ↔
        writtenBytes (otaUpdate cfg s.cleared direct).calls =
            writtenBytes (otaUpdate cfg s.cleared redirected).calls ∧
          ((otaUpdate cfg s.cleared direct).exit.commits = true ↔
            (otaUpdate cfg s.cleared redirected).exit.commits = true) := by
      rw [← hopen, ← hopen', ← Bool.eq_iff_iff]
      exact ⟨fun hp => ⟨hp.written, hp.decision⟩, fun hp => ⟨hp.1, hp.2⟩⟩
    rw [hagree, hwritten, hcommits, otaUpdate_handed, otaUpdate_commits_iff]
    cases reachesLoop cfg s.cleared redirected <;> cases redirected.commitOk <;> simp

end

/-- The first read of the redirected connection brings the image of 300 bytes. -/
def redirectedAnswer (image : List ReadEnv) : CycleEnv :=
  sampleCycle [sampleLocation] (image ++ [{ read := .data [] }, sampleFinal])

/-- Behind the direct answer there is nothing to read. -/
def directAnswer : CycleEnv := sampleCycle [] [{ read := .data [] }, sampleFinal]

theorem not_pathsAgree_image :
    ¬ ∀ cfg s direct redirected, Answers cfg s direct redirected →
      PathsAgree cfg s direct redirected := by
  intro h
  have hanswers : Answers sampleConfig .init directAnswer (redirectedAnswer [samplePacket 300]) := {
    otherwise := rfl
    noLocation := rfl
    consumed := by simp [directAnswer, sampleCycle, sampleFinal, Read.bytes]
    location := (by decide : anyLocation [sampleLocation] = true)
    leads := ⟨rfl, rfl⟩ }
  exact absurd (h _ _ _ _ hanswers).written (by decide +kernel)

/-- After an iteration that was redirected, the direct answer is taken for a redirect too. The
client does not take the text of the manifest for a URL and opens `firmware_url` once more,
where it finds the image. -/
def staleAnswer : CycleEnv :=
  { sampleCycle [] [samplePacket 300, { read := .data [] }, sampleFinal] with
    redirectUrlOk := false }

theorem pathsAgree_stale :
    PathsAgree sampleConfig redirectedState staleAnswer (redirectedAnswer [samplePacket 300]) := by
  have hstale : takesRedirect sampleConfig redirectedState.cleared staleAnswer = true := by
    decide +kernel
  have hanswers : Answers sampleConfig redirectedState staleAnswer
      (redirectedAnswer [samplePacket 300]) := {
    otherwise := rfl
    noLocation := rfl
    consumed := fun h => by simp [hstale] at h
    location := (by decide : anyLocation [sampleLocation] = true)
    leads := ⟨rfl, rfl⟩ }
  apply (pathsAgree_iff hanswers).mpr
  intro _ _
  rw [if_pos hstale]
  exact ⟨rfl, fun _ => Iff.rfl⟩

end HomeNode.Ota
