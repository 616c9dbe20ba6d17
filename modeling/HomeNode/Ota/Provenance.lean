-- SUMMARY: Where the URL of the firmware download comes from, over any number of iterations of ota_task.
import HomeNode.Lib.Trace
import HomeNode.Ota.Task

/-!
# Provenance of the firmware URL

`expect_redirect` and `response_buffer` are shared by every request of the one
HTTP client. The flag is set by the first `Location` header the client ever
delivers and cleared by nothing, so whether the redirect branch is taken is a
fact about the whole history of the task.
-/

namespace HomeNode.Ota

/-! ## Headers and URLs of a trace -/

/-- The response headers a call delivers. -/
def Call.headers : Call → List Header
  | .fetchHeaders hs => hs
  | .perform hs _ => hs
  | _ => []

/-- The response headers delivered in a trace, in order. -/
def headersOf (calls : List Call) : List Header := calls.flatMap Call.headers

/-- `config.url` of `ota_service_init` -/
def initialUrl : CStr := ⟨CStr.ascii "http://example.com", by decide⟩

/-- The URL of the client after a call. -/
def Call.urlAfter (url : CStr) : Call → CStr
  | .setUrl url' true => url'
  | _ => url

/-- The URL of the client after a trace. -/
def urlAfter (url : CStr) (calls : List Call) : CStr := calls.foldl Call.urlAfter url

def Call.opens : Call → Bool
  | .clientOpen _ => true
  | _ => false

/-- The URLs a client opens that has `url` before the trace. -/
def openedUrls (url : CStr) : List Call → List CStr
  | [] => []
  | c :: cs => (if c.opens then [url] else []) ++ openedUrls (c.urlAfter url) cs

/-- The value of the `Location` header of a response. The last one counts. -/
def lastLocation (headers : List Header) : Option CStr :=
  ((headers.filter Header.isLocation).getLast?).map Header.value

def anyLocation (headers : List Header) : Bool := headers.any Header.isLocation

@[simp] theorem headersOf_nil : headersOf [] = [] := rfl

@[simp] theorem headersOf_cons (c : Call) (cs : List Call) :
    headersOf (c :: cs) = c.headers ++ headersOf cs := rfl

@[simp] theorem headersOf_append (cs ds : List Call) :
    headersOf (cs ++ ds) = headersOf cs ++ headersOf ds := by
  simp [headersOf]

@[simp] theorem urlAfter_nil (url : CStr) : urlAfter url [] = url := rfl

@[simp] theorem urlAfter_cons (url : CStr) (c : Call) (cs : List Call) :
    urlAfter url (c :: cs) = urlAfter (c.urlAfter url) cs := rfl

@[simp] theorem openedUrls_nil (url : CStr) : openedUrls url [] = [] := rfl

@[simp] theorem openedUrls_cons (url : CStr) (c : Call) (cs : List Call) :
    openedUrls url (c :: cs) =
      (if c.opens then [url] else []) ++ openedUrls (c.urlAfter url) cs := rfl

@[simp] theorem openedUrls_append (url : CStr) (cs ds : List Call) :
    openedUrls url (cs ++ ds) = openedUrls url cs ++ openedUrls (urlAfter url cs) ds := by
  induction cs generalizing url with
  | nil => rfl
  | cons c cs ih => simp [ih]

@[simp] theorem anyLocation_append (hs ks : List Header) :
    anyLocation (hs ++ ks) = (anyLocation hs || anyLocation ks) := by
  simp [anyLocation]

theorem lastLocation_eq_none_iff (headers : List Header) :
    lastLocation headers = none ↔ anyLocation headers = false := by
  simp [lastLocation, anyLocation]

/-! ## The event handler on a whole response -/

theorem httpEventHandler_expectRedirect (s : OtaState) (h : Header) :
    (httpEventHandler s h).expectRedirect = (s.expectRedirect || h.isLocation) := by
  unfold httpEventHandler
  cases h.isLocation <;> simp

theorem deliverHeaders_expectRedirect (s : OtaState) (headers : List Header) :
    (deliverHeaders s headers).expectRedirect = (s.expectRedirect || anyLocation headers) := by
  induction headers generalizing s with
  | nil => simp [deliverHeaders, anyLocation]
  | cons h hs ih =>
    have := ih (httpEventHandler s h)
    simpa [deliverHeaders, anyLocation, httpEventHandler_expectRedirect, Bool.or_assoc] using this

theorem deliverHeaders_append (s : OtaState) (hs ks : List Header) :
    deliverHeaders s (hs ++ ks) = deliverHeaders (deliverHeaders s hs) ks := by
  simp [deliverHeaders]

/-- After a response with a `Location` header the buffer holds its value, cut at
the size of the buffer. -/
theorem deliverHeaders_buffer (s : OtaState) {headers : List Header} {v : CStr}
    (h : lastLocation headers = some v) :
    (deliverHeaders s headers).responseBuffer.str = v.take (maxHttpRecvBuffer - 1) := by
  induction headers using List.reverseRecOn with
  | nil => simp [lastLocation] at h
  | append_singleton hs k ih =>
    rw [deliverHeaders_append]
    by_cases hk : k.isLocation
    · have hv : k.value = v := by simpa [lastLocation, hk] using h
      subst hv
      simp only [deliverHeaders, List.foldl_cons, List.foldl_nil, httpEventHandler, hk, if_true]
      exact CharArray.str_strncpy_set _ _ (by decide)
    · have hrest : lastLocation hs = some v := by simpa [lastLocation, hk] using h
      simpa [deliverHeaders, httpEventHandler, hk] using ih hrest

/-! ## The parts of an iteration that make no request -/

/-- A call that names a URL, opens it or delivers headers. -/
def Call.isRequest : Call → Bool
  | .setUrl _ _ | .clientOpen _ | .fetchHeaders _ | .perform _ _ => true
  | _ => false

/-- A trace without requests. -/
def Quiet (calls : List Call) : Prop := ∀ c ∈ calls, c.isRequest = false

theorem Quiet.append {cs ds : List Call} (hc : Quiet cs) (hd : Quiet ds) : Quiet (cs ++ ds) := by
  intro c h
  rcases List.mem_append.mp h with h | h
  · exact hc c h
  · exact hd c h

theorem Quiet.headersOf {calls : List Call} (h : Quiet calls) : headersOf calls = [] := by
  rw [Ota.headersOf, List.flatMap_eq_nil_iff]
  intro c hc
  have := h c hc
  cases c <;> simp_all [Call.isRequest, Call.headers]

theorem Quiet.openedUrls {calls : List Call} (h : Quiet calls) (url : CStr) :
    openedUrls url calls = [] := by
  induction calls with
  | nil => rfl
  | cons c cs ih =>
    have hc : c.opens = false ∧ c.urlAfter url = url := by
      have := h c List.mem_cons_self
      cases c <;> simp_all [Call.isRequest, Call.opens, Call.urlAfter]
    rw [openedUrls_cons, hc.1, hc.2, ih fun d hd => h d (List.mem_cons_of_mem c hd)]
    rfl

theorem manifestReadLoop_quiet (buffer : CharArray maxHttpRecvBuffer) (total : Nat)
    (es : List ManifestRead) : Quiet (manifestReadLoop buffer total es).calls := by
  induction es generalizing buffer total with
  | nil => simp [manifestReadLoop, Quiet]
  | cons e es ih =>
    rw [manifestReadLoop]
    cases e.read with
    | error => simp [Quiet, Call.isRequest]
    | data bs =>
      simp only
      split
      · split
        · simp [Quiet, Call.isRequest]
        · exact Quiet.append (by simp [Quiet, Call.isRequest]) (ih _ _)
      · split
        · simp [Quiet, Call.isRequest]
        · exact Quiet.append (by simp [Quiet, Call.isRequest]) (ih _ _)

theorem downloadTurn_quiet (p : Partition) (l : Loop) (e : ReadEnv) :
    Quiet (downloadTurn p l e).calls := by
  unfold downloadTurn
  cases e.read with
  | error => simp [Quiet, Call.isRequest]
  | data bs =>
    apply Quiet.append (by simp [Quiet, Call.isRequest])
    split
    · unfold handleEmptyRead
      split_ifs <;> simp [Quiet, Call.isRequest]
    · unfold handlePacket writePacket
      split_ifs <;> (try split) <;> simp [Quiet, Call.isRequest, Turn.after]

theorem downloadLoop_quiet (p : Partition) (l : Loop) (es : List ReadEnv) :
    Quiet (downloadLoop p l es).calls := by
  induction es generalizing l with
  | nil => simp [downloadLoop, Quiet]
  | cons e es ih =>
    rw [downloadLoop]
    cases (downloadTurn p l e).left with
    | some b => exact downloadTurn_quiet p l e
    | none => exact (downloadTurn_quiet p l e).append (ih _)

theorem otaDownload_quiet (s : OtaState) (e : CycleEnv) (redirected : Bool) :
    Quiet (otaDownload s e redirected).calls := by
  unfold otaDownload
  cases e.nextPartition with
  | none => simp [Quiet]
  | some p =>
    have hloop := downloadLoop_quiet p ⟨false, 0, s.updateHandle, s.responseBuffer, 0⟩ e.reads
    simp only
    split
    · exact hloop
    · apply hloop.append
      unfold otaCommit
      split_ifs <;> simp [Quiet, Call.isRequest]
    · exact hloop

/-! ## The flag over whole runs -/

/-- The flag is set by exactly the `Location` headers of the trace. -/
def FlagFollows (s : OtaState) (t : OtaState) (calls : List Call) : Prop :=
  t.expectRedirect = (s.expectRedirect || anyLocation (headersOf calls))

theorem fetchOtaManifest_quiet (cfg : Config) (s : OtaState) (e : FetchEnv) :
    ∃ rest, Quiet rest ∧ (fetchOtaManifest cfg s e).calls =
      .setUrl cfg.manifestUrl e.urlOk :: .clientOpen e.openOk ::
        (if e.openOk then .fetchHeaders e.headers :: rest else []) := by
  obtain ⟨buffer, hcalls⟩ := fetchOtaManifest_calls cfg s e
  refine ⟨_, (manifestReadLoop_quiet buffer 0 e.reads).append ?_, hcalls⟩
  split_ifs <;> simp [Quiet, Call.isRequest]

theorem fetchOtaManifest_flag (cfg : Config) (s : OtaState) (e : FetchEnv) :
    FlagFollows s (fetchOtaManifest cfg s e).state (fetchOtaManifest cfg s e).calls := by
  obtain ⟨rest, hquiet, hcalls⟩ := fetchOtaManifest_quiet cfg s e
  unfold FlagFollows
  rw [hcalls]
  unfold fetchOtaManifest
  cases e.openOk with
  | false => simp [Call.headers, anyLocation]
  | true =>
    simp only [Bool.not_true, Bool.false_eq_true, if_false, if_true]
    split
    · simp [hquiet.headersOf, Call.headers, deliverHeaders_expectRedirect]
    · split_ifs
      · simp [hquiet.headersOf, Call.headers, deliverHeaders_expectRedirect]
      · split <;> simp [hquiet.headersOf, Call.headers, deliverHeaders_expectRedirect]

theorem otaDownload_flag (s : OtaState) (e : CycleEnv) (redirected : Bool) :
    FlagFollows s (otaDownload s e redirected).state (otaDownload s e redirected).calls := by
  have hquiet := (otaDownload_quiet s e redirected).headersOf
  unfold FlagFollows
  rw [hquiet]
  unfold otaDownload otaCommit
  cases e.nextPartition with
  | none => simp [anyLocation]
  | some p =>
    simp only
    split
    · simp [anyLocation]
    · split_ifs <;> simp [anyLocation, CycleResult.after]
    · simp [anyLocation]

theorem otaRedirect_flag (s : OtaState) (e : CycleEnv) :
    FlagFollows s (otaRedirect s e).state (otaRedirect s e).calls := by
  unfold otaRedirect
  split_ifs with hflag hopen
  · simp [FlagFollows, Call.headers, anyLocation, hflag]
  · have hrest := otaDownload_flag
      (deliverHeaders { s with responseBuffer := .zeros _ } e.redirectHeaders) e true
    unfold FlagFollows at hrest ⊢
    simp only [CycleResult.after]
    rw [hrest]
    simp [Call.headers, deliverHeaders_expectRedirect, hflag]
  · exact otaDownload_flag s e false

theorem otaRequest_flag (s : OtaState) (e : CycleEnv) :
    FlagFollows s (otaRequest s e).state (otaRequest s e).calls := by
  unfold otaRequest
  split_ifs with hok
  · simp [FlagFollows, Call.headers, deliverHeaders_expectRedirect]
  · have hrest := otaRedirect_flag (deliverHeaders s e.performHeaders) e
    unfold FlagFollows at hrest ⊢
    simp [CycleResult.after, Call.headers, hrest, deliverHeaders_expectRedirect, Bool.or_assoc]

theorem otaCycle_flag (cfg : Config) (s : OtaState) (e : CycleEnv) :
    FlagFollows s (otaCycle cfg s e).state (otaCycle cfg s e).calls := by
  unfold otaCycle
  split_ifs
  · simp [FlagFollows, anyLocation]
  · have hfetch := fetchOtaManifest_flag cfg { s with updatePending := false } e.manifest
    unfold otaUpdate
    simp only
    split
    · exact hfetch
    · exact hfetch
    · split_ifs
      · exact hfetch
      · exact hfetch
      · have hrest := otaRequest_flag
          (fetchOtaManifest cfg { s with updatePending := false } e.manifest).state e
        unfold FlagFollows at hfetch hrest ⊢
        simp [CycleResult.after, hfetch, hrest, Bool.or_assoc]

/-- While `ota_task` waits, the flag says whether any response since boot had a
`Location` header. -/
theorem otaRun_flag (cfg : Config) (es : List CycleEnv) {s : OtaState}
    (h : otaRun cfg es = some s) :
    s.expectRedirect = anyLocation (headersOf (runCalls cfg .init es)) := by
  revert h
  refine Transition.run_induction
    (P := fun es s => s.expectRedirect = anyLocation (headersOf (runCalls cfg .init es)))
    ?_ ?_ es s
  · rfl
  · intro es t e u hrun ih hstep
    have hflag := otaCycle_flag cfg t e
    rw [FlagFollows, (cycleStep_eq_some.mp hstep).2] at hflag
    rw [runCalls_concat cfg .init es e hrun, headersOf_append, anyLocation_append, ← ih, hflag]

/-! ## The firmware request of an iteration -/

def Call.isPerform : Call → Bool
  | .perform _ _ => true
  | _ => false

theorem Quiet.not_isPerform {calls : List Call} (h : Quiet calls) :
    ∀ c ∈ calls, ¬ c.isPerform := by
  intro c hc
  have := h c hc
  cases c <;> simp_all [Call.isRequest, Call.isPerform]

theorem fetchOtaManifest_not_isPerform (cfg : Config) (s : OtaState) (e : FetchEnv) :
    ∀ c ∈ (fetchOtaManifest cfg s e).calls, ¬ c.isPerform := by
  obtain ⟨rest, hquiet, hcalls⟩ := fetchOtaManifest_quiet cfg s e
  rw [hcalls]
  have := hquiet.not_isPerform
  cases e.openOk <;> simp_all [Call.isPerform]

theorem otaRedirect_not_isPerform (s : OtaState) (e : CycleEnv) :
    ∀ c ∈ (otaRedirect s e).calls, ¬ c.isPerform := by
  unfold otaRedirect
  split_ifs
  · simp [Call.isPerform]
  · have := (otaDownload_quiet (deliverHeaders { s with responseBuffer := .zeros _ }
      e.redirectHeaders) e true).not_isPerform
    simp_all [CycleResult.after, Call.isPerform]
  · exact (otaDownload_quiet s e false).not_isPerform

/-- An iteration that gets an answer to its firmware request: what came before
the request, and what follows it. -/
theorem otaCycle_perform {cfg : Config} {s : OtaState} {e : CycleEnv} {pre post : List Call}
    {hs : List Header} (h : (otaCycle cfg s e).calls = pre ++ .perform hs true :: post) :
    ∃ t : OtaState, FlagFollows s t pre ∧ hs = e.performHeaders ∧
      post = .clientClose :: (otaRedirect (deliverHeaders t hs) e).calls := by
  unfold otaCycle at h
  split_ifs at h
  · simp at h
  set s' : OtaState := { s with updatePending := false } with hs'
  have hfetch := fetchOtaManifest_not_isPerform cfg s' e.manifest
  have hflag := fetchOtaManifest_flag cfg s' e.manifest
  set fetch := fetchOtaManifest cfg s' e.manifest with hfetchDef
  -- an exit before the request has no call of this kind
  have hnone : fetch.calls ≠ pre ++ .perform hs true :: post := by
    intro heq
    exact hfetch (.perform hs true) (by simp [heq]) rfl
  unfold otaUpdate at h
  simp only [← hfetchDef] at h
  split at h
  · exact absurd h hnone
  · exact absurd h hnone
  split_ifs at h
  · exact absurd h hnone
  · exact absurd h hnone
  unfold otaRequest at h
  split_ifs at h with hok
  · simp only [CycleResult.after] at h
    have hmem : Call.perform hs true ∈ fetch.calls ++
        [.setUrl fetch.state.manifest.firmwareUrl.str e.urlOk,
          .perform e.performHeaders e.performOk, .clientClose] := by
      rw [h]; simp
    simp only [List.mem_append, List.mem_cons] at hmem
    rcases hmem with hmem | hmem | hmem | hmem | hmem
    · exact absurd rfl (hfetch _ hmem)
    · cases hmem
    · simp_all
    · cases hmem
    · cases hmem
  · simp only [CycleResult.after] at h
    have hpost := otaRedirect_not_isPerform (deliverHeaders fetch.state e.performHeaders) e
    have hbefore : ∀ c ∈ fetch.calls ++ [.setUrl fetch.state.manifest.firmwareUrl.str e.urlOk],
        ¬ c.isPerform := by
      intro c hc
      rcases List.mem_append.mp hc with hc | hc
      · exact hfetch c hc
      · rw [List.mem_singleton.mp hc]
        simp [Call.isPerform]
    have hafter : ∀ c ∈ .clientClose ::
        (otaRedirect (deliverHeaders fetch.state e.performHeaders) e).calls, ¬ c.isPerform := by
      intro c hc
      rcases List.mem_cons.mp hc with rfl | hc
      · simp [Call.isPerform]
      · exact hpost c hc
    have hsplit := Trace.split_unique (p := fun c => Call.isPerform c = true)
      (x := .perform e.performHeaders e.performOk) (by simpa using h) hbefore hafter rfl
    obtain ⟨rfl, hreq, rfl⟩ := hsplit
    simp only [Call.perform.injEq] at hreq
    obtain ⟨rfl, -⟩ := hreq
    refine ⟨fetch.state, ?_, rfl, rfl⟩
    unfold FlagFollows at hflag ⊢
    simpa [Call.headers, hs'] using hflag

/-- The redirect branch opens the text of the buffer, or the URL that the client has when it
does not take that text. -/
theorem openedUrls_otaRedirect (s : OtaState) (e : CycleEnv) (url : CStr) :
    openedUrls url (otaRedirect s e).calls =
      if s.expectRedirect then [if e.redirectUrlOk then s.responseBuffer.str else url] else [] := by
  unfold otaRedirect
  split_ifs with hflag hopen hurl hurl
  · simp [Call.opens, Call.urlAfter, hurl]
  · simp [Call.opens, Call.urlAfter, hurl]
  · have hquiet := (otaDownload_quiet (deliverHeaders { s with responseBuffer := .zeros _ }
      e.redirectHeaders) e true).openedUrls
    simp [Call.opens, Call.urlAfter, CycleResult.after, hquiet, hurl]
  · have hquiet := (otaDownload_quiet (deliverHeaders { s with responseBuffer := .zeros _ }
      e.redirectHeaders) e true).openedUrls
    simp [Call.opens, Call.urlAfter, CycleResult.after, hquiet, hurl]
  · exact (otaDownload_quiet s e false).openedUrls url

/-! ## Provenance -/

/-- `firmware_url` of the manifest that the iteration fetches. -/
def announcedUrl (cfg : Config) (s : OtaState) (e : CycleEnv) : CStr :=
  (fetchOtaManifest cfg { s with updatePending := false } e.manifest).state.manifest.firmwareUrl.str

/-- The `Location` header in the answer `hs` to the request for `announced`. A client that
has not taken this URL has requested another one. -/
def answeredLocation (announced : CStr) (past : List Call) (hs : List Header) : Option CStr :=
  if urlAfter initialUrl past = announced then lastLocation hs else none

/-- After the calls `past` and a firmware request that was answered with the headers `hs`,
the iteration goes on with the calls `post`: it opens the URL in the `Location` header of
the answer, and none when there is no such header. -/
def FollowsLocation (announced : CStr) (past : List Call) (hs : List Header)
    (post : List Call) : Prop :=
  openedUrls (urlAfter initialUrl past) post = (answeredLocation announced past hs).toList

/-- Either the answer has a `Location` header whose value fits the buffer, and the client
takes it for its URL, or no answer since boot has had one. -/
def LocationUsable (announced : CStr) (past : List Call) (taken : Bool)
    (hs : List Header) : Prop :=
  match answeredLocation announced past hs with
  | some v => if taken then v.length ≤ maxHttpRecvBuffer - 1 else announced = v
  | none => anyLocation (headersOf past ++ hs) = false

/-- An iteration whose firmware request succeeded opens the `Location` header of the answer
for `firmware_url`, and nothing when there is none, exactly when that header fits the buffer
and the client takes it, or no answer since boot had one. -/
theorem followsLocation_iff (cfg : Config) {es : List CycleEnv} {s : OtaState} {e : CycleEnv}
    {pre post : List Call} {hs : List Header} (hrun : otaRun cfg es = some s)
    (hcalls : (otaCycle cfg s e).calls = pre ++ .perform hs true :: post) :
    FollowsLocation (announcedUrl cfg s e) (runCalls cfg .init es ++ pre) hs post ↔
      LocationUsable (announcedUrl cfg s e) (runCalls cfg .init es ++ pre) e.redirectUrlOk hs := by
  obtain ⟨t, hflag, rfl, rfl⟩ := otaCycle_perform hcalls
  have hpast : t.expectRedirect = anyLocation (headersOf (runCalls cfg .init es ++ pre)) := by
    rw [hflag, otaRun_flag cfg es hrun]
    simp
  generalize runCalls cfg .init es ++ pre = past at hpast ⊢
  generalize announcedUrl cfg s e = announced
  have hurls : openedUrls (urlAfter initialUrl past)
        (.clientClose :: (otaRedirect (deliverHeaders t e.performHeaders) e).calls) =
      if anyLocation (headersOf past ++ e.performHeaders) then
        [if e.redirectUrlOk then (deliverHeaders t e.performHeaders).responseBuffer.str
          else urlAfter initialUrl past]
      else [] := by
    rw [anyLocation_append, ← hpast, ← deliverHeaders_expectRedirect, ← openedUrls_otaRedirect]
    rfl
  unfold FollowsLocation LocationUsable
  rw [hurls]
  cases hanswer : answeredLocation announced past e.performHeaders with
  | none => simp
  | some v =>
    obtain ⟨hstands, hloc⟩ := Option.ite_none_right_eq_some.mp hanswer
    have hany : anyLocation (headersOf past ++ e.performHeaders) = true := by
      have hsome := mt (lastLocation_eq_none_iff e.performHeaders).mpr (by simp [hloc])
      simpa using .inr (by simpa using hsome)
    rw [if_pos hany, deliverHeaders_buffer t hloc, hstands]
    cases e.redirectUrlOk with
    | true => simpa using CStr.take_eq_self_iff v (maxHttpRecvBuffer - 1)
    | false => simp

/-- A first iteration is redirected and fails on its first read. -/
def redirectedCycle : CycleEnv := sampleCycle [sampleLocation] [{ read := .error }]

/-- The state after the redirected iteration. -/
def redirectedState : OtaState := (otaRun sampleConfig [redirectedCycle]).getD .init

/-- The redirected iteration itself follows its `Location` header. -/
theorem followsLocation_redirectedCycle :
    FollowsLocation sampleUrl ((otaCycle sampleConfig .init redirectedCycle).calls.take 8)
      [sampleLocation] ((otaCycle sampleConfig .init redirectedCycle).calls.drop 9) := by
  have hrun : otaRun sampleConfig [] = some .init := rfl
  have hcalls : (otaCycle sampleConfig .init redirectedCycle).calls =
      (otaCycle sampleConfig .init redirectedCycle).calls.take 8 ++
        .perform [sampleLocation] true ::
          (otaCycle sampleConfig .init redirectedCycle).calls.drop 9 := by
    decide +kernel
  have hannounced : announcedUrl sampleConfig .init redirectedCycle = sampleUrl := by
    decide +kernel
  have hanswer : answeredLocation sampleUrl
      ((otaCycle sampleConfig .init redirectedCycle).calls.take 8) [sampleLocation] =
        some sampleLocation.value := by
    decide +kernel
  rw [← hannounced] at hanswer ⊢
  apply (followsLocation_iff sampleConfig hrun hcalls).mpr
  rw [LocationUsable, runCalls, List.nil_append, hanswer]
  decide

/-- The answer has no `Location` header. The client does not take the text of the manifest
for a URL. -/
def directCycle : CycleEnv :=
  { sampleCycle [] [{ read := .error }] with redirectUrlOk := false }

/-- After it, an answer without a `Location` header still sends the task to the redirect
branch, which opens `firmware_url` once more. -/
theorem not_followsLocation_directCycle :
    ¬ ∀ es s e pre hs post, otaRun sampleConfig es = some s →
      (otaCycle sampleConfig s e).calls = pre ++ .perform hs true :: post →
      FollowsLocation (announcedUrl sampleConfig s e) (runCalls sampleConfig .init es ++ pre) hs
        post := by
  intro h
  have hfollows := h [redirectedCycle] redirectedState directCycle
    ((otaCycle sampleConfig redirectedState directCycle).calls.take 8) []
    ((otaCycle sampleConfig redirectedState directCycle).calls.drop 9)
    (by decide +kernel) (by decide +kernel)
  have hopened : openedUrls (urlAfter initialUrl (runCalls sampleConfig .init [redirectedCycle] ++
        (otaCycle sampleConfig redirectedState directCycle).calls.take 8))
      ((otaCycle sampleConfig redirectedState directCycle).calls.drop 9) = [sampleUrl] := by
    decide +kernel
  rw [FollowsLocation, hopened, answeredLocation] at hfollows
  simp [lastLocation] at hfollows

end HomeNode.Ota
