-- SUMMARY: user_request_create and its request handlers, and when its result tells whether the commands work.
import HomeNode.Http.Routing

/-!
# The user requests

`user_request_create` registers the four endpoints of its configuration, each
with a handler that posts the event of its command. It looks at one endpoint
before and at no result after.
-/

namespace HomeNode.UserRequest

open Http Http.Routing

/-! ## The request handlers -/

/-- `USER_REQUEST_ROUTINE_EVENT_USER_COMMAND_*` -/
def eventId : Command → Nat
  | .gateOpen => 1
  | .gateClose => 2
  | .gateStatus => 3
  | .log => 4
  | .otaUpdate => 5

/-- The calls of a request handler. -/
inductive HandlerCall where
  | postEvent (id : Nat)
  | sendResponse (text : String)
  | closeAsyncConnection
  deriving DecidableEq

def HandlerCall.posted : HandlerCall → Option Nat
  | .postEvent id => some id
  | .sendResponse _ | .closeAsyncConnection => none

/-- The request handlers differ in their event only. `post` is what
`USER_REQUEST_post_event` answers. -/
def requestHandler (id : Nat) (post : EspErr) : List HandlerCall :=
  .postEvent id ::
    if post ≠ espOk then [.sendResponse "failure", .closeAsyncConnection] else []

def gateCloseRequestHandler := requestHandler (eventId .gateClose)

def gateOpenRequestHandler := requestHandler (eventId .gateOpen)

def logRequestHandler := requestHandler (eventId .log)

def otaUpdateRequestHandler := requestHandler (eventId .otaUpdate)

/-- The callback that is registered for a command. -/
def handlerOf : Command → Option Callback
  | .gateClose => some 0
  | .gateOpen => some 1
  | .log => some 2
  | .otaUpdate => some 3
  | .gateStatus => none

/-- The function behind a callback. -/
def handlerAt : Callback → Option (EspErr → List HandlerCall)
  | 0 => some gateCloseRequestHandler
  | 1 => some gateOpenRequestHandler
  | 2 => some logRequestHandler
  | 3 => some otaUpdateRequestHandler
  | _ => none

/-! ## Creation -/

def espFail : EspErr := -1

/-- `user_request_config_t` -/
structure Config where
  gateOpenEndpoint : Option CStr
  gateCloseEndpoint : Option CStr
  logEndpoint : Option CStr
  otaUpdateEndpoint : Option CStr

def Config.endpoint (config : Config) : Command → Option CStr
  | .gateOpen => config.gateOpenEndpoint
  | .gateClose => config.gateCloseEndpoint
  | .log => config.logEndpoint
  | .otaUpdate => config.otaUpdateEndpoint
  | .gateStatus => none

/-- What the calls of `user_request_create` return. `started` is whether the server was
started before, `register` what `httpd_register_uri_handler` returns. -/
structure Outcomes where
  started : Bool
  httpdStart : EspErr
  register : Command → EspErr

/-- `http_server_init` -/
def httpServerInit (httpdStart : EspErr) : EspErr :=
  if httpdStart ≠ espOk then espFail else espOk

/-- `register_uri` for the endpoint of a command. -/
def registration (config : Config) (o : Outcomes) (c : Command) : Registration where
  uri := config.endpoint c
  method := .get
  callback := handlerOf c
  httpd := o.register c

/-- `user_request_create`, with the registry it leaves. It is undefined when a call writes
past the table. What registering the events returns is dropped too. -/
def userRequestCreate (config : Option Config) (o : Outcomes) : Option (EspErr × Registry) :=
  match config with
  | none => some (espFail, .start)
  | some config =>
    -- the source tests this endpoint twice
    if config.gateCloseEndpoint = none ∨ config.gateCloseEndpoint = none then
      some (espFail, .start)
    else if o.started = false ∧ httpServerInit o.httpdStart ≠ espOk then
      some (httpServerInit o.httpdStart, .start)
    else
      (Transition.run Registry.step .start [registration config o .gateClose,
        registration config o .gateOpen, registration config o .log,
        registration config o .otaUpdate]).map fun s => (espOk, s)

/-! ## What its success means -/

/-- A request for `uri` gets to a handler that posts the event `id`. -/
def Posts (m : UriMatchFn) (p : UriParser) (s : Registry) (uri : CStr) (id : Nat) : Prop :=
  (route m p s.registered uri).isSome = true ∧ ∃ f handler, Invokes s.table uri f ∧
    handlerAt f = some handler ∧ ∀ post, (handler post).filterMap HandlerCall.posted = [id]

/-- The endpoint is registered for its command, and a request to it posts the event of that. -/
def Works (m : UriMatchFn) (p : UriParser) (s : Registry) (config : Config) (c : Command) :
    Prop :=
  ∃ uri f, config.endpoint c = some uri ∧ handlerOf c = some f ∧ ⟨uri, f⟩ ∈ s.registered ∧
    Posts m p s uri (eventId c)

/-- `user_request_create` comes to its end, and reports success only when all four commands
work. -/
def ReportsTruly (m : UriMatchFn) (p : UriParser) (config : Option Config) (o : Outcomes) :
    Prop :=
  ∃ err s, userRequestCreate config o = some (err, s) ∧
    (err = espOk → ∃ cfg, config = some cfg ∧ ∀ c ∈ Command.uris, Works m p s cfg c)

/-- The checks of `user_request_create` fail. -/
def Refused (config : Option Config) (o : Outcomes) : Prop :=
  (∀ cfg ∈ config, cfg.gateCloseEndpoint = none) ∨ (o.started = false ∧ o.httpdStart ≠ espOk)

/-- The endpoints are four different URIs that fit into a record, the httpd takes all of them,
and finds a path in each that one of them matches. -/
structure Complete (p : UriParser) (config : Config) (o : Outcomes) : Prop where
  present : ∀ c ∈ Command.uris, ∃ uri, config.endpoint c = some uri ∧ uri.length ≤ maxUriLength
  accepted : ∀ c ∈ Command.uris, o.register c = espOk
  distinct : ∀ c ∈ Command.uris, ∀ c' ∈ Command.uris,
    config.endpoint c = config.endpoint c' → c = c'
  routed : ∀ c ∈ Command.uris, ∀ uri ∈ config.endpoint c, ∃ path ∈ p.path uri,
    ∃ c' ∈ Command.uris, ∃ template ∈ config.endpoint c', Matches template path

/-! ## The handlers -/

@[simp] theorem requestHandler_posted (id : Nat) (post : EspErr) :
    (requestHandler id post).filterMap HandlerCall.posted = [id] := by
  by_cases hpost : post = espOk <;> simp [requestHandler, HandlerCall.posted, hpost]

theorem eventId_inj {c c' : Command} (h : eventId c = eventId c') : c = c' := by
  cases c <;> cases c' <;> simp [eventId] at h ⊢

theorem handlerOf_inj {c c' : Command} {f : Callback} (h : handlerOf c = some f)
    (h' : handlerOf c' = some f) : c = c' := by
  have heq := h.trans h'.symm
  cases c <;> cases c' <;> first | rfl | simp [handlerOf] at h h' heq

/-- The callback of a command posts the event of that. -/
theorem handlerAt_handlerOf {c : Command} (hc : c ∈ Command.uris) :
    ∃ f handler, handlerOf c = some f ∧ handlerAt f = some handler ∧
      ∀ post, (handler post).filterMap HandlerCall.posted = [eventId c] := by
  cases c with
  | gateOpen => exact ⟨1, _, rfl, rfl, requestHandler_posted _⟩
  | gateClose => exact ⟨0, _, rfl, rfl, requestHandler_posted _⟩
  | gateStatus => simp [Command.uris] at hc
  | log => exact ⟨2, _, rfl, rfl, requestHandler_posted _⟩
  | otaUpdate => exact ⟨3, _, rfl, rfl, requestHandler_posted _⟩

theorem Posts.id_inj {m : UriMatchFn} {p : UriParser} {s : Registry} {uri : CStr} {id id' : Nat}
    (h : Posts m p s uri id) (h' : Posts m p s uri id') : id = id' := by
  obtain ⟨-, f, handler, hinvokes, hhandler, hposted⟩ := h
  obtain ⟨-, f', handler', hinvokes', hhandler', hposted'⟩ := h'
  obtain rfl := hinvokes.callback_inj hinvokes'
  obtain rfl := Option.some.inj (hhandler.symm.trans hhandler')
  simpa using (hposted espOk).symm.trans (hposted' espOk)

/-! ## The registrations -/

section

variable {config : Config} {o : Outcomes} {s : Registry}

def registrations (config : Config) (o : Outcomes) : List Registration :=
  Command.uris.map (registration config o)

theorem mem_recorded_registrations {e : Entry} :
    e ∈ recorded (registrations config o) ↔ ∃ c ∈ Command.uris,
      config.endpoint c = some e.uri ∧ handlerOf c = some e.callback ∧
        e.uri.length ≤ maxUriLength := by
  simp [recorded, registrations, List.mem_filterMap, Registration.recorded_eq_some_iff,
    registration]

theorem mem_registered {e : Entry}
    (hrun : Transition.run Registry.step .start (registrations config o) = some s) :
    e ∈ s.registered ↔ ∃ c ∈ Command.uris, o.register c = espOk ∧
      config.endpoint c = some e.uri ∧ handlerOf c = some e.callback ∧
        e.uri.length ≤ maxUriLength := by
  rw [registered_run hrun]
  simp [registrations, List.mem_filterMap, Registration.accepted_eq_some_iff,
    Registration.recorded_eq_some_iff, registration]

/-- All four commands work exactly when the configuration is complete and accepted. -/
theorem works_iff (m : UriMatchFn) (p : UriParser)
    (hrun : Transition.run Registry.step .start (registrations config o) = some s) :
    (∀ c ∈ Command.uris, Works m p s config c) ↔ Complete p config o := by
  constructor
  · intro h
    have hself : ∀ c ∈ Command.uris, ∃ uri, config.endpoint c = some uri ∧
        o.register c = espOk ∧ uri.length ≤ maxUriLength := by
      intro c hc
      obtain ⟨uri, f, huri, hf, hmem, -⟩ := h c hc
      obtain ⟨c', -, hok, -, hf', hlen⟩ := (mem_registered hrun).mp hmem
      obtain rfl := handlerOf_inj hf hf'
      exact ⟨uri, huri, hok, hlen⟩
    constructor
    case present =>
      intro c hc
      obtain ⟨uri, huri, -, hlen⟩ := hself c hc
      exact ⟨uri, huri, hlen⟩
    case accepted =>
      intro c hc
      obtain ⟨-, -, hok, -⟩ := hself c hc
      exact hok
    case distinct =>
      intro c hc c' hc' heq
      obtain ⟨uri, f, huri, -, -, hposts⟩ := h c hc
      obtain ⟨uri', f', huri', -, -, hposts'⟩ := h c' hc'
      obtain rfl : uri = uri' := Option.some.inj (huri.symm.trans (heq.trans huri'))
      exact eventId_inj (hposts.id_inj hposts')
    case routed =>
      intro c hc uri huri
      obtain ⟨uri', f, huri', -, -, hroute, -⟩ := h c hc
      obtain rfl : uri = uri' := Option.some.inj (huri.symm.trans huri')
      obtain ⟨e, he⟩ := Option.isSome_iff_exists.mp hroute
      obtain ⟨hmem, path, hpath, hmatch⟩ := route_matches he
      obtain ⟨c', hc', -, htemplate, -⟩ := (mem_registered hrun).mp hmem
      exact ⟨path, hpath, c', hc', e.uri, htemplate, hmatch⟩
  · intro h c hc
    obtain ⟨uri, huri, hlen⟩ := h.present c hc
    obtain ⟨f, handler, hf, hhandler, hposted⟩ := handlerAt_handlerOf hc
    refine ⟨uri, f, huri, hf, (mem_registered hrun).mpr ⟨c, hc, h.accepted c hc, huri, hf, hlen⟩,
      ?_, f, handler, ?_, hhandler, hposted⟩
    · obtain ⟨path, hpath, c', hc', template, htemplate, hmatch⟩ := h.routed c hc uri huri
      obtain ⟨f', -, hf', -⟩ := handlerAt_handlerOf hc'
      obtain ⟨template', htemplate', hlen'⟩ := h.present c' hc'
      obtain rfl : template = template' := Option.some.inj (htemplate.symm.trans htemplate')
      apply route_isSome (e := ⟨template, f'⟩) _ hpath hmatch
      exact (mem_registered hrun).mpr ⟨c', hc', h.accepted c' hc', htemplate, hf', hlen'⟩
    · -- the first record with this text is the command's own
      apply (invokes_iff (lists_run hrun) f).mpr
      have hmem : ⟨uri, f⟩ ∈ recorded (registrations config o) :=
        mem_recorded_registrations.mpr ⟨c, hc, huri, hf, hlen⟩
      obtain ⟨r, hr, hrmem, hruri⟩ := exists_find_uri hmem (show Entry.uri ⟨uri, f⟩ = uri from rfl)
      obtain ⟨c', hc', huri', hf', -⟩ := mem_recorded_registrations.mp hrmem
      obtain rfl := h.distinct c hc c' hc' (huri.trans (hruri ▸ huri'.symm))
      rw [hr, Option.map_some, ← hf', hf]

end

/-! ## When the result can be relied on -/

theorem userRequestCreate_of_refused {config : Option Config} {o : Outcomes}
    (h : Refused config o) :
    ∃ err s, userRequestCreate config o = some (err, s) ∧ err ≠ espOk := by
  cases config with
  | none => exact ⟨espFail, .start, rfl, by decide⟩
  | some config =>
    rcases Classical.em (config.gateCloseEndpoint = none) with hclose | hclose
    · exact ⟨espFail, .start, by simp [userRequestCreate, hclose], by decide⟩
    · have hserver : o.started = false ∧ o.httpdStart ≠ espOk :=
        h.resolve_left fun h => hclose (h config rfl)
      have hinit : httpServerInit o.httpdStart = espFail := by simp [httpServerInit, hserver.2]
      have hne : espFail ≠ espOk := by decide
      exact ⟨espFail, .start, by simp [userRequestCreate, hclose, hserver.1, hinit, hne], hne⟩

theorem userRequestCreate_of_not_refused {config : Config} {o : Outcomes}
    (h : ¬ Refused (some config) o) : ∃ s, userRequestCreate (some config) o = some (espOk, s) ∧
      Transition.run Registry.step .start (registrations config o) = some s := by
  have hclose : config.gateCloseEndpoint ≠ none := fun hclose => h (.inl (by simpa using hclose))
  have hserver : ¬ (o.started = false ∧ httpServerInit o.httpdStart ≠ espOk) := by
    rintro ⟨hstarted, hinit⟩
    refine h (.inr ⟨hstarted, fun hok => hinit ?_⟩)
    simp [httpServerInit, hok]
  have hroom : Registry.start.table.uriCount + (registrations config o).length ≤ maxUris := by
    simp [registrations, Command.uris, Registry.start, UriTable.empty, maxUris]
  obtain ⟨s, hs⟩ := Option.isSome_iff_exists.mp (run_isSome_of_length hroom)
  have hcalls : userRequestCreate (some config) o =
      (Transition.run Registry.step .start (registrations config o)).map fun s => (espOk, s) := by
    rw [userRequestCreate, if_neg (by simpa using hclose), if_neg hserver]
    rfl
  exact ⟨s, by rw [hcalls, hs]; rfl, hs⟩

/-- The result can be relied on exactly when a check fails, or the configuration is complete
and accepted. -/
theorem reportsTruly_iff (m : UriMatchFn) (p : UriParser) (config : Option Config)
    (o : Outcomes) : ReportsTruly m p config o ↔
      Refused config o ∨ ∃ cfg, config = some cfg ∧ Complete p cfg o := by
  by_cases hrefused : Refused config o
  · obtain ⟨err, s, hcall, herr⟩ := userRequestCreate_of_refused hrefused
    simp only [hrefused, true_or, iff_true]
    exact ⟨err, s, hcall, fun hok => absurd hok herr⟩
  · simp only [hrefused, false_or]
    cases config with
    | none => exact absurd (.inl (by simp)) hrefused
    | some cfg =>
      obtain ⟨s, hcall, hrun⟩ := userRequestCreate_of_not_refused hrefused
      simp only [Option.some.injEq, exists_eq_left']
      rw [← works_iff m p hrun]
      constructor
      · rintro ⟨err, s', hcall', h⟩
        obtain ⟨rfl, rfl⟩ := Prod.mk.inj (Option.some.inj (hcall.symm.trans hcall'))
        obtain ⟨cfg', hcfg, h⟩ := h rfl
        exact Option.some.inj hcfg ▸ h
      · exact fun h => ⟨espOk, s, hcall, fun _ => ⟨cfg, rfl, h⟩⟩

/-! ## A configuration without an endpoint -/

/-- Everything succeeds. -/
def accepting : Outcomes := ⟨false, espOk, fun _ => espOk⟩

/-- The endpoints of `app_main`. -/
def appConfig : Config where
  gateOpenEndpoint := some ⟨CStr.ascii "/open-gate", by decide⟩
  gateCloseEndpoint := some ⟨CStr.ascii "/close-gate", by decide⟩
  logEndpoint := some shortUri
  otaUpdateEndpoint := some ⟨CStr.ascii "/ota-update", by decide⟩

/-- Endpoints that are plain paths are routed, whatever else the httpd finds paths in. -/
theorem complete_of_plain {config : Config} {o : Outcomes} (p : UriParser)
    (hpresent : ∀ c ∈ Command.uris, ∃ uri, config.endpoint c = some uri ∧ PlainPath uri ∧
      uri.length ≤ maxUriLength)
    (haccepted : ∀ c ∈ Command.uris, o.register c = espOk)
    (hdistinct : ∀ c ∈ Command.uris, ∀ c' ∈ Command.uris,
      config.endpoint c = config.endpoint c' → c = c') : Complete p config o where
  present c hc := by
    obtain ⟨uri, huri, -, hlen⟩ := hpresent c hc
    exact ⟨uri, huri, hlen⟩
  accepted := haccepted
  distinct := hdistinct
  routed c hc uri huri := by
    obtain ⟨uri', huri', hplain, -⟩ := hpresent c hc
    obtain rfl : uri = uri' := Option.some.inj (huri.symm.trans huri')
    exact ⟨uri, p.documented uri hplain, c, hc, uri, huri, matches_self hplain⟩

theorem reportsTruly_app : ReportsTruly documentedMatchFn originParser (some appConfig) accepting :=
  (reportsTruly_iff documentedMatchFn originParser (some appConfig) accepting).mpr
    (.inr ⟨appConfig, rfl, complete_of_plain _ (by decide +kernel) (fun _ _ => rfl)
      (by decide)⟩)

/-- Without the endpoint that opens the gate, success is reported. -/
theorem not_reportsTruly :
    ¬ ReportsTruly documentedMatchFn originParser
      (some { appConfig with gateOpenEndpoint := none }) accepting := by
  rintro ⟨err, s, hcall, h⟩
  have hgo : ¬ Refused (some { appConfig with gateOpenEndpoint := none }) accepting := by
    simp [Refused, appConfig, accepting]
  obtain ⟨s', hcall', -⟩ := userRequestCreate_of_not_refused hgo
  have hok : err = espOk := (Prod.mk.inj (Option.some.inj (hcall.symm.trans hcall'))).1
  obtain ⟨cfg, hcfg, hworks⟩ := h hok
  obtain ⟨uri, -, huri, -⟩ := hworks .gateOpen (by decide)
  obtain rfl := Option.some.inj hcfg
  simp [Config.endpoint] at huri

end HomeNode.UserRequest
