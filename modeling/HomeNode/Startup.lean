-- SUMMARY: The start-up of app_main interleaved with requests on the endpoints that are already live.
import HomeNode.Command
import HomeNode.Ota.Service

/-!
# Start-up order

`app_main` sets the modules up one after the other while the HTTP task, the
event loop and the delegate task already serve the endpoints registered so far.
Each access of a handler to the state of a module is logged together with
whether that state was there. After an access to missing state the device is
down, and nothing moves any more.
-/

namespace HomeNode.Startup

/-! ## Data -/

/-- What `app_main` does next. -/
inductive AppPc where
  /-- `user_request_create`: the server, the interface, the URIs, the events -/
  | createServer
  | setRequestInterface
  | registerUris (rest : List Command)
  | registerEvents (rest : List Command)
  /-- `user_request_response_create` -/
  | createResponseServer
  | setResponseInterface
  | startDiscovery
  | waitDiscovery
  | otaServiceInit
  | idle
  deriving DecidableEq

/-- An access of a handler to the state of a module. -/
inductive Use where
  /-- `USER_REQUEST_post_event`, on an event that is registered or not -/
  | post (c : Command) (registered : Bool)
  /-- `user_request_state.server_interface` -/
  | requestInterface (set : Bool)
  /-- `user_interaction.server_interface` -/
  | responseInterface (set : Bool)
  /-- `xSemaphoreGive(ota_service_state.start_update)` -/
  | startUpdate (created : Bool)
  deriving DecidableEq

def Use.initialised : Use → Bool
  | .post _ b | .requestInterface b | .responseInterface b | .startUpdate b => b

/-- A null handle or a null interface is used. -/
def Use.crashes : Use → Bool
  | .post _ _ => false
  | .requestInterface b | .responseInterface b | .startUpdate b => !b

/-- `live` and `registered` are the registered URIs and events. `acks` counts
the commands on the radio, `delegated` the log jobs in the delegate queue, and
`sending` is whether the delegate task is at one. -/
structure State where
  app : AppPc
  serverStarted : Bool
  requestInterface : Bool
  responseInterface : Bool
  live : List Command
  registered : List Command
  discovered : Bool
  service : Ota.Service
  events : List Command
  acks : Nat
  delegated : Nat
  sending : Bool
  uses : List Use

def State.boot (imagePending : Bool) : State where
  app := .createServer
  serverStarted := false
  requestInterface := false
  responseInterface := false
  live := []
  registered := []
  discovered := false
  service := .boot imagePending
  events := []
  acks := 0
  delegated := 0
  sending := false
  uses := []

def State.use (s : State) (us : List Use) : State := { s with uses := s.uses ++ us }

def State.crashed (s : State) : Bool := s.uses.any Use.crashes

/-! ## Steps -/

/-- `DELEGATE_QUEUE_LENGTH` -/
def delegateQueueLength : Nat := 4

inductive Label where
  /-- the next step of `app_main`, and whether its call succeeds -/
  | app (ok : Bool)
  /-- `DISCOVERY_EVENT_DISCOVERY_COMPLETE` -/
  | discovered
  /-- a request on a registered URI, and whether its event could be posted -/
  | request (c : Command) (posted : Bool)
  /-- the next event of the loop, and whether its command could be sent -/
  | handle (sent : Bool)
  /-- `MESSAGE_SERVICE_ROUTINE_EVENT_SEND_STATUS` -/
  | ack
  | delegateTake
  /-- the delegate task reads a piece of the log, of some bytes or of none -/
  | delegateSend (more : Bool)

/-- `app_main`, from `user_request_create` on -/
def appStep (s : State) (ok : Bool) : Option State :=
  match s.app with
  | .createServer =>
    if ok then some { s with app := .setRequestInterface, serverStarted := true }
    else some { s with app := .createResponseServer }
  | .setRequestInterface =>
    some { s with app := .registerUris Command.uris, requestInterface := s.serverStarted }
  | .registerUris (c :: rest) =>
    some { s with app := .registerUris rest, live := if ok then c :: s.live else s.live }
  | .registerUris [] => some { s with app := .registerEvents Command.events }
  | .registerEvents (c :: rest) =>
    some { s with app := .registerEvents rest, registered := c :: s.registered }
  | .registerEvents [] => some { s with app := .createResponseServer }
  | .createResponseServer =>
    if s.serverStarted then some { s with app := .setResponseInterface }
    else if ok then some { s with app := .setResponseInterface, serverStarted := true }
    else some { s with app := .startDiscovery }
  | .setResponseInterface =>
    some { s with app := .startDiscovery, responseInterface := s.serverStarted }
  | .startDiscovery => some { s with app := .waitDiscovery }
  | .waitDiscovery => if s.discovered then some { s with app := .otaServiceInit } else none
  | .otaServiceInit =>
    match s.service.initStep ok with
    | some service => some { s with service := service }
    | none => some { s with app := .idle }
  | .idle => none

/-- The callback of an endpoint: it answers a request itself only when the event
could not be posted. -/
def requestHandler (s : State) (c : Command) (posted : Bool) : State :=
  let s := s.use [.post c (s.registered.contains c)]
  if posted then { s with events := s.events ++ [c] }
  else s.use [.requestInterface s.requestInterface]

/-- `user_request_response_inform_command_status` and
`user_request_response_send_log`, as accesses to the interface -/
def respond (s : State) : State := s.use [.responseInterface s.responseInterface]

/-- `routine_user_request_events_handler`. It waits while the delegate queue is
full. -/
def eventHandler (s : State) (c : Command) (sent : Bool) : Option State :=
  match c with
  | .gateOpen | .gateClose | .gateStatus =>
    if sent then some { s with acks := s.acks + 1 } else some (respond s)
  | .log =>
    if s.delegated < delegateQueueLength then some { s with delegated := s.delegated + 1 } else none
  | .otaUpdate =>
    match s.service.processStart with
    | some service => some (respond ({ s with service := service }.use [.startUpdate true]))
    | none => some (s.use [.startUpdate false])

/-- One step. The event loop drops an event that has no handler yet. -/
def step (s : State) (l : Label) : Option State :=
  if s.crashed then none
  else
    match l with
    | .app ok => appStep s ok
    | .discovered => some { s with discovered := true }
    | .request c posted => if s.live.contains c then some (requestHandler s c posted) else none
    | .handle sent =>
      match s.events with
      | [] => none
      | c :: rest =>
        let s := { s with events := rest }
        if s.registered.contains c then eventHandler s c sent else some s
    | .ack => if 0 < s.acks then some (respond { s with acks := s.acks - 1 }) else none
    | .delegateTake =>
      if 0 < s.delegated ∧ s.sending = false then
        some { s with delegated := s.delegated - 1, sending := true }
      else none
    | .delegateSend more => if s.sending then some (respond { s with sending := more }) else none

/-! ## How far app_main has come -/

/-- The event is not registered yet. -/
def AppPc.beforeEvent (c : Command) : AppPc → Bool
  | .createServer | .setRequestInterface | .registerUris _ => true
  | .registerEvents rest => rest.contains c
  | _ => false

/-- `user_request_response_create` has not returned yet. -/
def AppPc.beforeResponse : AppPc → Bool
  | .createServer | .setRequestInterface | .registerUris _ | .registerEvents _
  | .createResponseServer | .setResponseInterface => true
  | _ => false

/-- What is set up at each point of `app_main`. A server that did not start in
`user_request_create` leaves no URI registered, whatever comes later. -/
def State.SetUp (s : State) : Prop :=
  match s.app with
  | .createServer =>
    s.serverStarted = false ∧ s.live = [] ∧ s.registered = [] ∧ s.responseInterface = false
  | .setRequestInterface =>
    s.serverStarted = true ∧ s.live = [] ∧ s.registered = [] ∧ s.responseInterface = false
  | .registerUris _ =>
    s.serverStarted = true ∧ s.requestInterface = true ∧ s.registered = [] ∧
      s.responseInterface = false
  | .registerEvents rest =>
    s.serverStarted = true ∧ s.requestInterface = true ∧ rest.Nodup ∧
      (∀ c, c ∈ s.registered ↔ c ∉ rest) ∧ s.responseInterface = false
  | .createResponseServer =>
    s.responseInterface = false ∧ (s.live = [] ∨
      s.serverStarted = true ∧ s.requestInterface = true ∧ ∀ c, c ∈ s.registered)
  | .setResponseInterface =>
    s.serverStarted = true ∧ s.responseInterface = false ∧ (s.live = [] ∨
      s.requestInterface = true ∧ ∀ c, c ∈ s.registered)
  | _ => s.live = [] ∨ s.requestInterface = true ∧ s.responseInterface = true ∧
      ∀ c, c ∈ s.registered

/-- Whatever is on its way came in by a registered URI. -/
def State.Pending (s : State) : Prop :=
  s.live = [] → s.events = [] ∧ s.acks = 0 ∧ s.delegated = 0 ∧ s.sending = false

structure State.Inv (s : State) : Prop where
  setUp : s.SetUp
  pending : s.Pending

variable {s t : State}

/-- `t` differs from `s` in none of the state that `app_main` sets up. -/
structure SameSetUp (s t : State) : Prop where
  app : t.app = s.app
  serverStarted : t.serverStarted = s.serverStarted
  requestInterface : t.requestInterface = s.requestInterface
  responseInterface : t.responseInterface = s.responseInterface
  live : t.live = s.live
  registered : t.registered = s.registered

theorem SameSetUp.setUp (h : SameSetUp s t) (hs : s.SetUp) : t.SetUp := by
  unfold State.SetUp at hs ⊢
  rw [h.app, h.serverStarted, h.requestInterface, h.responseInterface, h.live, h.registered]
  exact hs

theorem eventHandler_sameSetUp {c : Command} {sent : Bool} (h : eventHandler s c sent = some t) :
    SameSetUp s t := by
  unfold eventHandler at h
  cases c with
  | gateOpen | gateClose | gateStatus =>
    cases sent with
    | true => exact Option.some.inj h ▸ ⟨rfl, rfl, rfl, rfl, rfl, rfl⟩
    | false => exact Option.some.inj h ▸ ⟨rfl, rfl, rfl, rfl, rfl, rfl⟩
  | log =>
    simp only [Option.ite_none_right_eq_some, Option.some.injEq] at h
    exact h.2 ▸ ⟨rfl, rfl, rfl, rfl, rfl, rfl⟩
  | otaUpdate =>
    cases hstart : s.service.processStart with
    | some service =>
      simp only [hstart, Option.some.injEq] at h
      exact h ▸ ⟨rfl, rfl, rfl, rfl, rfl, rfl⟩
    | none =>
      simp only [hstart, Option.some.injEq] at h
      exact h ▸ ⟨rfl, rfl, rfl, rfl, rfl, rfl⟩

/-- A handler leaves the set-up alone, and has work only on a live URI. -/
theorem step_sameSetUp {l : Label} (hl : ∀ ok, l ≠ .app ok) (h : step s l = some t) :
    SameSetUp s t := by
  unfold step at h
  simp only [Option.ite_none_left_eq_some] at h
  obtain ⟨-, h⟩ := h
  cases l with
  | app ok => exact absurd rfl (hl ok)
  | discovered => exact Option.some.inj h ▸ ⟨rfl, rfl, rfl, rfl, rfl, rfl⟩
  | request c posted =>
    simp only [Option.ite_none_right_eq_some, Option.some.injEq] at h
    cases posted with
    | true => exact h.2 ▸ ⟨rfl, rfl, rfl, rfl, rfl, rfl⟩
    | false => exact h.2 ▸ ⟨rfl, rfl, rfl, rfl, rfl, rfl⟩
  | handle sent =>
    cases hevents : s.events with
    | nil => simp [hevents] at h
    | cons c rest =>
      simp only [hevents] at h
      split_ifs at h
      · obtain ⟨h1, h2, h3, h4, h5, h6⟩ := eventHandler_sameSetUp h
        exact ⟨h1, h2, h3, h4, h5, h6⟩
      · exact Option.some.inj h ▸ ⟨rfl, rfl, rfl, rfl, rfl, rfl⟩
  | ack | delegateTake | delegateSend more =>
    simp only [Option.ite_none_right_eq_some, Option.some.injEq] at h
    exact h.2 ▸ ⟨rfl, rfl, rfl, rfl, rfl, rfl⟩

theorem appStep_setUp {ok : Bool} (hs : s.SetUp) (h : appStep s ok = some t) : t.SetUp := by
  unfold appStep at h
  unfold State.SetUp at hs
  cases happ : s.app with
  | createServer =>
    simp only [happ] at h hs
    obtain ⟨-, hlive, hregistered, hresponse⟩ := hs
    cases ok with
    | true => exact Option.some.inj h ▸ ⟨rfl, hlive, hregistered, hresponse⟩
    | false => exact Option.some.inj h ▸ ⟨hresponse, .inl hlive⟩
  | setRequestInterface =>
    simp only [happ] at h hs
    obtain ⟨hserver, -, hregistered, hresponse⟩ := hs
    exact Option.some.inj h ▸ ⟨hserver, hserver, hregistered, hresponse⟩
  | registerUris rest =>
    simp only [happ] at hs
    obtain ⟨hserver, hrequest, hregistered, hresponse⟩ := hs
    cases rest with
    | nil =>
      simp only [happ] at h
      refine Option.some.inj h ▸ ⟨hserver, hrequest, by decide, ?_, hresponse⟩
      simp [hregistered, Command.mem_events]
    | cons c rest =>
      simp only [happ] at h
      exact Option.some.inj h ▸ ⟨hserver, hrequest, hregistered, hresponse⟩
  | registerEvents rest =>
    simp only [happ] at hs
    obtain ⟨hserver, hrequest, hnodup, hregistered, hresponse⟩ := hs
    cases rest with
    | nil =>
      simp only [happ] at h
      exact Option.some.inj h ▸
        ⟨hresponse, .inr ⟨hserver, hrequest, fun c => (hregistered c).mpr (by simp)⟩⟩
    | cons c rest =>
      simp only [happ] at h
      obtain ⟨hc, hrest⟩ := List.nodup_cons.mp hnodup
      refine Option.some.inj h ▸ ⟨hserver, hrequest, hrest, fun c' => ?_, hresponse⟩
      by_cases hc' : c' = c
      · simp [hc', hc]
      · simp [hc', hregistered]
  | createResponseServer =>
    simp only [happ] at h hs
    obtain ⟨hresponse, hlive⟩ := hs
    split_ifs at h with hserver hok
    · refine Option.some.inj h ▸ ⟨hserver, hresponse, ?_⟩
      exact hlive.imp_right fun h => h.2
    · refine Option.some.inj h ▸ ⟨rfl, hresponse, ?_⟩
      exact hlive.imp_right fun h => h.2
    · refine Option.some.inj h ▸ .inl (hlive.resolve_right fun h => hserver h.1)
  | setResponseInterface =>
    simp only [happ] at h hs
    obtain ⟨hserver, -, hlive⟩ := hs
    refine Option.some.inj h ▸ hlive.imp_right fun h => ?_
    exact ⟨h.1, hserver, h.2⟩
  | startDiscovery =>
    simp only [happ] at h hs
    exact Option.some.inj h ▸ hs
  | waitDiscovery =>
    simp only [happ, Option.ite_none_right_eq_some, Option.some.injEq] at h hs
    exact h.2 ▸ hs
  | otaServiceInit =>
    simp only [happ] at h hs
    cases hinit : s.service.initStep ok with
    | some service =>
      simp only [hinit, Option.some.injEq] at h
      subst h
      simpa only [State.SetUp, happ] using hs
    | none =>
      simp only [hinit, Option.some.injEq] at h
      exact h ▸ hs
  | idle => simp [happ] at h

/-- `t` differs from `s` in none of what the handlers work on. -/
structure SameWork (s t : State) : Prop where
  events : t.events = s.events
  acks : t.acks = s.acks
  delegated : t.delegated = s.delegated
  sending : t.sending = s.sending
  uses : t.uses = s.uses

/-- `app_main` does no work of the handlers and withdraws no URI. -/
theorem appStep_sameWork {ok : Bool} (h : appStep s ok = some t) :
    SameWork s t ∧ (t.live = [] → s.live = []) := by
  unfold appStep at h
  cases happ : s.app with
  | createServer | createResponseServer | waitDiscovery =>
    simp only [happ] at h
    split_ifs at h
    all_goals exact Option.some.inj h ▸ ⟨⟨rfl, rfl, rfl, rfl, rfl⟩, id⟩
  | setRequestInterface | setResponseInterface | startDiscovery =>
    simp only [happ] at h
    exact Option.some.inj h ▸ ⟨⟨rfl, rfl, rfl, rfl, rfl⟩, id⟩
  | registerUris rest =>
    cases rest with
    | nil =>
      simp only [happ] at h
      exact Option.some.inj h ▸ ⟨⟨rfl, rfl, rfl, rfl, rfl⟩, id⟩
    | cons c rest =>
      simp only [happ] at h
      refine Option.some.inj h ▸ ⟨⟨rfl, rfl, rfl, rfl, rfl⟩, ?_⟩
      cases ok with
      | true => simp
      | false => exact id
  | registerEvents rest =>
    cases rest with
    | nil | cons =>
      simp only [happ] at h
      exact Option.some.inj h ▸ ⟨⟨rfl, rfl, rfl, rfl, rfl⟩, id⟩
  | otaServiceInit =>
    simp only [happ] at h
    split at h
    all_goals exact Option.some.inj h ▸ ⟨⟨rfl, rfl, rfl, rfl, rfl⟩, id⟩
  | idle => simp [happ] at h

/-- The steps of the handlers need work, and work came in by a live URI. -/
theorem State.Pending.live_ne_nil (hs : s.Pending)
    (hwork : s.events ≠ [] ∨ 0 < s.acks ∨ 0 < s.delegated ∨ s.sending = true) : s.live ≠ [] := by
  intro hlive
  obtain ⟨hevents, hacks, hdelegated, hsending⟩ := hs hlive
  rcases hwork with h | h | h | h
  · exact h hevents
  · simp [hacks] at h
  · simp [hdelegated] at h
  · simp [hsending] at h

/-- A step is one of `app_main`, or there is a live URI, or nothing is done. -/
theorem step_live {l : Label} (hs : s.Pending) (hl : ∀ ok, l ≠ .app ok) (h : step s l = some t) :
    s.live ≠ [] ∨ SameWork s t := by
  unfold step at h
  simp only [Option.ite_none_left_eq_some] at h
  obtain ⟨-, h⟩ := h
  cases l with
  | app ok => exact absurd rfl (hl ok)
  | discovered => exact Option.some.inj h ▸ .inr ⟨rfl, rfl, rfl, rfl, rfl⟩
  | request c posted =>
    simp only [Option.ite_none_right_eq_some] at h
    exact .inl (List.ne_nil_of_mem (List.contains_iff_mem.mp h.1))
  | handle sent =>
    refine .inl (hs.live_ne_nil (.inl ?_))
    rintro hevents
    simp [hevents] at h
  | ack =>
    simp only [Option.ite_none_right_eq_some] at h
    exact .inl (hs.live_ne_nil (.inr (.inl h.1)))
  | delegateTake =>
    simp only [Option.ite_none_right_eq_some] at h
    exact .inl (hs.live_ne_nil (.inr (.inr (.inl h.1.1))))
  | delegateSend more =>
    simp only [Option.ite_none_right_eq_some] at h
    exact .inl (hs.live_ne_nil (.inr (.inr (.inr h.1))))

theorem inv_preserved : Transition.Preserved step State.Inv := by
  intro s l t hs hstep
  have happ : ∀ ok, l = .app ok → appStep s ok = some t := by
    rintro ok rfl
    simp only [step, Option.ite_none_left_eq_some] at hstep
    exact hstep.2
  have hpending : ∀ {s t : State}, s.Pending → SameWork s t → (t.live = [] → s.live = []) →
      t.Pending := by
    intro s t hs hw hlive h
    rw [hw.events, hw.acks, hw.delegated, hw.sending]
    exact hs (hlive h)
  by_cases hl : ∃ ok, l = .app ok
  · obtain ⟨ok, hl⟩ := hl
    obtain ⟨hwork, hlive⟩ := appStep_sameWork (happ ok hl)
    exact ⟨appStep_setUp hs.setUp (happ ok hl), hpending hs.pending hwork hlive⟩
  · have hl : ∀ ok, l ≠ .app ok := fun ok h => hl ⟨ok, h⟩
    have hsame := step_sameSetUp hl hstep
    refine ⟨hsame.setUp hs.setUp, ?_⟩
    rcases step_live hs.pending hl hstep with hlive | hwork
    · exact fun h => absurd (hsame.live ▸ h) hlive
    · exact hpending hs.pending hwork fun h => hsame.live ▸ h

theorem boot_inv (imagePending : Bool) : (State.boot imagePending).Inv :=
  ⟨⟨rfl, rfl, rfl, rfl⟩, fun _ => ⟨rfl, rfl, rfl, rfl⟩⟩

/-! ## Start-up order safety -/

/-- Once a URI is live, what is set up is told by the place of `app_main`. -/
theorem State.SetUp.live (hs : s.SetUp) (hlive : s.live ≠ []) :
    s.requestInterface = true ∧ (s.responseInterface = !s.app.beforeResponse) ∧
      ∀ c, s.registered.contains c = !s.app.beforeEvent c := by
  unfold State.SetUp at hs
  cases happ : s.app with
  | createServer | setRequestInterface => simp [happ, hlive] at hs
  | registerUris rest =>
    simp only [happ] at hs
    obtain ⟨-, hrequest, hregistered, hresponse⟩ := hs
    exact ⟨hrequest, by simp [hresponse, AppPc.beforeResponse],
      by simp [hregistered, AppPc.beforeEvent]⟩
  | registerEvents rest =>
    simp only [happ] at hs
    obtain ⟨-, hrequest, -, hregistered, hresponse⟩ := hs
    refine ⟨hrequest, by simp [hresponse, AppPc.beforeResponse], fun c => ?_⟩
    rw [Bool.eq_iff_iff]
    simpa [AppPc.beforeEvent] using hregistered c
  | createResponseServer =>
    simp only [happ, hlive, false_or] at hs
    obtain ⟨hresponse, -, hrequest, hregistered⟩ := hs
    exact ⟨hrequest, by simp [hresponse, AppPc.beforeResponse],
      by simp [hregistered, AppPc.beforeEvent]⟩
  | setResponseInterface =>
    simp only [happ, hlive, false_or] at hs
    obtain ⟨-, hresponse, hrequest, hregistered⟩ := hs
    exact ⟨hrequest, by simp [hresponse, AppPc.beforeResponse],
      by simp [hregistered, AppPc.beforeEvent]⟩
  | startDiscovery | waitDiscovery | otaServiceInit | idle =>
    simp only [happ, hlive, false_or] at hs
    obtain ⟨hrequest, hresponse, hregistered⟩ := hs
    exact ⟨hrequest, by simp [hresponse, AppPc.beforeResponse],
      by simp [hregistered, AppPc.beforeEvent]⟩

/-- No handler has used module state that was not initialised. -/
def State.Safe (s : State) : Prop := ∀ u ∈ s.uses, u.initialised = true

/-- The handling of an event does not run ahead of `app_main`. -/
def HandledOnTime (s : State) (c : Command) (sent : Bool) : Prop :=
  match c with
  | .gateOpen | .gateClose | .gateStatus => sent = true ∨ s.app.beforeResponse = false
  | .log => True
  | .otaUpdate => s.service.semCreated = true ∧ s.app.beforeResponse = false

/-- The step does not run ahead of `app_main`: a request comes after the
registration of its event, what answers a request runs after
`user_request_response_create`, and an update is started after `ota_service_init`
has created the semaphore. -/
def OnTime (s : State) : Label → Prop
  | .request c _ => s.app.beforeEvent c = false
  | .handle sent =>
    match s.events with
    | [] => True
    | c :: _ => s.app.beforeEvent c = true ∨ HandledOnTime s c sent
  | .ack | .delegateSend _ => s.app.beforeResponse = false
  | .app _ | .discovered | .delegateTake => True

theorem safe_use {us : List Use} :
    (s.use us).Safe ↔ s.Safe ∧ ∀ u ∈ us, u.initialised = true := by
  simp [State.Safe, State.use, or_imp, forall_and]

theorem processStart_isSome {service : Ota.Service} :
    service.processStart.isSome = service.semCreated := by
  unfold Ota.Service.processStart
  cases service.semCreated <;> rfl

theorem SameWork.safe (h : SameWork s t) : t.Safe ↔ s.Safe := by
  unfold State.Safe
  rw [h.uses]

/-- The handler of an event posted on a live URI. -/
theorem eventHandler_safe {c : Command} {sent : Bool} (hs : s.SetUp) (hlive : s.live ≠ [])
    (h : eventHandler s c sent = some t) :
    t.Safe ↔ s.Safe ∧ HandledOnTime s c sent := by
  obtain ⟨-, hresponse, -⟩ := hs.live hlive
  unfold eventHandler at h
  cases c with
  | gateOpen | gateClose | gateStatus =>
    cases sent with
    | true =>
      rw [← Option.some.inj h]
      simp [State.Safe, HandledOnTime]
    | false =>
      obtain rfl : respond s = t := Option.some.inj h
      rw [respond, safe_use]
      simp [Use.initialised, hresponse, HandledOnTime]
  | log =>
    simp only [Option.ite_none_right_eq_some, Option.some.injEq] at h
    rw [← h.2]
    simp [State.Safe, HandledOnTime]
  | otaUpdate =>
    cases hstart : s.service.processStart with
    | some service =>
      have hsem : s.service.semCreated = true := by rw [← processStart_isSome, hstart]; rfl
      simp only [hstart, Option.some.injEq] at h
      rw [← h, respond, safe_use, safe_use]
      simp [State.Safe, State.use, Use.initialised, hresponse, hsem, HandledOnTime]
    | none =>
      have hsem : s.service.semCreated = false := by rw [← processStart_isSome, hstart]; rfl
      simp only [hstart, Option.some.injEq] at h
      rw [← h, safe_use]
      simp [Use.initialised, hsem, HandledOnTime]

theorem step_safe {l : Label} (hs : s.Inv) (h : step s l = some t) :
    t.Safe ↔ s.Safe ∧ OnTime s l := by
  have hrespond : ∀ {u : State}, u.uses = s.uses → u.responseInterface = s.responseInterface →
      s.live ≠ [] → ((respond u).Safe ↔ s.Safe ∧ s.app.beforeResponse = false) := by
    intro u huses hsame hlive
    rw [respond, safe_use, hsame, (hs.setUp.live hlive).2.1]
    simp [State.Safe, huses, Use.initialised]
  simp only [step, Option.ite_none_left_eq_some] at h
  obtain ⟨-, h⟩ := h
  cases l with
  | app ok =>
    rw [(appStep_sameWork h).1.safe]
    simp [OnTime]
  | discovered =>
    rw [← Option.some.inj h]
    simp [State.Safe, OnTime]
  | request c posted =>
    simp only [Option.ite_none_right_eq_some, Option.some.injEq] at h
    obtain ⟨hc, rfl⟩ := h
    obtain ⟨hrequest, -, hregistered⟩ :=
      hs.setUp.live (List.ne_nil_of_mem (List.contains_iff_mem.mp hc))
    cases posted with
    | true =>
      change (s.use [.post c (s.registered.contains c)]).Safe ↔ _
      rw [safe_use, hregistered]
      simp [Use.initialised, OnTime]
    | false =>
      change ((s.use [.post c (s.registered.contains c)]).use
        [.requestInterface s.requestInterface]).Safe ↔ _
      rw [safe_use, safe_use, hregistered, hrequest]
      simp [Use.initialised, OnTime]
  | handle sent =>
    have hlive : s.events ≠ [] → s.live ≠ [] := fun h => hs.pending.live_ne_nil (.inl h)
    cases hevents : s.events with
    | nil => simp [hevents] at h
    | cons c rest =>
      have hlive := hlive (by simp [hevents])
      have hregistered := (hs.setUp.live hlive).2.2 c
      simp only [hevents, hregistered] at h
      simp only [OnTime, hevents]
      cases hbefore : s.app.beforeEvent c with
      | true =>
        -- the event loop drops the event
        rw [hbefore] at h
        rw [← Option.some.inj h]
        simp [State.Safe]
      | false =>
        rw [hbefore] at h
        rw [or_iff_right Bool.false_ne_true]
        exact eventHandler_safe (s := { s with events := rest }) hs.setUp hlive h
  | ack =>
    simp only [Option.ite_none_right_eq_some, Option.some.injEq] at h
    obtain ⟨hacks, rfl⟩ := h
    exact hrespond rfl rfl (hs.pending.live_ne_nil (.inr (.inl hacks)))
  | delegateTake =>
    simp only [Option.ite_none_right_eq_some, Option.some.injEq] at h
    rw [← h.2]
    simp [State.Safe, OnTime]
  | delegateSend more =>
    simp only [Option.ite_none_right_eq_some, Option.some.injEq] at h
    obtain ⟨hsending, rfl⟩ := h
    exact hrespond rfl rfl (hs.pending.live_ne_nil (.inr (.inr (.inr hsending))))

/-- The handlers use initialised state only in exactly the runs in which none of
them runs ahead of `app_main`. -/
theorem safe_iff_onTime (imagePending : Bool) {ls : List Label} {s : State}
    (hrun : Transition.run step (.boot imagePending) ls = some s) :
    s.Safe ↔ Transition.Throughout step OnTime (.boot imagePending) ls :=
  Transition.good_iff_throughout inv_preserved (fun _ _ _ => step_safe) (boot_inv imagePending)
    (by simp [State.Safe, State.boot]) hrun

/-- `app_main` makes `n` steps, each with success. -/
def appLabels (n : Nat) : List Label := List.replicate n (.app true)

/-- An update is requested while `app_main` waits for the discovery. -/
def earlyUpdate : List Label := appLabels 16 ++ [.request .otaUpdate true, .handle true]

/-- An update is requested once the semaphore is there. -/
def lateUpdate : List Label :=
  appLabels 16 ++ [.discovered] ++ appLabels 3 ++ [.request .otaUpdate true, .handle true]

/-- The late request runs ahead of nothing. -/
theorem onTime_lateUpdate : Transition.Throughout step OnTime (.boot false) lateUpdate := by
  have hrun : (Transition.run step (.boot false) lateUpdate).map State.uses =
      some [.post .otaUpdate true, .startUpdate true, .responseInterface true] := by
    decide +kernel
  obtain ⟨s, hs, huses⟩ := Option.map_eq_some_iff.mp hrun
  apply (safe_iff_onTime false hs).mp
  simp [State.Safe, huses, Use.initialised]

/-- The early request gives a semaphore that does not exist. -/
theorem not_safe_earlyUpdate :
    ¬ ∀ imagePending ls s, Transition.run step (.boot imagePending) ls = some s → s.Safe := by
  intro h
  have hrun : (Transition.run step (.boot false) earlyUpdate).map State.uses =
      some [.post .otaUpdate true, .startUpdate false] := by decide +kernel
  obtain ⟨s, hs, huses⟩ := Option.map_eq_some_iff.mp hrun
  have hgive : Use.startUpdate false ∈ s.uses := by simp [huses]
  exact Bool.noConfusion (h false _ s hs _ hgive)

end HomeNode.Startup
