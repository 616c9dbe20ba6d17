-- SUMMARY: The requests on their way: from the httpd task through the event queue to the radio and back, in every run, and what the trace records of it.
import HomeNode.Http.Progress
import HomeNode.Lib.Output

/-!
# Requests on their way

A request goes from its callback through the queue of the event loop, and a gate
command from there to the radio and back. The labels of a run alone tell what was
posted, handled and answered; the trace records the calls that were made for it.
-/

namespace HomeNode.Http

variable {s t u : State} {c : Ctx} {r : Req} {l : Label} {ls : List Label}

/-! ## What goes in and comes back -/

/-- The command for the gate node that a request stands for. -/
def messageCommand : Command → Option MessageCommand
  | .gateOpen => some .openLock
  | .gateClose => some .closeLock
  | .gateStatus => some .lockStatus
  | .log | .otaUpdate => none

/-- The request that `master_request_handler` gives to a callback. -/
def arriving (s : State) : Label → List Req
  | .dispatch command socket (some _) => [⟨s.nextId, command, socket⟩]
  | _ => []

/-- The context whose callback calls `USER_REQUEST_post_event`, and whether the event was
taken. -/
def posting (s : State) : Label → List (Ctx × Bool)
  | .post ok =>
    match s.httpd with
    | .callback c => [(c, ok)]
    | _ => []
  | _ => []

/-- The event that is handled, and what `message_codec_send_command` returns if it is
called. -/
def handling (s : State) : Label → List (Ctx × Bool)
  | .handle ok => (s.events.head?.map fun c => (c, ok)).toList
  | _ => []

/-- The event of the message codec that is handled. -/
def acking (_ : State) : Label → List (Ctx × Bool)
  | .ack c success => [(c, success)]
  | _ => []

/-- The call that an event asks for, with its result. The log is left to the delegate task. -/
def called (event : Ctx × Bool) : Option (Ctx × CommandEvent) :=
  match event.1.owner.command with
  | .log => none
  | .otaUpdate => some (event.1, .otaStarted)
  | command => (messageCommand command).map fun m => (event.1, .sent m event.2)

/-- What a step is to do for the command of a request. -/
def happening (s : State) (l : Label) : List (Ctx × CommandEvent) :=
  (posting s l).map (fun event => (event.1, .posted event.2)) ++ (handling s l).filterMap called ++
    (acking s l).map fun ack => (ack.1, .acked ack.2)

abbrev arrivals (ls : List Label) : List Req := Transition.output step arriving .init ls
abbrev postings (ls : List Label) : List (Ctx × Bool) := Transition.output step posting .init ls
abbrev handlings (ls : List Label) : List (Ctx × Bool) := Transition.output step handling .init ls
abbrev ackings (ls : List Label) : List (Ctx × Bool) := Transition.output step acking .init ls

/-- What a run is to do for the commands, in its order. -/
abbrev happenings (ls : List Label) : List (Ctx × CommandEvent) :=
  Transition.output step happening .init ls

/-- The contexts whose event was taken, or was not. -/
def posted (ok : Bool) (events : List (Ctx × Bool)) : List Ctx :=
  (events.filter fun event => event.2 = ok).map Prod.fst

/-- The requests whose event was not taken. -/
def refusals (ls : List Label) : List Req := (posted false (postings ls)).map Ctx.owner

/-- The request that waits for its callback. -/
def HttpdPc.arrived : HttpdPc → List Ctx
  | .callback c => [c]
  | _ => []

/-- The requests whose events wait: in the queue, and in the callback that posts. -/
def waiting (s : State) : List Req := (s.events ++ s.httpd.arrived).map Ctx.owner

/-! ## What a step does to the queues -/

/-- What the trace records for the commands. -/
def commandEvents (tr : List Obs) : List (Ctx × CommandEvent) :=
  tr.filterMap fun
    | .command c e => some (c, e)
    | _ => none

@[simp] theorem commandEvents_append (tr obs : List Obs) :
    commandEvents (tr ++ obs) = commandEvents tr ++ commandEvents obs :=
  List.filterMap_append

@[simp] theorem commandEvents_calls (c : Ctx) (r : Req) (hs : List HttpdCall) :
    commandEvents (calls c r hs) = [] := by
  simp [commandEvents, calls, List.filterMap_map]

/-- No request, event or result goes anywhere. -/
structure Apart (s t : State) : Prop where
  arrived : t.httpd.arrived = s.httpd.arrived
  events : t.events = s.events
  onAir : t.onAir = s.onAir
  nextId : t.nextId = s.nextId
  recorded : commandEvents t.trace = commandEvents s.trace

theorem answerStep_apart {pc : AnswerPc} {next : Option AnswerPc}
    (hstep : answerStep s c pc = some (t, next)) : Apart s t := by
  cases pc with
  | respond text =>
    cases hreq : (s.slots c.slot).req with
    | none => simp [answerStep, hreq] at hstep
    | some r =>
      simp only [answerStep, hreq, Option.some.injEq, Prod.mk.injEq] at hstep
      obtain ⟨rfl, -⟩ := hstep
      exact ⟨rfl, rfl, rfl, rfl, by simp [State.log]⟩
  | complete =>
    cases hreq : (s.slots c.slot).req with
    | none =>
      simp only [answerStep, hreq, Option.some.injEq, Prod.mk.injEq] at hstep
      obtain ⟨rfl, -⟩ := hstep
      exact ⟨rfl, rfl, rfl, rfl, rfl⟩
    | some r =>
      simp only [answerStep, hreq, Option.some.injEq, Prod.mk.injEq] at hstep
      obtain ⟨rfl, -⟩ := hstep
      exact ⟨rfl, rfl, rfl, rfl, by simp [State.log]⟩
  | free =>
    simp only [answerStep, Option.some.injEq, Prod.mk.injEq] at hstep
    obtain ⟨rfl, -⟩ := hstep
    exact ⟨rfl, rfl, rfl, rfl, by simp [State.freeSlot, State.log, commandEvents]⟩

theorem dataWorkerStep_apart {j : JobId} {job : SendJob} {pc : DataPc}
    (hpc : s.httpd = .dataWorker j pc) (hstep : dataWorkerStep s j job pc = some t) :
    Apart s t := by
  cases pc with
  | send =>
    cases hreq : (s.slots job.ctx.slot).req with
    | none => simp [dataWorkerStep, hreq] at hstep
    | some r =>
      simp only [dataWorkerStep, hreq, Option.some.injEq] at hstep
      subst hstep
      exact ⟨by simp [State.log, hpc, HttpdPc.arrived], rfl, rfl, rfl, by simp [State.log]⟩
  | freeChunk | freeJob =>
    obtain rfl := Option.some.inj hstep
    exact ⟨by simp [hpc, HttpdPc.arrived], rfl, rfl, rfl, rfl⟩

theorem closeWorkerStep_apart {accepted : Bool} {pc : ClosePc} (hpc : s.httpd = .closeWorker c pc)
    (hstep : closeWorkerStep s c accepted pc = some t) : Apart s t := by
  cases pc with
  | sendEnd | complete =>
    cases hreq : (s.slots c.slot).req with
    | none => simp [closeWorkerStep, hreq] at hstep
    | some r =>
      simp only [closeWorkerStep, hreq, Option.some.injEq] at hstep
      subst hstep
      exact ⟨by simp [State.log, hpc, HttpdPc.arrived], rfl, rfl, rfl, by simp [State.log]⟩
  | queueFinalize =>
    cases accepted with
    | true =>
      obtain rfl := Option.some.inj hstep
      exact ⟨by simp [hpc, HttpdPc.arrived], rfl, rfl, rfl, rfl⟩
    | false =>
      obtain rfl := Option.some.inj hstep
      exact ⟨by simp [State.log, hpc, HttpdPc.arrived], rfl, rfl, rfl,
        by simp [State.log, commandEvents]⟩

theorem httpdStep_apart {accepted : Bool} (hstep : httpdStep s accepted = some t) : Apart s t := by
  cases hpc : s.httpd with
  | idle | callback c | crashed => simp [httpdStep, hpc] at hstep
  | answering c pc =>
    obtain ⟨u, next, hanswer, rfl⟩ := httpdStep_answering hpc hstep
    obtain ⟨harrived, hevents, honAir, hnextId, hrecorded⟩ := answerStep_apart hanswer
    refine ⟨?_, hevents, honAir, hnextId, hrecorded⟩
    cases next <;> simp [hpc, HttpdPc.after, HttpdPc.arrived]
  | dataWorker j pc =>
    cases hjob : s.jobs j with
    | none => simp [httpdStep, hpc, hjob] at hstep
    | some job =>
      simp only [httpdStep, hpc, hjob] at hstep
      exact dataWorkerStep_apart hpc hstep
  | closeWorker c pc =>
    simp only [httpdStep, hpc] at hstep
    exact closeWorkerStep_apart hpc hstep
  | finalizeWorker c =>
    simp only [httpdStep, hpc, Option.some.injEq] at hstep
    subst hstep
    exact ⟨by simp [hpc, HttpdPc.arrived], rfl, rfl, rfl,
      by simp [State.freeSlot, State.log, commandEvents]⟩

theorem loopStep_apart (hstep : loopStep s = some t) : Apart s t := by
  cases hpc : s.loop with
  | idle => simp [loopStep, hpc] at hstep
  | answering c pc =>
    obtain ⟨u, next, hanswer, rfl⟩ := loopStep_answering hpc hstep
    obtain ⟨harrived, hevents, honAir, hnextId, hrecorded⟩ := answerStep_apart hanswer
    exact ⟨harrived, hevents, honAir, hnextId, hrecorded⟩

theorem startWork_apart (hidle : s.httpd = .idle) (hstep : startWork s = some t) : Apart s t := by
  unfold startWork at hstep
  cases hwork : s.work with
  | nil => simp [hwork] at hstep
  | cons w rest =>
    cases w with
    | data j | close c | finalize c =>
      simp only [hwork, Option.some.injEq] at hstep
      subst hstep
      exact ⟨by simp [hidle, HttpdPc.arrived], rfl, rfl, rfl, rfl⟩

theorem delegateStep_apart {a : Answer} (hstep : delegateStep s a = some t) : Apart s t := by
  cases delegateStep_kind hstep with
  | allocChunk | allocJob | queueClose => exact ⟨rfl, rfl, rfl, rfl, rfl⟩
  | queueData c piece rest exhausted chunk job accepted =>
    cases chunk <;> cases job <;> cases accepted <;>
      exact ⟨rfl, rfl, rfl, rfl, by simp [queueData, State.log, commandEvents]⟩
  | loseClose c => exact ⟨rfl, rfl, rfl, rfl, by simp [State.log, commandEvents]⟩

/-- The contexts whose commands were given to the radio. -/
def aired (handled : List (Ctx × Bool)) : List Ctx :=
  handled.filterMap fun event =>
    if event.2 ∧ (messageCommand event.1.owner.command).isSome then some event.1 else none

/-- What a step does to the requests, events and results on their way. -/
structure Carried (s : State) (l : Label) (t : State) : Prop where
  arrived : s.httpd.arrived.map Ctx.owner ++ arriving s l =
    (posting s l).map (fun event => event.1.owner) ++ t.httpd.arrived.map Ctx.owner
  events : s.events ++ posted true (posting s l) = (handling s l).map Prod.fst ++ t.events
  onAir : (s.onAir ++ aired (handling s l)).Perm ((acking s l).map Prod.fst ++ t.onAir)
  ids : List.range t.nextId = List.range s.nextId ++ (arriving s l).map Req.id
  recorded : commandEvents t.trace = commandEvents s.trace ++ happening s l

theorem Apart.carried (h : Apart s t) (harriving : arriving s l = []) (hposting : posting s l = [])
    (hhandling : handling s l = []) (hacking : acking s l = []) : Carried s l t := by
  constructor
  case arrived => simp [harriving, hposting, h.arrived]
  case events => simp [hposting, hhandling, posted, h.events]
  case onAir => simp [hhandling, hacking, aired, h.onAir]
  case ids => simp [harriving, h.nextId]
  case recorded => simp [happening, hposting, hhandling, hacking, h.recorded]

theorem dispatch_carried {command : Command} {socket : Socket} {slot : Option SlotId}
    (hidle : s.httpd = .idle) (hstep : masterRequestHandler s command socket slot = some t) :
    Carried s (.dispatch command socket slot) t := by
  unfold masterRequestHandler at hstep
  cases halloc : s.slotBank.alloc slot with
  | none => simp [halloc] at hstep
  | some bank =>
    cases slot with
    | none =>
      obtain rfl : { s with httpd := .crashed } = t := by simpa [halloc] using hstep
      have hapart : Apart s { s with httpd := .crashed } :=
        ⟨by simp [hidle, HttpdPc.arrived], rfl, rfl, rfl, rfl⟩
      exact hapart.carried rfl rfl rfl rfl
    | some i =>
      simp only [halloc, Option.some.injEq] at hstep
      subst hstep
      constructor
      case arrived => simp [State.log, hidle, HttpdPc.arrived, arriving, posting]
      case events => simp [State.log, posting, handling, posted]
      case onAir => simp [State.log, handling, acking, aired]
      case ids => simp [State.log, arriving, List.range_succ]
      case recorded => simp [State.log, commandEvents, happening, posting, handling, acking]

theorem post_carried {ok : Bool} (hpc : s.httpd = .callback c) :
    Carried s (.post ok) (postEvent s c ok) := by
  have hposting : posting s (.post ok) = [(c, ok)] := by simp [posting, hpc]
  constructor
  case arrived => cases ok <;> simp [hposting, postEvent, State.log, hpc, HttpdPc.arrived, arriving]
  case events => cases ok <;> simp [hposting, postEvent, State.log, posted, handling]
  case onAir => cases ok <;> simp [postEvent, State.log, handling, acking, aired]
  case ids => cases ok <;> simp [postEvent, State.log, arriving]
  case recorded =>
    cases ok <;>
      simp [postEvent, State.log, commandEvents, happening, hposting, handling, acking]

/-- An event that is handled leaves the queue, whatever becomes of it. -/
theorem carried_of_handled {rest : List Ctx} {ok : Bool} (hevents : s.events = c :: rest)
    (hhttpd : t.httpd = s.httpd) (hrest : t.events = rest) (hnextId : t.nextId = s.nextId)
    (honAir : t.onAir = s.onAir ++ aired [(c, ok)])
    (hrecorded : commandEvents t.trace = commandEvents s.trace ++ (called (c, ok)).toList) :
    Carried s (.handle ok) t := by
  have hhandling : handling s (.handle ok) = [(c, ok)] := by simp [handling, hevents]
  constructor
  case arrived => simp [hhttpd, arriving, posting]
  case events => simp [hhandling, hevents, hrest, posting, posted]
  case onAir => simp [hhandling, honAir, acking]
  case ids => simp [hnextId, arriving]
  case recorded =>
    rw [hrecorded, happening, hhandling]
    cases hcalled : called (c, ok) <;> simp [posting, acking, hcalled]

theorem sendCommand_carried {rest : List Ctx} {m : MessageCommand} {ok : Bool}
    (hevents : s.events = c :: rest) (hcalled : called (c, ok) = some (c, .sent m ok))
    (hcommand : (messageCommand c.owner.command).isSome) :
    Carried s (.handle ok) (sendCommand { s with events := rest } c m ok) := by
  cases ok with
  | true =>
    refine carried_of_handled hevents rfl rfl rfl ?_ ?_
    · simp [sendCommand, State.log, aired, hcommand]
    · simp [sendCommand, State.log, commandEvents, hcalled]
  | false =>
    refine carried_of_handled hevents rfl rfl rfl ?_ ?_
    · simp [sendCommand, inform, State.log, aired]
    · simp [sendCommand, inform, State.log, commandEvents, hcalled]

theorem handle_carried {rest : List Ctx} {ok : Bool} (hevents : s.events = c :: rest)
    (hstep : handleEvent { s with events := rest } c ok = some t) :
    Carried s (.handle ok) t := by
  unfold handleEvent at hstep
  cases hcommand : c.owner.command with
  | gateOpen | gateClose | gateStatus =>
    simp only [hcommand, Option.some.injEq] at hstep
    subst hstep
    exact sendCommand_carried hevents (by simp [called, hcommand, messageCommand])
      (by simp [hcommand, messageCommand])
  | log =>
    by_cases hfull : s.delegated.length < delegateQueueLength
    · simp only [hcommand, hfull, if_true, Option.some.injEq] at hstep
      subst hstep
      refine carried_of_handled hevents rfl rfl rfl ?_ ?_
      · simp [aired, messageCommand, hcommand]
      · simp [called, hcommand]
    · simp [hcommand, hfull] at hstep
  | otaUpdate =>
    simp only [hcommand, Option.some.injEq] at hstep
    subst hstep
    refine carried_of_handled hevents rfl rfl rfl ?_ ?_
    · simp [inform, State.log, aired, messageCommand, hcommand]
    · simp [inform, State.log, commandEvents, called, hcommand]

theorem ack_carried {success : Bool} (hmem : c ∈ s.onAir) :
    Carried s (.ack c success) (handleSendStatus s c success) := by
  constructor
  case arrived => simp [handleSendStatus, inform, State.log, arriving, posting]
  case events => simp [handleSendStatus, inform, State.log, handling, posting, posted]
  case onAir =>
    simpa [handleSendStatus, inform, State.log, handling, acking, aired]
      using List.perm_cons_erase hmem
  case ids => simp [handleSendStatus, inform, State.log, arriving]
  case recorded =>
    simp [handleSendStatus, inform, State.log, commandEvents, happening, posting, handling, acking]

theorem step_carried (hstep : step s l = some t) : Carried s l t := by
  cases step_kind hstep with
  | dispatch command socket slot _ hidle hdispatch => exact dispatch_carried hidle hdispatch
  | post c ok hpc => exact post_carried hpc
  | httpd accepted _ hhttpd => exact (httpdStep_apart hhttpd).carried rfl rfl rfl rfl
  | startWork _ hidle hwork => exact (startWork_apart hidle hwork).carried rfl rfl rfl rfl
  | handle c rest ok _ _ hevents hhandle => exact handle_carried hevents hhandle
  | ack c success _ hmem => exact ack_carried hmem
  | loop _ hloop => exact (loopStep_apart hloop).carried rfl rfl rfl rfl
  | snapshot c rest pieces =>
    have hapart : Apart s (State.log { s with
        delegated := rest, delegate := .reading c pieces } [.snapshot c pieces]) :=
      ⟨rfl, rfl, rfl, rfl, by simp [State.log, commandEvents]⟩
    exact hapart.carried rfl rfl rfl rfl
  | delegate a _ hdelegate => exact (delegateStep_apart hdelegate).carried rfl rfl rfl rfl

/-- What a step adds to the trace. -/
def added (s : State) (l : Label) : List Obs :=
  ((step s l).map fun t => t.trace.drop s.trace.length).getD []

theorem trace_added (hstep : step s l = some t) : t.trace = s.trace ++ added s l := by
  obtain ⟨obs, htrace, -⟩ := step_log hstep
  simp [added, hstep, htrace]

/-! ## What a run does -/

theorem arrivals_eq (hrun : run ls = some t) :
    arrivals ls = (postings ls).map (fun event => event.1.owner) ++
      t.httpd.arrived.map Ctx.owner := by
  have hrelay : Transition.Relays step (fun s => s.httpd.arrived.map Ctx.owner) arriving
      fun s l => (posting s l).map fun event => event.1.owner :=
    fun s l t hstep => (step_carried hstep).arrived
  have hpassed := hrelay.run hrun
  rw [Transition.output_hom (F := List.map fun event : Ctx × Bool => event.1.owner) rfl
    (fun _ _ => List.map_append)] at hpassed
  exact hpassed

theorem posted_append (ok : Bool) (as bs : List (Ctx × Bool)) :
    posted ok (as ++ bs) = posted ok as ++ posted ok bs := by
  simp [posted]

/-- The event queue loses nothing and keeps the order. -/
theorem posted_eq (hrun : run ls = some t) :
    posted true (postings ls) = (handlings ls).map Prod.fst ++ t.events := by
  have hrelay : Transition.Relays step State.events (fun s l => posted true (posting s l))
      fun s l => (handling s l).map Prod.fst :=
    fun s l t hstep => (step_carried hstep).events
  have hpassed := hrelay.run hrun
  rw [Transition.output_hom (F := posted true) rfl (posted_append true),
    Transition.output_hom (F := List.map Prod.fst) rfl (fun _ _ => List.map_append)] at hpassed
  exact hpassed

theorem arrivals_id (hrun : run ls = some t) : (arrivals ls).map Req.id = List.range t.nextId := by
  have hlog := Transition.log_run (fun s => List.range s.nextId)
    (fun s l t hstep => (step_carried hstep).ids) hrun
  rw [Transition.output_hom (F := List.map Req.id) rfl (fun _ _ => List.map_append)] at hlog
  exact hlog.symm

theorem arrivals_nodup (hrun : run ls = some t) : (arrivals ls).Nodup := by
  apply List.Nodup.of_map Req.id
  rw [arrivals_id hrun]
  exact List.nodup_range

/-- What was given to the radio has come back or is on the air. -/
theorem aired_perm (hrun : run ls = some t) :
    (aired (handlings ls)).Perm ((ackings ls).map Prod.fst ++ t.onAir) := by
  have hall : ∀ ls t, run ls = some t →
      (aired (handlings ls)).Perm ((ackings ls).map Prod.fst ++ t.onAir) := by
    apply Transition.run_induction
    · exact List.Perm.refl _
    · intro ls t l u hls ih hstep
      have happend : aired (handlings ls ++ handling t l) =
          aired (handlings ls) ++ aired (handling t l) := List.filterMap_append
      rw [handlings, ackings, Transition.output_concat hls, Transition.output_concat hls, happend,
        List.map_append, List.append_assoc]
      apply (ih.append_right _).trans
      rw [List.append_assoc]
      exact (step_carried hstep).onAir.append_left _
  exact hall ls t hrun

/-- The trace records the calls and results of the run, each with the request it is for. -/
theorem commandEvents_eq (hrun : run ls = some t) : commandEvents t.trace = happenings ls :=
  Transition.log_run (fun s => commandEvents s.trace)
    (fun _ _ _ hstep => (step_carried hstep).recorded) hrun

theorem mem_commandEvents {e : CommandEvent} {tr : List Obs} :
    (c, e) ∈ commandEvents tr ↔ .command c e ∈ tr := by
  simp only [commandEvents, List.mem_filterMap]
  constructor
  · rintro ⟨o, ho, he⟩
    cases o with
    | command d e' =>
      obtain ⟨rfl, rfl⟩ := Prod.mk.inj (Option.some.inj he)
      exact ho
    | begun _ | call _ _ _ | freed _ _ | snapshot _ _ | offered _ _ | lost _ _ => cases he
  · exact fun h => ⟨_, h, rfl⟩

/-- A handled event makes the call of its own command. -/
theorem called_eq_some {event : Ctx × Bool} {e : CommandEvent} (h : called event = some (c, e)) :
    event.1 = c ∧ ((∃ m, messageCommand c.owner.command = some m ∧ e = .sent m event.2) ∨
      c.owner.command = .otaUpdate ∧ e = .otaStarted) := by
  obtain ⟨d, ok⟩ := event
  cases hcommand : d.owner.command <;> simp only [called, hcommand, messageCommand,
    Option.map_some, Option.some.injEq, Prod.mk.injEq, reduceCtorEq] at h
  all_goals
    obtain ⟨rfl, rfl⟩ := h
    simp [hcommand, messageCommand]

theorem mem_happening {e : CommandEvent} : (c, e) ∈ happening s l ↔
    (∃ ok, (c, ok) ∈ posting s l ∧ .posted ok = e) ∨
      (∃ event ∈ handling s l, called event = some (c, e)) ∨
      ∃ success, (c, success) ∈ acking s l ∧ .acked success = e := by
  simp only [happening, List.mem_append, List.mem_map, List.mem_filterMap, Prod.mk.injEq,
    Prod.exists, or_assoc]
  constructor
  · rintro (⟨c', ok, hposting, rfl, he⟩ | hcalled | ⟨c', success, hacking, rfl, he⟩)
    · exact .inl ⟨ok, hposting, he⟩
    · exact .inr (.inl hcalled)
    · exact .inr (.inr ⟨success, hacking, he⟩)
  · rintro (⟨ok, hposting, he⟩ | hcalled | ⟨success, hacking, he⟩)
    · exact .inl ⟨c, ok, hposting, rfl, he⟩
    · exact .inr (.inl hcalled)
    · exact .inr (.inr ⟨c, success, hacking, rfl, he⟩)

theorem posted_of_recorded {ok : Bool} (hrun : run ls = some t)
    (hmem : .command c (.posted ok) ∈ t.trace) : (c, ok) ∈ postings ls := by
  rw [← mem_commandEvents, commandEvents_eq hrun] at hmem
  have hstep : ∀ s l, (c, .posted ok) ∈ happening s l → ∃ p ∈ posting s l, p = (c, ok) := by
    intro s l h
    rcases mem_happening.mp h with ⟨ok', hposting, he⟩ | ⟨event, -, hcalled⟩ | ⟨success, -, he⟩
    · exact ⟨_, hposting, by rw [CommandEvent.posted.inj he]⟩
    · rcases (called_eq_some hcalled).2 with ⟨m, -, h⟩ | ⟨-, h⟩ <;> cases h
    · cases he
  obtain ⟨p, hp, rfl⟩ := Transition.exists_mem_output hstep hmem
  exact hp

theorem acked_of_recorded {success : Bool} (hrun : run ls = some t)
    (hmem : .command c (.acked success) ∈ t.trace) : (c, success) ∈ ackings ls := by
  rw [← mem_commandEvents, commandEvents_eq hrun] at hmem
  have hstep : ∀ s l, (c, .acked success) ∈ happening s l → ∃ p ∈ acking s l, p = (c, success) := by
    intro s l h
    rcases mem_happening.mp h with ⟨ok, -, he⟩ | ⟨event, -, hcalled⟩ | ⟨success', hacking, he⟩
    · cases he
    · rcases (called_eq_some hcalled).2 with ⟨m, -, h⟩ | ⟨-, h⟩ <;> cases h
    · exact ⟨_, hacking, by rw [CommandEvent.acked.inj he]⟩
  obtain ⟨p, hp, rfl⟩ := Transition.exists_mem_output hstep hmem
  exact hp

/-- What is called while an event is handled is the call of its command. -/
theorem called_of_recorded {e : CommandEvent} (hrun : run ls = some t)
    (hmem : .command c e ∈ t.trace) (hposted : ∀ ok, e ≠ .posted ok)
    (hacked : ∀ success, e ≠ .acked success) :
    ∃ event ∈ handlings ls, called event = some (c, e) := by
  rw [← mem_commandEvents, commandEvents_eq hrun] at hmem
  refine Transition.exists_mem_output (fun s l h => ?_) hmem
  rcases mem_happening.mp h with ⟨ok, -, he⟩ | hcalled | ⟨success, -, he⟩
  · exact absurd he.symm (hposted ok)
  · exact hcalled
  · exact absurd he.symm (hacked success)

/-! ## Each request is posted and handled once -/

theorem postings_nodup (hrun : run ls = some t) :
    ((postings ls).map fun event => event.1.owner).Nodup := by
  have hnodup := arrivals_nodup hrun
  rw [arrivals_eq hrun] at hnodup
  exact hnodup.of_append_left

theorem posted_sublist (ok : Bool) (events : List (Ctx × Bool)) :
    ((posted ok events).map Ctx.owner).Sublist (events.map fun event => event.1.owner) := by
  have hmap : (posted ok events).map Ctx.owner =
      (events.filter fun event => event.2 = ok).map fun event => event.1.owner := by
    simp [posted]
  rw [hmap]
  exact List.filter_sublist.map _

theorem handlings_nodup (hrun : run ls = some t) :
    ((handlings ls).map fun event => event.1.owner).Nodup := by
  have hnodup := (postings_nodup hrun).sublist (posted_sublist true (postings ls))
  rw [posted_eq hrun, List.map_append, List.map_map] at hnodup
  exact hnodup.of_append_left

theorem mem_posted {ok : Bool} {events : List (Ctx × Bool)} :
    c ∈ posted ok events ↔ (c, ok) ∈ events := by
  simp [posted]

/-- An event that is handled was taken when it was posted. -/
theorem posted_of_handled {ok : Bool} (hrun : run ls = some t) (hmem : (c, ok) ∈ handlings ls) :
    (c, true) ∈ postings ls := by
  have hposted : c ∈ posted true (postings ls) := by
    rw [posted_eq hrun]
    exact List.mem_append_left _ (List.mem_map_of_mem hmem)
  exact mem_posted.mp hposted

theorem mem_refusals : r ∈ refusals ls ↔ ∃ c, c.owner = r ∧ (c, false) ∈ postings ls := by
  simp [refusals, mem_posted, and_comm]

theorem not_mem_refusals_iff (hrun : run ls = some t) {event : Ctx × Bool}
    (hevent : event ∈ postings ls) : event.1.owner ∉ refusals ls ↔ event.2 = true := by
  constructor
  · intro h
    by_contra hfalse
    apply h
    refine mem_refusals.mpr ⟨event.1, rfl, ?_⟩
    rw [← Bool.eq_false_iff.mpr hfalse]
    exact hevent
  · intro htrue hmem
    obtain ⟨c, howner, hc⟩ := mem_refusals.mp hmem
    have hsame := List.inj_on_of_nodup_map (postings_nodup hrun) hevent hc howner.symm
    rw [hsame] at htrue
    exact Bool.noConfusion htrue

end HomeNode.Http
