-- SUMMARY: The requests for an update check on their way to ota_task: a client that is told success gets its check.
import HomeNode.Http.Commands
import HomeNode.Ota.Gate

/-!
# Requests for an update check

The event loop gives the semaphore of `ota_task` and has `success` sent, whatever
`ota_task` is doing. The system here is made of both: the tasks of the HTTP server, and the
OTA service with its task. What the answer promises is kept by another task than the one
that gives it.
-/

namespace HomeNode.UpdateRequests

open Http (Req Ctx)

/-! ## The two systems together -/

structure Node where
  http : Http.State
  ota : Ota.Service

/-- `user_request_create` has returned, and `ota_service_init` is to be called. -/
def Node.boot (imagePending : Bool) : Node := ⟨.init, .boot imagePending⟩

inductive Label where
  | http (l : Http.Label)
  | ota (l : Ota.Label)

/-- The requests for which a step of the HTTP server calls `ota_process_start`. -/
def requesting (s : Http.State) (l : Http.Label) : List Req :=
  (Http.commandEvents (Http.added s l)).filterMap fun
    | (c, .otaStarted) => some c.owner
    | _ => none

/-- One step of one of the tasks. Apart from `ota_set_valid`, only the event loop calls
`ota_process_start`. -/
def Node.step (cfg : Ota.Config) (n : Node) : Label → Option Node
  | .http l =>
    match Http.step n.http l with
    | none => none
    | some http =>
      if requesting n.http l = [] then some ⟨http, n.ota⟩
      else
        match n.ota.processStart with
        | none => none
        | some ota => some ⟨http, ota⟩
  | .ota .start => none
  | .ota l =>
    match n.ota.step cfg l with
    | none => none
    | some ota => some ⟨n.http, ota⟩

inductive Event where
  /-- `ota_process_start` is called for the request -/
  | requested (r : Req)
  /-- `ota_task` calls `fetch_ota_manifest` -/
  | fetched
  deriving DecidableEq

/-- What is seen of a step. -/
def observe (n : Node) : Label → List Event
  | .http l => (requesting n.http l).map .requested
  | .ota (.task _) => if n.ota.task = .updating then [.fetched] else []
  | .ota _ => []

abbrev run (cfg : Ota.Config) (imagePending : Bool) (ls : List Label) : Option Node :=
  Transition.run (Node.step cfg) (.boot imagePending) ls

abbrev events (cfg : Ota.Config) (imagePending : Bool) (ls : List Label) : List Event :=
  Transition.output (Node.step cfg) observe (.boot imagePending) ls

variable {cfg : Ota.Config} {pending : Bool} {n m : Node} {ls : List Label} {r : Req}

/-! ## Steps -/

/-- What a step can be. -/
inductive StepKind (cfg : Ota.Config) (n : Node) : Label → Node → Prop where
  | http (l : Http.Label) (http : Http.State) (step : Http.step n.http l = some http)
    (none : requesting n.http l = []) : StepKind cfg n (.http l) ⟨http, n.ota⟩
  | request (l : Http.Label) (http : Http.State) (ota : Ota.Service)
    (step : Http.step n.http l = some http) (start : n.ota.processStart = some ota) :
    StepKind cfg n (.http l) ⟨http, ota⟩
  | ota (l : Ota.Label) (ota : Ota.Service) (step : n.ota.step cfg l = some ota) :
    StepKind cfg n (.ota l) ⟨n.http, ota⟩

theorem step_kind {l : Label} (hstep : n.step cfg l = some m) : StepKind cfg n l m := by
  cases l with
  | http l =>
    simp only [Node.step] at hstep
    split at hstep
    case h_1 => cases hstep
    case h_2 http hhttp =>
      split at hstep
      case isTrue hnone =>
        obtain rfl := Option.some.inj hstep
        exact .http l http hhttp hnone
      case isFalse =>
        split at hstep
        case h_1 => cases hstep
        case h_2 ota hota =>
          obtain rfl := Option.some.inj hstep
          exact .request l http ota hhttp hota
  | ota l =>
    cases l with
    | start => cases hstep
    | init _ | mark _ | check | resume | return' | wake | task _ =>
      simp only [Node.step] at hstep
      split at hstep
      case h_1 => cases hstep
      case h_2 ota hota =>
        obtain rfl := Option.some.inj hstep
        exact .ota _ ota hota

/-- The step of the HTTP server in a step. -/
def httpLabel (_ : Node) : Label → List Http.Label
  | .http l => [l]
  | .ota _ => []

theorem step_http {l : Label} (hstep : n.step cfg l = some m) :
    Transition.run Http.step n.http (httpLabel n l) = some m.http := by
  cases step_kind hstep with
  | http l http hhttp => simp [httpLabel, hhttp]
  | request l http ota hhttp => simp [httpLabel, hhttp]
  | ota l => rfl

/-- The run of the HTTP server in a run. -/
abbrev httpLabels (cfg : Ota.Config) (imagePending : Bool) (ls : List Label) : List Http.Label :=
  Transition.output (Node.step cfg) httpLabel (.boot imagePending) ls

theorem run_http (hrun : run cfg pending ls = some n) :
    Http.run (httpLabels cfg pending ls) = some n.http :=
  Transition.part_run Node.http (fun _ _ _ => step_http) hrun

/-! ## What is owed -/

/-- `ota_task` has a request before it that it has not answered with a check, or turns requests
away. -/
def Owed (s : Ota.Service) : Prop :=
  s.validationPending = true ∨ s.signal = true ∨ s.task = .woken ∨ s.task.entering = true

theorem owed_processStart {s t : Ota.Service} (hstart : s.processStart = some t) : Owed t := by
  simp only [Ota.Service.processStart, Option.ite_none_right_eq_some, Option.some.injEq] at hstart
  rw [← hstart.2]
  exact .inr (.inl rfl)

/-- A step that leaves the flag and the semaphore, of a task that has no request before it. -/
theorem Owed.aside {s t : Ota.Service} (howed : Owed s) (hwoken : s.task ≠ .woken)
    (hentering : s.task.entering = false) (hflag : t.validationPending = s.validationPending)
    (hsignal : t.signal = s.signal) : Owed t := by
  rcases howed with h | h | h | h
  · exact .inl (hflag.trans h)
  · exact .inr (.inl (hsignal.trans h))
  · exact absurd h hwoken
  · rw [h] at hentering
    cases hentering

/-- A request stays until `ota_task` calls `fetch_ota_manifest`. -/
theorem Owed.step {s t : Ota.Service} (howed : Owed s) (hidle : s.Idle)
    (hstep : Ota.StepKind cfg s t) : Owed t ∨ s.task = .updating := by
  cases hstep with
  | init | validated | counted | validReturned => exact .inl howed
  | started => exact .inl (.inr (.inl rfl))
  | stored => exact .inl (.inl rfl)
  | taskCreated hpc =>
    have htask := hidle (by simp [hpc, Ota.InitPc.beforeTask])
    exact .inl (howed.aside (by simp [htask]) (by simp [htask, Ota.TaskPc.entering]) rfl rfl)
  | woken => exact .inl (.inr (.inr (.inl rfl)))
  | turnedAway _ hflag => exact .inl (.inl hflag)
  | passed | cleared => exact .inl (.inr (.inr (.inr rfl)))
  | fetched htask => exact .inr htask
  | deferred htask | called htask | finished htask =>
    exact .inl (howed.aside (by simp [htask]) (by simp [htask, Ota.TaskPc.entering]) rfl rfl)

theorem initStep_updating {s t : Ota.Service} {ok : Bool} (hstep : s.initStep ok = some t)
    (hidle : s.Idle) (htask : s.task = .updating) : t.task = .updating := by
  unfold Ota.Service.initStep at hstep
  cases hpc : s.initPc with
  | createTask =>
    have hnone := hidle (by simp [hpc, Ota.InitPc.beforeTask])
    rw [htask] at hnone
    cases hnone
  | clientInit | createSemaphore | registerEvents | getState | setPending | postEvent =>
    simp only [hpc, Option.some.injEq] at hstep
    rw [← hstep]
    exact htask
  | returned => simp [hpc] at hstep

theorem processStart_task {s t : Ota.Service} (hstart : s.processStart = some t) :
    t.task = s.task := by
  simp only [Ota.Service.processStart, Option.ite_none_right_eq_some, Option.some.injEq] at hstart
  rw [← hstart.2]
  rfl

/-- None but `ota_task` moves it on from the call of `fetch_ota_manifest`. -/
theorem step_updating {s t : Ota.Service} {l : Ota.Label} (hstep : s.step cfg l = some t)
    (hidle : s.Idle) (htask : s.task = .updating) : t.task = .updating ∨ ∃ e, l = .task e := by
  cases l with
  | task e => exact .inr ⟨e, rfl⟩
  | init ok => exact .inl (initStep_updating hstep hidle htask)
  | start => exact .inl ((processStart_task hstep).trans htask)
  | mark ok =>
    cases ok <;> exact .inl (by rw [← Option.some.inj hstep]; exact htask)
  | check =>
    simp only [Ota.Service.step, Option.ite_none_left_eq_some] at hstep
    obtain ⟨-, hstep⟩ := hstep
    split_ifs at hstep <;> exact .inl (by rw [← Option.some.inj hstep]; exact htask)
  | resume =>
    simp only [Ota.Service.step, Option.ite_none_left_eq_some] at hstep
    exact .inl ((processStart_task hstep.2).trans htask)
  | return' =>
    simp only [Ota.Service.step, Option.ite_none_left_eq_some, Option.some.injEq] at hstep
    exact .inl (by rw [← hstep.2]; exact htask)
  | wake => simp [Ota.Service.step, htask] at hstep

theorem idle_preserved : Transition.Preserved (Node.step cfg) fun n => n.ota.Idle := by
  intro n l m hidle hstep
  cases step_kind hstep with
  | http => exact hidle
  | request l http ota _ hstart =>
    have hkind : Ota.StepKind cfg n.ota ota :=
      Ota.processStart_kind n.ota.resuming n.ota.returning hstart
    exact hidle.step hkind
  | ota l ota hota => exact hidle.step (Ota.step_kind hota)

/-- What is owed is owed until a check. -/
theorem owed_step {l : Label} (hidle : n.ota.Idle) (hstep : n.step cfg l = some m)
    (howed : Owed n.ota) : Owed m.ota ∨ ∃ ev ∈ observe n l, ev = .fetched := by
  cases step_kind hstep with
  | http => exact .inl howed
  | request l http ota _ hstart => exact .inl (owed_processStart hstart)
  | ota l ota hota =>
    rcases howed.step hidle (Ota.step_kind hota) with howed | htask
    · exact .inl howed
    · rcases step_updating hota hidle htask with htask' | ⟨e, rfl⟩
      · exact .inl (.inr (.inr (.inr (by simp [htask', Ota.TaskPc.entering]))))
      · exact .inr ⟨.fetched, by simp [observe, htask], rfl⟩

theorem asks_step {l : Label} (hstep : n.step cfg l = some m) :
    Trace.Future (fun ev post => (∃ r, ev = .requested r) →
      Owed m.ota ∨ ∃ a ∈ post, a = .fetched) (observe n l) := by
  cases step_kind hstep with
  | http l http _ hnone =>
    rw [observe, hnone]
    exact .nil
  | request l http ota _ hstart => exact fun _ _ _ _ _ => .inl (owed_processStart hstart)
  | ota l =>
    rintro pre ev post hobs ⟨r, rfl⟩
    have hmem : .requested r ∈ observe n (.ota l) := by simp [hobs]
    cases l with
    | task e =>
      simp only [observe] at hmem
      split at hmem <;> simp at hmem
    | init _ | start | mark _ | check | resume | return' | wake => simp [observe] at hmem

/-! ## Runs -/

/-- Each request has had its check, or there is one before `ota_task`. -/
theorem requested_checked (hrun : run cfg pending ls = some n) :
    Trace.Future (fun ev post => (∃ r, ev = .requested r) →
      Owed n.ota ∨ ∃ a ∈ post, a = .fetched) (events cfg pending ls) :=
  Transition.owed_run (fun n => Owed n.ota) idle_preserved (fun _ _ _ _ => asks_step)
    (fun _ _ _ => owed_step) (Ota.Service.Idle.boot pending) hrun

/-- The outcomes that a client hears of as `success`. -/
theorem outcome_of_success {o : Http.Outcome} (hota : r.command = .otaUpdate)
    (hmem : .sendChunk (CStr.ascii "success") ∈ Http.sendResponse r o.text ++ [.complete]) :
    o = .acked true ∨ o = .started := by
  cases o with
  | started => exact .inr rfl
  | postFailed | sendFailed =>
    exfalso
    revert hmem
    rw [Http.sendResponse, hota]
    decide
  | acked success =>
    cases success with
    | true => exact .inl rfl
    | false =>
      exfalso
      revert hmem
      rw [Http.sendResponse, hota]
      decide

/-- `ota_process_start` was called for a request that is answered with `success`. -/
theorem started_of_told {s : Http.State} {ls : List Http.Label} (hrun : Http.run ls = some s)
    (hota : r.command = .otaUpdate)
    (htold : .sendChunk (CStr.ascii "success") ∈ Http.callsOn r s.trace) :
    ∃ c : Ctx, c.owner = r ∧ .command c .otaStarted ∈ s.trace := by
  have howned := (Http.run_sound hrun).inv.owned
  have hshown := Http.shown r howned.own
  have hcalls : (Http.history r s.trace).calls ≠ [] := by
    rw [hshown.calls]
    exact List.ne_nil_of_mem htold
  obtain ⟨o, ho, hpre⟩ := (howned.shape r).status (by simp [hota]) hcalls
  rw [hshown.outcomes] at ho
  rw [hshown.calls] at hpre
  obtain ⟨c, e, rfl, hmem, hout⟩ :=
    Http.mem_outcomesOf.mp (show o ∈ Http.outcomesOf r s.trace by simp [ho])
  have hsuccess := outcome_of_success hota (hpre.subset htold)
  cases e with
  | otaStarted => exact ⟨c, rfl, hmem⟩
  | acked success =>
    have hgate := (Http.aired_of_acked hrun (Http.acked_of_recorded hrun hmem)).2
    simp [hota, Http.messageCommand] at hgate
  | posted ok | sent m ok =>
    cases ok <;> simp [Http.CommandEvent.outcome] at hout
    simp [← hout] at hsuccess

/-- What the HTTP server starts is requested. -/
theorem requested_of_started {c : Ctx} (hrun : run cfg pending ls = some n)
    (hmem : .command c .otaStarted ∈ n.http.trace) :
    .requested c.owner ∈ events cfg pending ls := by
  have hall : ∀ ls n, run cfg pending ls = some n → .command c .otaStarted ∈ n.http.trace →
      .requested c.owner ∈ events cfg pending ls := by
    apply Transition.run_induction
    · intro h
      exact absurd h List.not_mem_nil
    · intro ls n l m hls ih hstep hmem
      rw [events, Transition.output_concat hls]
      cases l with
      | ota l =>
        have hsame : m.http = n.http := (Option.some.inj (step_http hstep)).symm
        exact List.mem_append_left _ (ih (hsame ▸ hmem))
      | http l =>
        have hhttp : Http.step n.http l = some m.http := by simpa [httpLabel] using step_http hstep
        rw [Http.trace_added hhttp] at hmem
        rcases List.mem_append.mp hmem with hold | hnew
        · exact List.mem_append_left _ (ih hold)
        · apply List.mem_append_right
          have hrequesting : c.owner ∈ requesting n.http l :=
            List.mem_filterMap.mpr ⟨_, Http.mem_commandEvents.mpr hnew, rfl⟩
          exact List.mem_map_of_mem hrequesting
  exact hall ls n hrun hmem

/-- A client that is told `success` has its check, unless `validation_pending` is stored, which no
step clears: `ota_task` has called `fetch_ota_manifest` since the request when it waits for a
semaphore that is not given. -/
theorem told_checked (hrun : run cfg pending ls = some n)
    (hvalid : n.ota.validationPending = false) (hwaiting : n.ota.task = .waiting)
    (hsignal : n.ota.signal = false) (hota : r.command = .otaUpdate)
    (htold : .sendChunk (CStr.ascii "success") ∈ Http.callsOn r n.http.trace) :
    ∃ pre post, events cfg pending ls = pre ++ .requested r :: post ∧ .fetched ∈ post := by
  obtain ⟨c, rfl, hstarted⟩ := started_of_told (run_http hrun) hota htold
  obtain ⟨pre, post, hevents⟩ := List.append_of_mem (requested_of_started hrun hstarted)
  have howed : ¬ Owed n.ota := by
    simp [Owed, hvalid, hwaiting, hsignal, Ota.TaskPc.entering]
  obtain ⟨a, ha, rfl⟩ := (requested_checked hrun pre _ post hevents ⟨_, rfl⟩).resolve_left howed
  exact ⟨pre, post, hevents, ha⟩

/-- A request after the end of `ota_service_init`, and its check, in which the manifest cannot be
fetched. -/
def checkedRun : List Label :=
  (List.replicate 5 (.init true)).map .ota ++
    [.http (.dispatch .otaUpdate 0 (some 0)), .http (.post true), .http (.handle true),
      .http .loop] ++
    (.wake :: Ota.taskLabels 6).map .ota

theorem told_checked_checkedRun :
    ∃ n pre post, run Ota.sampleConfig false checkedRun = some n ∧
      events Ota.sampleConfig false checkedRun = pre ++ .requested ⟨0, .otaUpdate, 0⟩ :: post ∧
      .fetched ∈ post := by
  have hrun : (run Ota.sampleConfig false checkedRun).map (fun n =>
      (n.ota.validationPending, n.ota.task, n.ota.signal,
        decide (.sendChunk (CStr.ascii "success") ∈
          Http.callsOn ⟨0, .otaUpdate, 0⟩ n.http.trace))) =
      some (false, .waiting, false, true) := by decide +kernel
  obtain ⟨n, hn, hfields⟩ := Option.map_eq_some_iff.mp hrun
  simp only [Prod.mk.injEq, decide_eq_true_eq] at hfields
  obtain ⟨hvalid, hwaiting, hsignal, htold⟩ := hfields
  obtain ⟨pre, post, hevents, hfetched⟩ := told_checked hn hvalid hwaiting hsignal rfl htold
  exact ⟨n, pre, post, hn, hevents, hfetched⟩

end HomeNode.UpdateRequests
