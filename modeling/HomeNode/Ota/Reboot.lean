-- SUMMARY: Between a commit and the reboot: when a second iteration overwrites the committed image.
import HomeNode.Ota.Delivery
import HomeNode.Ota.Service

/-!
# From the commit to the reboot

`ota_task` posts `REBOOT_REQUIRED` after a commit and waits for the next request.
The restart is left to the task that handles the event, so a request that was
made in the meantime starts another iteration on the partition just committed.
-/

namespace HomeNode.Ota

open Trace Transition

/-! ## The device up to its restart -/

/-- The OTA service and the event that asks for the restart: how often it is queued, and
whether `routine_ota_service_events_handler` has received it and called `esp_restart`. -/
structure Machine where
  service : Service
  posted : Nat
  restarted : Bool

inductive MachineLabel where
  /-- a step of the service, and whether the event loop takes the event it posts -/
  | service (l : Label) (accepted : Bool)
  /-- the handler receives `REBOOT_REQUIRED` -/
  | deliver
  /-- an event is lost -/
  | lose

def Machine.boot (imagePending : Bool) : Machine := ⟨.boot imagePending, 0, false⟩

/-- The next step of `ota_task` posts `REBOOT_REQUIRED`. -/
def Service.posts (s : Service) : Label → Bool
  | .task _ =>
    match s.task with
    | .calling (.postRebootRequired :: _) _ _ => true
    | _ => false
  | _ => false

def Machine.step (cfg : Config) (m : Machine) : MachineLabel → Option Machine
  | .service l accepted =>
    if m.restarted then none
    else (m.service.step cfg l).map fun s =>
      { m with
        service := s
        posted := if m.service.posts l && accepted then m.posted + 1 else m.posted }
  | .deliver =>
    if m.restarted || m.posted = 0 then none
    else some { m with posted := m.posted - 1, restarted := true }
  | .lose => if m.posted = 0 then none else some { m with posted := m.posted - 1 }

/-- The states after the actions `ls` from the boot. -/
abbrev Machine.run (cfg : Config) (imagePending : Bool) (ls : List MachineLabel) : Option Machine :=
  Transition.run (Machine.step cfg) (.boot imagePending) ls

/-! ## Commits and overwrites -/

def Event.begun : Event → Option Partition
  | .call (.otaBegin p _) => some p
  | _ => none

/-- No call of `esp_ota_begin` comes after its partition was made the boot partition. -/
def NotOverwritten (tr : List Event) : Prop :=
  Past (fun pre ev => ∀ p ∈ ev.begun, .call (.setBootPartition p true) ∉ pre) tr

instance (tr : List Event) : Decidable (NotOverwritten tr) :=
  inferInstanceAs (Decidable (Past _ tr))

/-- The calls the running iteration still makes. -/
def Service.remaining (s : Service) : List Call :=
  match s.task with
  | .calling rest _ _ => rest
  | _ => []

/-- The trace, with what the running iteration adds to it. -/
def Service.planned (s : Service) : List Event := s.trace ++ s.remaining.map .call

/-- An iteration that starts behind a commit of its partition does not come to
`esp_ota_begin`: its manifest, its requests or its reads end it before. -/
def LeavesCommitted (cfg : Config) (m : Machine) : MachineLabel → Prop
  | .service (.task e) _ => m.service.task = .updating →
    ∀ p ∈ e.nextPartition, .call (.setBootPartition p true) ∈ m.service.trace →
      entersDownload cfg m.service.ota e = true → beginsUpdate e.reads = false
  | _ => True

instance (cfg : Config) (m : Machine) : (l : MachineLabel) → Decidable (LeavesCommitted cfg m l)
  | .service (.task e) _ =>
    inferInstanceAs (Decidable (m.service.task = .updating → ∀ p ∈ e.nextPartition, _ → _ → _))
  | .service (.init _) _ | .service .start _ | .service (.mark _) _ | .service .check _
  | .service .resume _ | .service .return' _ | .service .wake _ | .deliver | .lose =>
    .isTrue trivial

/-! ## What one step does to the planned trace -/

/-- An event that is neither a begin nor a commit does not count. -/
theorem notOverwritten_insert {as bs : List Event} {ev : Event} (hbegun : ev.begun = none)
    (hcommit : ∀ p, ev ≠ .call (.setBootPartition p true)) :
    NotOverwritten (as ++ ev :: bs) ↔ NotOverwritten (as ++ bs) := by
  have hmem (p : Partition) (pre : List Event) :
      .call (.setBootPartition p true) ∈ as ++ ev :: pre ↔
        .call (.setBootPartition p true) ∈ as ++ pre := by
    simp [(hcommit p).symm]
  unfold NotOverwritten
  rw [past_append, past_append, past_cons]
  simp only [hbegun, Option.not_mem_none, false_imp_iff, implies_true, true_and, hmem]

section

variable {cfg : Config} {s t : Service} {e : CycleEnv}

theorem call_begun {c : Call} {p : Partition} (h : p ∈ (Event.call c).begun) :
    ∃ hd, c = .otaBegin p hd := by
  cases c with
  | otaBegin q hd =>
    obtain rfl : q = p := Option.some.inj h
    exact ⟨hd, rfl⟩
  | setUrl | clientOpen | fetchHeaders | perform | clientClose | manifestRead | firmwareRead
  | isComplete | otaWrite | otaEnd | otaAbort | setBootPartition | postRebootRequired =>
    simp [Event.begun] at h

/-- The step that plans an iteration. -/
theorem notOverwritten_fetch :
    NotOverwritten (s.trace ++ .fetch :: (otaUpdate cfg s.ota e).calls.map .call) ↔
      NotOverwritten s.trace ∧ ∀ p ∈ e.nextPartition, .call (.setBootPartition p true) ∈ s.trace →
        entersDownload cfg s.ota e = true → beginsUpdate e.reads = false := by
  obtain ⟨before, after, hcalls, hboot, hbegin, hpartition, hreaches⟩ := otaUpdate_calls cfg s.ota e
  rw [notOverwritten_insert rfl (by simp), NotOverwritten, past_append, ← NotOverwritten]
  refine and_congr_right fun _ => ⟨fun hpast p hp hcommitted henters => ?_, fun hleaves => ?_⟩
  · by_contra hbegins
    have hloop : reachesLoop cfg s.ota e = true := by
      simp [reachesLoop, henters, Option.mem_def.mp hp]
    obtain ⟨c, hc, hcbegin⟩ := hreaches.mpr ⟨hloop, by simpa using hbegins⟩
    obtain ⟨p', h, rfl, hp'⟩ := hpartition c hc hcbegin
    obtain rfl : p' = p := Option.some.inj (hp'.symm.trans hp)
    obtain ⟨pre, post, hsplit⟩ := List.append_of_mem
      (List.mem_map_of_mem (f := Event.call) (hcalls ▸ List.mem_append_left after hc))
    exact hpast pre _ post hsplit p' rfl (List.mem_append_left pre hcommitted)
  · rw [hcalls, List.map_append, past_append]
    refine ⟨?_, ?_⟩
    · intro pre ev post hsplit p hp hmem
      have hev : ev ∈ before.map Event.call := by rw [hsplit]; simp
      obtain ⟨c, hc, rfl⟩ := List.mem_map.mp hev
      obtain ⟨h, rfl⟩ := call_begun hp
      obtain ⟨p', h', heq, hp'⟩ := hpartition _ hc rfl
      obtain ⟨rfl, -⟩ := Call.otaBegin.inj heq
      rcases List.mem_append.mp hmem with hmem | hmem
      · obtain ⟨hloop, hbegins⟩ := hreaches.mp ⟨_, hc, rfl⟩
        have henters : entersDownload cfg s.ota e = true := by
          simpa [reachesLoop, hp'] using hloop
        exact Bool.noConfusion ((hleaves p hp' hmem henters).symm.trans hbegins)
      · -- the calls before the begin hold no commit
        have hcommit : Event.call (.setBootPartition p true) ∈ before.map Event.call := by
          rw [hsplit]
          exact List.mem_append_left _ hmem
        obtain ⟨c, hc, hc'⟩ := List.mem_map.mp hcommit
        obtain rfl := Event.call.inj hc'
        exact hboot _ hc rfl
    · intro pre ev post hsplit p hp
      have hev : ev ∈ after.map Event.call := by rw [hsplit]; simp
      obtain ⟨c, hc, rfl⟩ := List.mem_map.mp hev
      have := hbegin c hc
      cases c <;> simp_all [Event.begun, Call.isOtaBegin]

/-- Every other step carries the plan out, or adds an event that does not count. -/
theorem planned_step (hidle : s.Idle) (hstep : StepKind cfg s t)
    (hplans : s.task = .updating → t.remaining = []) :
    NotOverwritten t.planned ↔ NotOverwritten s.planned := by
  -- an event of another task, in front of what the iteration still does
  have hinsert {ev : Event} (hbegun : ev.begun = none)
      (hcommit : ∀ p, ev ≠ .call (.setBootPartition p true)) :
      NotOverwritten (s.trace ++ [ev] ++ s.remaining.map .call) ↔ NotOverwritten s.planned := by
    rw [List.append_assoc, List.singleton_append]
    exact notOverwritten_insert hbegun hcommit
  have hidleInsert (ev : Event) (hbegun : ev.begun = none)
      (hcommit : ∀ p, ev ≠ .call (.setBootPartition p true)) (hrest : s.remaining = []) :
      NotOverwritten (s.trace ++ [ev] ++ []) ↔ NotOverwritten s.planned := by
    have h := hinsert hbegun hcommit
    rwa [hrest] at h
  cases hstep with
  | init | counted => exact Iff.rfl
  | taskCreated hpc =>
    have htask := hidle (by simp [hpc, InitPc.beforeTask])
    simp [Service.planned, Service.remaining, htask]
  | stored | started | validated | validReturned => exact hinsert rfl (by simp)
  | woken htask =>
    exact hidleInsert .woken rfl (by simp) (by simp [Service.remaining, htask])
  | turnedAway htask =>
    exact hidleInsert (.gate false) rfl (by simp) (by simp [Service.remaining, htask])
  | passed htask =>
    exact hidleInsert (.gate true) rfl (by simp) (by simp [Service.remaining, htask])
  | deferred htask | cleared htask =>
    simp [Service.planned, Service.remaining, htask]
  | @fetched e r htask hr =>
    have hcalls : r.calls = [] := hplans htask
    have h := hidleInsert .fetch rfl (by simp) (by simp [Service.remaining, htask])
    simpa [Service.planned, Service.remaining, Service.log, hcalls] using h
  | called htask =>
    simp [Service.planned, Service.remaining, Service.log, htask]
  | finished htask =>
    simp [Service.planned, Service.remaining, htask]

/-- Only `ota_task` itself goes on from the point where it calls `fetch_ota_manifest`. -/
theorem step_task_of_other {l : Label} (hidle : s.Idle) (hl : ∀ e, l ≠ .task e)
    (hstep : s.step cfg l = some t) (htask : s.task = .updating) : t.task = .updating := by
  cases l with
  | init ok =>
    have hcreated : s.initPc ≠ .createTask := by
      intro hpc
      have := hidle (by simp [hpc, InitPc.beforeTask])
      simp [htask] at this
    unfold Service.step Service.initStep at hstep
    cases hpc : s.initPc <;> simp_all [Service.log] <;> simp [← hstep]
  | start =>
    simp only [Service.step, Service.processStart, Option.ite_none_right_eq_some,
      Option.some.injEq] at hstep
    exact hstep.2 ▸ htask
  | mark ok =>
    cases ok <;> exact Option.some.inj hstep ▸ htask
  | check =>
    simp only [Service.step, Option.ite_none_left_eq_some] at hstep
    obtain ⟨-, hstep⟩ := hstep
    split_ifs at hstep <;> exact Option.some.inj hstep ▸ htask
  | resume =>
    simp only [Service.step, Service.processStart, Option.ite_none_left_eq_some,
      Option.ite_none_right_eq_some, Option.some.injEq] at hstep
    exact hstep.2.2 ▸ htask
  | return' =>
    simp only [Service.step, Option.ite_none_left_eq_some, Option.some.injEq] at hstep
    exact hstep.2 ▸ htask
  | wake => simp [Service.step, htask] at hstep
  | task e => exact absurd rfl (hl e)

end

/-! ## Runs -/

theorem machineStep_notOverwritten {cfg : Config} {m m' : Machine} {l : MachineLabel}
    (hidle : m.service.Idle) (hstep : m.step cfg l = some m') :
    NotOverwritten m'.service.planned ↔
      NotOverwritten m.service.planned ∧ LeavesCommitted cfg m l := by
  cases l with
  | service l accepted =>
    obtain ⟨hup, t, ht, rfl⟩ : m.restarted = false ∧ ∃ t, m.service.step cfg l = some t ∧
        { m with
          service := t
          posted := if m.service.posts l && accepted then m.posted + 1 else m.posted } = m' := by
      simpa [Machine.step] using hstep
    by_cases hfetch : ∃ e, l = .task e ∧ m.service.task = .updating
    · obtain ⟨e, rfl, htask⟩ := hfetch
      have hplanned : m.service.planned = m.service.trace := by
        simp [Service.planned, Service.remaining, htask]
      have ht' : t.planned = m.service.trace ++
          .fetch :: (otaUpdate cfg m.service.ota e).calls.map .call := by
        have ht := ht
        simp only [Service.step, Service.taskStep, htask, Option.some.injEq] at ht
        rw [← ht]
        simp [Service.planned, Service.remaining, Service.log]
      rw [ht', hplanned, notOverwritten_fetch]
      exact and_congr_right fun _ => ⟨fun h _ => h, fun h => h htask⟩
    · have hok : LeavesCommitted cfg m (.service l accepted) := by
        cases l with
        | task e => exact fun htask => absurd ⟨e, rfl, htask⟩ hfetch
        | init | start | mark | check | resume | return' | wake => trivial
      have hplans : m.service.task = .updating → t.remaining = [] := by
        intro htask
        have := step_task_of_other hidle (fun e he => hfetch ⟨e, he, htask⟩) ht htask
        simp [Service.remaining, this]
      simpa [hok] using planned_step hidle (step_kind ht) hplans
  | deliver | lose =>
    obtain ⟨-, h⟩ := Option.ite_none_left_eq_some.mp hstep
    obtain rfl := Option.some.inj h
    simp [LeavesCommitted]

theorem machineStep_idle {cfg : Config} {m m' : Machine} {l : MachineLabel}
    (hidle : m.service.Idle) (hstep : m.step cfg l = some m') : m'.service.Idle := by
  cases l with
  | service l accepted =>
    simp only [Machine.step, Option.ite_none_left_eq_some, Option.map_eq_some_iff] at hstep
    obtain ⟨-, t, ht, rfl⟩ := hstep
    exact hidle.step (step_kind ht)
  | deliver | lose =>
    obtain ⟨-, h⟩ := Option.ite_none_left_eq_some.mp hstep
    exact Option.some.inj h ▸ hidle

/-- With the calls that the running iteration still makes, the property is exact. -/
theorem notOverwritten_planned_iff {cfg : Config} {imagePending : Bool} {ls : List MachineLabel}
    {m : Machine} (hrun : Machine.run cfg imagePending ls = some m) :
    NotOverwritten m.service.planned ↔
      Throughout (Machine.step cfg) (LeavesCommitted cfg) (.boot imagePending) ls := by
  have hidle : Preserved (Machine.step cfg) fun m => m.service.Idle :=
    fun _ _ _ hidle hstep => machineStep_idle hidle hstep
  exact good_iff_throughout hidle (fun _ _ _ hidle hstep => machineStep_notOverwritten hidle hstep)
    (Service.Idle.boot imagePending) Past.nil hrun

/-- A committed image stays as it is when every iteration that starts behind its commit
ends before `esp_ota_begin`, and only then, once the running iteration has made its calls. -/
theorem notOverwritten_iff (cfg : Config) {imagePending : Bool} {ls : List MachineLabel}
    {m : Machine} (hrun : Machine.run cfg imagePending ls = some m) :
    (Throughout (Machine.step cfg) (LeavesCommitted cfg) (.boot imagePending) ls →
      NotOverwritten m.service.trace) ∧
    (m.service.remaining = [] → (NotOverwritten m.service.trace ↔
      Throughout (Machine.step cfg) (LeavesCommitted cfg) (.boot imagePending) ls)) := by
  rw [← notOverwritten_planned_iff hrun, Service.planned]
  refine ⟨fun h => (past_append.mp h).1, fun hrest => ?_⟩
  rw [hrest, List.map_nil, List.append_nil]

/-- The service is started, and a request is made. -/
def requestLabels : List MachineLabel :=
  [.service (.init true) true, .service (.init true) true, .service (.init true) true,
    .service .start true, .service .wake true]

/-- One whole iteration that installs the image. -/
def installLabels : List MachineLabel := List.replicate 28 (.service (.task installCycle) true)

/-- A request behind the iteration. The reboot event is not delivered yet. -/
def secondRequest : List MachineLabel := [.service .start true, .service .wake true]

/-- One request, and the restart. -/
theorem notOverwritten_installed :
    ∃ m, Machine.run sampleConfig false (requestLabels ++ installLabels ++ [.deliver]) = some m ∧
      m.restarted = true ∧ NotOverwritten m.service.trace := by
  have hrun : (Machine.run sampleConfig false (requestLabels ++ installLabels ++ [.deliver])).map
      Machine.restarted = some true := by decide +kernel
  obtain ⟨m, hm, hrestarted⟩ := Option.map_eq_some_iff.mp hrun
  exact ⟨m, hm, hrestarted, (notOverwritten_iff sampleConfig hm).1 (by decide +kernel)⟩

theorem not_notOverwritten_secondRequest :
    ¬ ∀ cfg ls m, Machine.run cfg false ls = some m → NotOverwritten m.service.trace := by
  intro h
  have hrun : (Machine.run sampleConfig false
      (requestLabels ++ installLabels ++ secondRequest ++ installLabels)).map
      (fun m => decide (NotOverwritten m.service.trace)) = some false := by decide +kernel
  obtain ⟨m, hm, hbad⟩ := Option.map_eq_some_iff.mp hrun
  exact of_decide_eq_false hbad (h sampleConfig _ m hm)

end HomeNode.Ota
