-- SUMMARY: The OTA service as a concurrent system: ota_service_init, its callers, and ota_task, one shared access at a time.
import HomeNode.Lib.Trace
import HomeNode.Ota.Task

/-!
# The OTA service

`ota_service_init`, the calls of `ota_process_start` and `ota_set_valid(true)`,
and `ota_task` run in different tasks and meet in the semaphore `start_update`
and in the flags `validation_pending` and `update_pending`. A step is one access
to what they share, so that the runs of `Service.step` are all the interleavings.
The body of an iteration shares nothing before it is over, apart from the calls
it makes; these are played one by one.
-/

namespace HomeNode.Ota

/-! ## Data -/

/-- What `ota_service_init` does next. -/
inductive InitPc where
  | clientInit
  | createSemaphore
  | createTask
  | registerEvents
  | getState
  | setPending
  | postEvent
  | returned
  deriving DecidableEq

/-- `ota_task` has not been created yet. -/
def InitPc.beforeTask : InitPc → Bool
  | .clientInit | .createSemaphore | .createTask => true
  | _ => false

/-- What `ota_task` does next. `calling` holds the calls that the iteration still
makes, and how it ends. -/
inductive TaskPc where
  | notCreated
  | waiting
  | woken
  | deferring
  | clearing
  | updating
  | calling (rest : List Call) (exit : Exit) (state : OtaState)
  deriving DecidableEq

inductive Event where
  /-- `xSemaphoreGive(start_update)`, the whole of `ota_process_start` -/
  | started
  /-- `esp_ota_mark_app_valid_cancel_rollback` succeeded -/
  | validated
  /-- `ota_service_init` has set `validation_pending` -/
  | stored
  | woken
  /-- `ota_task` has read `validation_pending` -/
  | gate (passed : Bool)
  /-- the call of `fetch_ota_manifest` -/
  | fetch
  | call (c : Call)
  /-- a call of `ota_set_valid(true)` has returned -/
  | validReturned
  deriving DecidableEq

/-- `marked`, `resuming` and `returning` count the calls of `ota_set_valid(true)`
that stand before the test of `update_pending`, before `ota_process_start`, and
before their return. `imagePending` is whether the running partition is in the
state `ESP_OTA_IMG_PENDING_VERIFY`. -/
structure Service where
  initPc : InitPc
  semCreated : Bool
  signal : Bool
  imagePending : Bool
  validationPending : Bool
  ota : OtaState
  task : TaskPc
  marked : Nat
  resuming : Nat
  returning : Nat
  trace : List Event
  deriving DecidableEq

def Service.boot (imagePending : Bool) : Service where
  initPc := .clientInit
  semCreated := false
  signal := false
  imagePending := imagePending
  validationPending := false
  ota := .init
  task := .notCreated
  marked := 0
  resuming := 0
  returning := 0
  trace := []

def Service.log (s : Service) (ev : Event) : Service := { s with trace := s.trace ++ [ev] }

/-! ## Steps -/

/-- The task that moves, with what the platform answers it. -/
inductive Label where
  /-- the next step of `ota_service_init`, and whether its call succeeds -/
  | init (ok : Bool)
  /-- a call of `ota_process_start` -/
  | start
  /-- a call of `ota_set_valid(true)`, up to the mark -/
  | mark (ok : Bool)
  /-- its test of `update_pending` -/
  | check
  /-- its `ota_process_start` -/
  | resume
  | return'
  /-- `xSemaphoreTake` returns, by the signal or else by its timeout -/
  | wake
  /-- the next step of `ota_task`, and the answers to the iteration it begins -/
  | task (e : CycleEnv)

/-- `ota_process_start`. There is no step without a semaphore: `xSemaphoreGive`
does not return from a null handle. -/
def Service.processStart (s : Service) : Option Service :=
  if s.semCreated then some (Service.log { s with signal := true } .started) else none

/-- `ota_service_init` -/
def Service.initStep (s : Service) (ok : Bool) : Option Service :=
  match s.initPc with
  | .clientInit => some { s with initPc := if ok then .createSemaphore else .returned }
  | .createSemaphore =>
    some { s with initPc := if ok then .createTask else .returned, semCreated := ok }
  | .createTask =>
    if ok then some { s with initPc := .registerEvents, task := .waiting }
    else some { s with initPc := .returned }
  | .registerEvents => some { s with initPc := .getState }
  | .getState =>
    some { s with initPc := if ok && s.imagePending then .setPending else .returned }
  | .setPending =>
    some (Service.log { s with initPc := .postEvent, validationPending := true } .stored)
  | .postEvent => some { s with initPc := .returned }
  | .returned => none

/-- `ota_task` after its wait -/
def Service.taskStep (cfg : Config) (s : Service) (e : CycleEnv) : Option Service :=
  match s.task with
  | .notCreated | .waiting => none
  | .woken =>
    if s.validationPending then some (Service.log { s with task := .deferring } (.gate false))
    else some (Service.log { s with task := .clearing } (.gate true))
  | .deferring => some { s with task := .waiting, ota := { s.ota with updatePending := true } }
  | .clearing => some { s with task := .updating, ota := { s.ota with updatePending := false } }
  | .updating =>
    let r := otaUpdate cfg s.ota e
    some (Service.log { s with task := .calling r.calls r.exit r.state } .fetch)
  | .calling (c :: rest) exit state =>
    some (Service.log { s with task := .calling rest exit state } (.call c))
  | .calling [] exit state =>
    if exit = .blocked then none else some { s with task := .waiting, ota := state }

def Service.step (cfg : Config) (s : Service) : Label → Option Service
  | .init ok => s.initStep ok
  | .start => s.processStart
  | .mark ok =>
    let s := { s with marked := s.marked + 1 }
    if ok then some (Service.log { s with imagePending := false } .validated) else some s
  | .check =>
    if s.marked = 0 then none
    else if s.ota.updatePending then
      some { s with marked := s.marked - 1, resuming := s.resuming + 1 }
    else some { s with marked := s.marked - 1, returning := s.returning + 1 }
  | .resume =>
    if s.resuming = 0 then none
    else Service.processStart { s with resuming := s.resuming - 1, returning := s.returning + 1 }
  | .return' =>
    if s.returning = 0 then none
    else some (Service.log { s with returning := s.returning - 1 } .validReturned)
  | .wake =>
    if s.task = .waiting then some (Service.log { s with task := .woken, signal := false } .woken)
    else none
  | .task e => s.taskStep cfg e

/-- The states after the actions `ls` from the boot. -/
abbrev Service.run (cfg : Config) (imagePending : Bool) (ls : List Label) : Option Service :=
  Transition.run (Service.step cfg) (.boot imagePending) ls

/-! ## What a step can do -/

/-- The ways a step can go. -/
inductive StepKind (cfg : Config) (s : Service) : Service → Prop where
  | init {pc : InitPc} {sem : Bool} (hpc : pc.beforeTask → s.initPc.beforeTask) :
      StepKind cfg s { s with initPc := pc, semCreated := sem }
  | taskCreated (hpc : s.initPc = .createTask) :
      StepKind cfg s { s with initPc := .registerEvents, task := .waiting }
  | stored (hpc : s.initPc = .setPending) :
      StepKind cfg s (Service.log { s with initPc := .postEvent, validationPending := true } .stored)
  | started (resuming returning : Nat) :
      StepKind cfg s (Service.log
        { s with signal := true, resuming := resuming, returning := returning } .started)
  | validated (marked : Nat) :
      StepKind cfg s (Service.log { s with marked := marked, imagePending := false } .validated)
  | counted (marked resuming returning : Nat) :
      StepKind cfg s { s with marked := marked, resuming := resuming, returning := returning }
  | validReturned (returning : Nat) :
      StepKind cfg s (Service.log { s with returning := returning } .validReturned)
  | woken (htask : s.task = .waiting) :
      StepKind cfg s (Service.log { s with task := .woken, signal := false } .woken)
  | turnedAway (htask : s.task = .woken) (hflag : s.validationPending = true) :
      StepKind cfg s (Service.log { s with task := .deferring } (.gate false))
  | passed (htask : s.task = .woken) (hflag : s.validationPending = false) :
      StepKind cfg s (Service.log { s with task := .clearing } (.gate true))
  | deferred (htask : s.task = .deferring) :
      StepKind cfg s { s with task := .waiting, ota := { s.ota with updatePending := true } }
  | cleared (htask : s.task = .clearing) :
      StepKind cfg s { s with task := .updating, ota := { s.ota with updatePending := false } }
  | fetched {e : CycleEnv} {r : CycleResult} (htask : s.task = .updating)
      (hr : otaUpdate cfg s.ota e = r) :
      StepKind cfg s (Service.log { s with task := .calling r.calls r.exit r.state } .fetch)
  | called {c : Call} {rest : List Call} {exit : Exit} {state : OtaState}
      (htask : s.task = .calling (c :: rest) exit state) :
      StepKind cfg s (Service.log { s with task := .calling rest exit state } (.call c))
  | finished {exit : Exit} {state : OtaState} (htask : s.task = .calling [] exit state)
      (hexit : exit ≠ .blocked) :
      StepKind cfg s { s with task := .waiting, ota := state }

theorem initStep_kind {cfg : Config} {s t : Service} {ok : Bool} (h : s.initStep ok = some t) :
    StepKind cfg s t := by
  unfold Service.initStep at h
  cases hpc : s.initPc with
  | clientInit =>
    simp only [hpc, Option.some.injEq] at h
    exact h ▸ .init (fun _ => by simp [hpc, InitPc.beforeTask])
  | createSemaphore =>
    simp only [hpc, Option.some.injEq] at h
    exact h ▸ .init (fun _ => by simp [hpc, InitPc.beforeTask])
  | createTask =>
    cases ok with
    | true =>
      simp only [hpc, if_true, Option.some.injEq] at h
      exact h ▸ .taskCreated hpc
    | false =>
      simp only [hpc, Bool.false_eq_true, if_false, Option.some.injEq] at h
      exact h ▸ .init (by simp [InitPc.beforeTask])
  | registerEvents =>
    simp only [hpc, Option.some.injEq] at h
    exact h ▸ .init (by simp [InitPc.beforeTask])
  | getState =>
    simp only [hpc, Option.some.injEq] at h
    exact h ▸ .init (by split_ifs <;> simp [InitPc.beforeTask])
  | setPending =>
    simp only [hpc, Option.some.injEq] at h
    exact h ▸ .stored hpc
  | postEvent =>
    simp only [hpc, Option.some.injEq] at h
    exact h ▸ .init (by simp [InitPc.beforeTask])
  | returned => simp [hpc] at h

theorem taskStep_kind {cfg : Config} {s t : Service} {e : CycleEnv}
    (h : s.taskStep cfg e = some t) : StepKind cfg s t := by
  unfold Service.taskStep at h
  cases htask : s.task with
  | notCreated | waiting => simp [htask] at h
  | woken =>
    by_cases hflag : s.validationPending = true
    · simp only [htask, if_pos hflag, Option.some.injEq] at h
      exact h ▸ .turnedAway htask hflag
    · simp only [htask, if_neg hflag, Option.some.injEq] at h
      exact h ▸ .passed htask (Bool.eq_false_iff.mpr hflag)
  | deferring =>
    simp only [htask, Option.some.injEq] at h
    exact h ▸ .deferred htask
  | clearing =>
    simp only [htask, Option.some.injEq] at h
    exact h ▸ .cleared htask
  | updating =>
    simp only [htask, Option.some.injEq] at h
    exact h ▸ .fetched htask rfl
  | calling rest exit state =>
    cases rest with
    | nil =>
      simp only [htask, Option.ite_none_left_eq_some, Option.some.injEq] at h
      exact h.2 ▸ .finished htask h.1
    | cons c rest =>
      simp only [htask, Option.some.injEq] at h
      exact h ▸ .called htask

theorem processStart_kind {cfg : Config} {s t : Service} (resuming returning : Nat)
    (h : Service.processStart { s with resuming := resuming, returning := returning } = some t) :
    StepKind cfg s t := by
  simp only [Service.processStart, Option.ite_none_right_eq_some, Option.some.injEq] at h
  exact h.2 ▸ .started resuming returning

theorem step_kind {cfg : Config} {s t : Service} {l : Label} (h : s.step cfg l = some t) :
    StepKind cfg s t := by
  cases l with
  | init ok => exact initStep_kind h
  | start => exact processStart_kind s.resuming s.returning h
  | mark ok =>
    cases ok with
    | true => exact Option.some.inj h ▸ .validated _
    | false => exact Option.some.inj h ▸ .counted _ _ _
  | check =>
    simp only [Service.step, Option.ite_none_left_eq_some] at h
    obtain ⟨-, h⟩ := h
    split_ifs at h
    · exact Option.some.inj h ▸ .counted _ _ _
    · exact Option.some.inj h ▸ .counted _ _ _
  | resume =>
    simp only [Service.step, Option.ite_none_left_eq_some] at h
    exact processStart_kind (s.resuming - 1) (s.returning + 1) h.2
  | return' =>
    simp only [Service.step, Option.ite_none_left_eq_some, Option.some.injEq] at h
    exact h.2 ▸ .validReturned _
  | wake =>
    simp only [Service.step, Option.ite_none_right_eq_some, Option.some.injEq] at h
    exact h.2 ▸ .woken h.1
  | task e => exact taskStep_kind h

/-- `ota_service_init` creates `ota_task` once. -/
def Service.Idle (s : Service) : Prop := s.initPc.beforeTask → s.task = .notCreated

theorem Service.Idle.step {cfg : Config} {s t : Service} (hs : s.Idle)
    (hstep : StepKind cfg s t) : t.Idle := by
  have hcreated : ∀ {task : TaskPc}, s.task ≠ .notCreated → s.initPc.beforeTask →
      task = .notCreated :=
    fun h hpc => absurd (hs hpc) h
  cases hstep with
  | init hpc => exact fun h => hs (hpc h)
  | taskCreated | stored => exact fun h => by simp [Service.log, InitPc.beforeTask] at h
  | started | validated | counted | validReturned => exact hs
  | woken htask | turnedAway htask | passed htask | deferred htask | cleared htask
  | fetched htask | called htask | finished htask => exact hcreated (by simp [htask])

theorem Service.Idle.boot (imagePending : Bool) : (Service.boot imagePending).Idle := fun _ => rfl

end HomeNode.Ota
