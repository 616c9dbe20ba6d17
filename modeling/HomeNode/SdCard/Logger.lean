-- SUMMARY: The SD logger: start, stop and the task between them, and when files are closed and starts succeed.
import HomeNode.Lib.Output
import HomeNode.Lib.Trace
import HomeNode.Lib.Transition

/-!
# The SD logger

`sd_log_writer_start` mounts the card and creates the task, `sd_log_writer_stop`
deletes the task wherever it is. The task opens the file, writes a snapshot of the log to
it, and closes it again. What start acquires is the bus, the card and the
task; stop gives back the task.
-/

namespace HomeNode.SdCard

open Transition

/-! ## Data -/

abbrev FileId := Nat

abbrev TaskId := Nat

/-- The calls on a `FILE`. -/
inductive FileCall where
  | fopen (f : FileId)
  | fwrite (f : FileId)
  | fflush (f : FileId)
  | fclose (f : FileId)
  deriving DecidableEq

/-- The file that a call needs open. -/
def FileCall.uses : FileCall → Option FileId
  | .fopen _ => none
  | .fwrite f | .fflush f | .fclose f => some f

/-- Where `sd_log_task` is. -/
inductive Pc where
  | top
  | retry
  | stamp
  | stampText
  | stampNewline
  | take
  | read
  | write (bytesRead : Nat)
  | flush
  | close
  | clear
  | delay
  deriving DecidableEq

/-- A task with its local `f`. -/
structure Task where
  id : TaskId
  pc : Pc := .top
  file : Option FileId := none
  deriving DecidableEq

/-- `tasks` are the logger tasks that exist, `sTask` and `intervalMs` the variables of
`logger.c`. -/
structure State where
  bus : Bool
  mounted : Bool
  tasks : List Task
  sTask : Option TaskId
  intervalMs : Nat
  nextTask : TaskId
  nextFile : FileId
  calls : List FileCall

def State.init : State where
  bus := false
  mounted := false
  tasks := []
  sTask := none
  intervalMs := 4000
  nextTask := 0
  nextFile := 0
  calls := []

/-! ## The task -/

/-- What the calls of the task return. -/
inductive Answer where
  | fopen (ok : Bool)
  /-- `time_service_now_str` -/
  | now (ok : Bool)
  | read (bytesRead : Nat)
  /-- whether all bytes were written -/
  | fwrite (all : Bool)
  | none
  deriving DecidableEq

/-- A call on the file of the task, which goes on at `pc`. It is undefined when there is none. -/
def Task.use (t : Task) (call : FileId → FileCall) (pc : Pc) : Option (Task × List FileCall) :=
  t.file.map fun f => ({ t with pc := pc }, [call f])

/-- One step of `sd_log_task`, with the calls on files that it makes. `next` is the file that
`fopen` opens. -/
def Task.step (t : Task) (next : FileId) (a : Answer) : Option (Task × List FileCall) :=
  match t.pc, a with
  | .top, .fopen ok =>
    if t.file.isSome then none
    else if ok then some ({ t with pc := .stamp, file := some next }, [.fopen next])
    else some ({ t with pc := .retry }, [])
  | .top, .none => if t.file.isSome then some ({ t with pc := .stamp }, []) else none
  | .retry, .none => some ({ t with pc := .top }, [])
  | .stamp, .now ok => some ({ t with pc := if ok then .stampText else .take }, [])
  -- what these two return is not looked at
  | .stampText, .fwrite _ => t.use .fwrite .stampNewline
  | .stampNewline, .fwrite _ => t.use .fwrite .take
  | .take, .none => some ({ t with pc := .read }, [])
  | .read, .read bytesRead =>
    some ({ t with pc := if 0 < bytesRead then .write bytesRead else .flush }, [])
  | .write _, .fwrite all => t.use .fwrite (if all then .read else .flush)
  -- both branches that close the file end the loop
  | .flush, .none => t.use .fflush .close
  | .close, .none => t.use .fclose .clear
  | .clear, .none => some ({ t with pc := .delay, file := none }, [])
  | .delay, .none => some ({ t with pc := .top }, [])
  | _, _ => none

/-! ## Start and stop -/

/-- `sd_mount_init`. `busOk` is what `spi_bus_initialize` answers on a free bus; on one that
is initialised it fails. -/
def sdMountInit (s : State) (busOk mountOk : Bool) : Bool × State :=
  if s.bus = true ∨ busOk = false then (false, s)
  -- `spi_bus_free` undoes the initialisation
  else if mountOk = false then (false, s)
  else (true, { s with bus := true, mounted := true })

/-- `sd_log_writer_start`, but for `timeCalls` -/
def sdLogWriterStart (s : State) (intervalMs : Nat) (busOk mountOk created : Bool) :
    Bool × State :=
  match sdMountInit s busOk mountOk with
  | (false, s) => (false, s)
  | (true, s) =>
    if s.sTask.isSome then (false, s)
    else
      let s := { s with intervalMs := intervalMs }
      if created then
        (true, { s with
          tasks := ⟨s.nextTask, .top, none⟩ :: s.tasks
          sTask := some s.nextTask
          nextTask := s.nextTask + 1 })
      else (false, s)

/-- `sd_log_writer_stop` -/
def sdLogWriterStop (s : State) : State :=
  match s.sTask with
  | none => s
  | some id => { s with tasks := s.tasks.filter fun t => t.id ≠ id, sTask := none }

inductive Label where
  | start (intervalMs : Nat) (busOk mountOk created : Bool)
  | stop
  | task (id : TaskId) (a : Answer)
  deriving DecidableEq

/-- The calls of the time service. -/
inductive TimeCall where
  | init
  | syncAsync
  deriving DecidableEq

/-- What `sd_log_writer_start` asks of the time service, when the card was to be mounted and before
it looks at the result or at `s_task`. -/
def timeCalls : Label → List TimeCall
  | .start _ _ _ _ => [.init, .syncAsync]
  | .stop | .task _ _ => []

/-- A step of the task `t`. -/
def taskStep (s : State) (t : Task) (a : Answer) : Option State :=
  (t.step s.nextFile a).map fun (t', calls) =>
    { s with
      tasks := s.tasks.map fun u => if u.id = t.id then t' else u
      nextFile := s.nextFile + calls.countP fun c => c = .fopen s.nextFile
      calls := s.calls ++ calls }

def step (s : State) (l : Label) : Option State :=
  match l with
  | .start intervalMs busOk mountOk created =>
    some (sdLogWriterStart s intervalMs busOk mountOk created).2
  | .stop => some (sdLogWriterStop s)
  | .task id a => (s.tasks.find? fun t => t.id = id).bind fun t => taskStep s t a

/-! ## The life cycle -/

/-- The file that the task has open. Behind `fclose` the variable still holds the pointer. -/
def Task.holds (t : Task) : Option FileId := if t.pc = .clear then none else t.file

/-- A start without a task succeeds if the card can be mounted and the task created, and one
with a task changes nothing. -/
def StartsWell (s : State) : Label → Prop
  | .start intervalMs busOk mountOk created =>
    let res := sdLogWriterStart s intervalMs busOk mountOk created
    (s.tasks = [] → busOk = true → mountOk = true → created = true → res.1 = true) ∧
      (s.tasks ≠ [] → res = (false, s))
  | .stop | .task _ _ => True

/-- A file is only used while it is open. -/
def UsedOpen (calls : List FileCall) : Prop :=
  Trace.Past (fun pre c => ∀ f ∈ c.uses, .fopen f ∈ pre ∧ .fclose f ∉ pre) calls

/-- Each opened file was closed once, or the task has it open. -/
structure FilesWell (s : State) : Prop where
  closed : ∀ f, .fopen f ∈ s.calls → s.calls.count (.fclose f) = 1 ∨
    (s.calls.count (.fclose f) = 0 ∧ ∃ t ∈ s.tasks, t.holds = some f)
  used : UsedOpen s.calls

/-- The life cycle of the logger along a run. -/
structure LifeCycle (ls : List Label) : Prop where
  single : ∀ pre s, pre <+: ls → Transition.run step .init pre = some s → s.tasks.length ≤ 1
  starts : Throughout step StartsWell .init ls
  files : ∀ pre s, pre <+: ls → Transition.run step .init pre = some s → FilesWell s

/-- A start that could succeed finds the bus free. -/
def BusFree (s : State) : Label → Prop
  | .start _ busOk mountOk created =>
    s.tasks = [] → busOk = true → mountOk = true → created = true → s.bus = false
  | .stop | .task _ _ => True

/-- A stop finds no file open. -/
def NoneOpen (s : State) : Label → Prop
  | .stop => ∀ t ∈ s.tasks, t.holds = none
  | .start _ _ _ _ | .task _ _ => True

/-! ## Steps of the task -/

/-- The task has a file that it has not closed. -/
def Pc.isOpen : Pc → Bool
  | .stamp | .stampText | .stampNewline | .take | .read | .write _ | .flush | .close => true
  | .top | .retry | .clear | .delay => false

/-- The variable `f` is what its place in the loop says. -/
structure Task.Ok (t : Task) (calls : List FileCall) : Prop where
  idle : t.pc.isOpen = false → t.pc ≠ .clear → t.file = none
  busy : t.pc.isOpen = true → ∃ f, t.file = some f ∧ .fopen f ∈ calls ∧ .fclose f ∉ calls

/-- What a step of the task can be. -/
inductive TaskKind (t : Task) (next : FileId) : Task → List FileCall → Prop where
  | opened (pc : t.pc = .top) : TaskKind t next { t with pc := .stamp, file := some next } [.fopen next]
  | used (f : FileId) (call : FileCall) (pc : Pc) (open_ : t.pc.isOpen = true)
    (file : t.file = some f) (after : pc.isOpen = true) (call_eq : call = .fwrite f ∨ call = .fflush f) :
    TaskKind t next { t with pc := pc } [call]
  | closed (f : FileId) (pc : t.pc = .close) (file : t.file = some f) :
    TaskKind t next { t with pc := .clear } [.fclose f]
  | cleared (pc : t.pc = .clear) : TaskKind t next { t with pc := .delay, file := none } []
  | quiet (pc : Pc) (same : pc.isOpen = t.pc.isOpen) (before : t.pc ≠ .clear) (after : pc ≠ .clear) :
    TaskKind t next { t with pc := pc } []

theorem Task.use_eq_some {t t' : Task} {call : FileId → FileCall} {pc : Pc} {cs : List FileCall}
    (h : t.use call pc = some (t', cs)) :
    ∃ f, t.file = some f ∧ t' = { t with pc := pc } ∧ cs = [call f] := by
  obtain ⟨f, hf, heq⟩ := Option.map_eq_some_iff.mp h
  obtain ⟨rfl, rfl⟩ := Prod.mk.inj heq
  exact ⟨f, hf, rfl, rfl⟩

theorem Task.step_kind {t t' : Task} {next : FileId} {a : Answer} {calls cs : List FileCall}
    (hok : t.Ok calls) (h : t.step next a = some (t', cs)) : TaskKind t next t' cs := by
  obtain ⟨id, pc, file⟩ := t
  cases pc with
  | top =>
    obtain rfl : file = none := hok.idle rfl (by simp)
    cases a with
    | fopen ok =>
      cases ok with
      | true =>
        obtain ⟨rfl, rfl⟩ := Prod.mk.inj (Option.some.inj h)
        exact .opened rfl
      | false =>
        obtain ⟨rfl, rfl⟩ := Prod.mk.inj (Option.some.inj h)
        exact .quiet .retry rfl (by simp) (by simp)
    | now _ | read _ | fwrite _ | none => simp [Task.step] at h
  | retry =>
    cases a with
    | none =>
      obtain ⟨rfl, rfl⟩ := Prod.mk.inj (Option.some.inj h)
      exact .quiet .top rfl (by simp) (by simp)
    | fopen _ | now _ | read _ | fwrite _ => simp [Task.step] at h
  | stamp =>
    cases a with
    | now ok =>
      obtain ⟨rfl, rfl⟩ := Prod.mk.inj (Option.some.inj h)
      cases ok with
      | true => exact .quiet .stampText rfl (by simp) (by simp)
      | false => exact .quiet .take rfl (by simp) (by simp)
    | fopen _ | read _ | fwrite _ | none => simp [Task.step] at h
  | stampText =>
    cases a with
    | fwrite all =>
      obtain ⟨f, hf, rfl, rfl⟩ := Task.use_eq_some h
      exact .used f _ .stampNewline rfl hf rfl (.inl rfl)
    | fopen _ | now _ | read _ | none => simp [Task.step] at h
  | stampNewline =>
    cases a with
    | fwrite all =>
      obtain ⟨f, hf, rfl, rfl⟩ := Task.use_eq_some h
      exact .used f _ .take rfl hf rfl (.inl rfl)
    | fopen _ | now _ | read _ | none => simp [Task.step] at h
  | take =>
    cases a with
    | none =>
      obtain ⟨rfl, rfl⟩ := Prod.mk.inj (Option.some.inj h)
      exact .quiet .read rfl (by simp) (by simp)
    | fopen _ | now _ | read _ | fwrite _ => simp [Task.step] at h
  | read =>
    cases a with
    | read n =>
      obtain ⟨rfl, rfl⟩ := Prod.mk.inj (Option.some.inj h)
      by_cases hn : 0 < n
      · simpa [hn] using TaskKind.quiet (.write n) rfl (by simp) (by simp)
      · simpa [hn] using TaskKind.quiet .flush rfl (by simp) (by simp)
    | fopen _ | now _ | fwrite _ | none => simp [Task.step] at h
  | write n =>
    cases a with
    | fwrite all =>
      obtain ⟨f, hf, rfl, rfl⟩ := Task.use_eq_some h
      cases all with
      | true => exact .used f _ .read rfl hf rfl (.inl rfl)
      | false => exact .used f _ .flush rfl hf rfl (.inl rfl)
    | fopen _ | now _ | read _ | none => simp [Task.step] at h
  | flush =>
    cases a with
    | none =>
      obtain ⟨f, hf, rfl, rfl⟩ := Task.use_eq_some h
      exact .used f _ .close rfl hf rfl (.inr rfl)
    | fopen _ | now _ | read _ | fwrite _ => simp [Task.step] at h
  | close =>
    cases a with
    | none =>
      obtain ⟨f, hf, rfl, rfl⟩ := Task.use_eq_some h
      exact .closed f rfl hf
    | fopen _ | now _ | read _ | fwrite _ => simp [Task.step] at h
  | clear =>
    cases a with
    | none =>
      obtain ⟨rfl, rfl⟩ := Prod.mk.inj (Option.some.inj h)
      exact .cleared rfl
    | fopen _ | now _ | read _ | fwrite _ => simp [Task.step] at h
  | delay =>
    cases a with
    | none =>
      obtain ⟨rfl, rfl⟩ := Prod.mk.inj (Option.some.inj h)
      exact .quiet .top rfl (by simp) (by simp)
    | fopen _ | now _ | read _ | fwrite _ => simp [Task.step] at h

variable {s u : State} {t t' : Task} {next : FileId} {calls cs : List FileCall}

theorem usedOpen_concat {c : FileCall} : UsedOpen (calls ++ [c]) ↔
    UsedOpen calls ∧ ∀ f ∈ c.uses, .fopen f ∈ calls ∧ .fclose f ∉ calls :=
  Trace.past_concat

/-- A file is closed once at most. -/
theorem UsedOpen.count_le (h : UsedOpen calls) (f : FileId) : calls.count (.fclose f) ≤ 1 := by
  induction calls using List.reverseRecOn with
  | nil => exact Nat.zero_le 1
  | append_singleton calls c ih =>
    obtain ⟨hcalls, hc⟩ := usedOpen_concat.mp h
    rw [List.count_append]
    by_cases heq : c = .fclose f
    · have hnone := List.count_eq_zero.mpr (hc f (by simp [heq, FileCall.uses])).2
      simp [hnone, heq]
    · simpa [heq] using ih hcalls

theorem Task.Ok.holds_iff (hok : t.Ok calls) {f : FileId} :
    t.holds = some f ↔ t.pc.isOpen = true ∧ t.file = some f := by
  unfold Task.holds
  cases hopen : t.pc.isOpen with
  | true =>
    have hne : t.pc ≠ .clear := fun h => by simp [h, Pc.isOpen] at hopen
    simp [hne]
  | false =>
    by_cases hclear : t.pc = .clear
    · simp [hclear]
    · simp [hclear, hok.idle hopen hclear]

theorem UsedOpen.opened (h : UsedOpen calls) {f : FileId} (hf : .fclose f ∈ calls) :
    .fopen f ∈ calls := by
  obtain ⟨pre, post, rfl⟩ := List.append_of_mem hf
  exact List.mem_append_left _ (h pre _ post rfl f (by simp [FileCall.uses])).1

/-- A step leaves the variable `f` right, and uses no file that is not open. -/
theorem TaskKind.ok (h : TaskKind t next t' cs) (hok : t.Ok calls) (hused : UsedOpen calls)
    (hfresh : ∀ f, .fopen f ∈ calls → f < next) : t'.Ok (calls ++ cs) ∧ UsedOpen (calls ++ cs) := by
  cases h with
  | opened pc =>
    have hnew : .fclose next ∉ calls := fun hmem => (hfresh next (hused.opened hmem)).ne rfl
    exact ⟨⟨fun h => by simp [Pc.isOpen] at h, fun _ => ⟨next, rfl, by simp, by simpa using hnew⟩⟩,
      usedOpen_concat.mpr ⟨hused, by simp [FileCall.uses]⟩⟩
  | used f call pc open_ file after call_eq =>
    obtain ⟨f', hf', hopened, hclosed⟩ := hok.busy open_
    obtain rfl : f' = f := Option.some.inj (hf'.symm.trans file)
    have huses : call.uses = some f' := by
      rcases call_eq with rfl | rfl <;> rfl
    have hcall : .fclose f' ∉ [call] := by
      rcases call_eq with rfl | rfl <;> simp
    refine ⟨⟨fun h => by simp [after] at h, fun _ => ⟨f', file, List.mem_append_left _ hopened, ?_⟩⟩,
      usedOpen_concat.mpr ⟨hused, ?_⟩⟩
    · exact fun hmem => (List.mem_append.mp hmem).elim hclosed hcall
    · rintro f hf
      obtain rfl := Option.some.inj (huses.symm.trans hf)
      exact ⟨hopened, hclosed⟩
  | closed f pc file =>
    obtain ⟨f', hf', hopened, hclosed⟩ := hok.busy (by rw [pc]; rfl)
    obtain rfl : f' = f := Option.some.inj (hf'.symm.trans file)
    refine ⟨⟨fun _ h => absurd rfl h, fun h => by simp [Pc.isOpen] at h⟩,
      usedOpen_concat.mpr ⟨hused, ?_⟩⟩
    rintro f hf
    obtain rfl := Option.some.inj hf
    exact ⟨hopened, hclosed⟩
  | cleared pc =>
    rw [List.append_nil]
    exact ⟨⟨fun _ _ => rfl, fun h => by simp [Pc.isOpen] at h⟩, hused⟩
  | quiet pc same before after =>
    rw [List.append_nil]
    exact ⟨⟨fun h _ => hok.idle (same ▸ h) before, fun h => hok.busy (same ▸ h)⟩, hused⟩

theorem TaskKind.id {t t' : Task} {next : FileId} {cs : List FileCall}
    (h : TaskKind t next t' cs) : t'.id = t.id := by
  cases h <;> rfl

/-! ## The invariant -/

/-- The only task is that of the handle, and the bus it runs on is initialised. -/
structure Inv (s : State) : Prop where
  tasks : (s.tasks = [] ∧ s.sTask = none) ∨
    ∃ t, s.tasks = [t] ∧ s.sTask = some t.id ∧ s.bus = true ∧ t.Ok s.calls
  fresh : ∀ f, .fopen f ∈ s.calls → f < s.nextFile
  used : UsedOpen s.calls

theorem inv_init : Inv .init :=
  ⟨.inl ⟨rfl, rfl⟩, by simp [State.init], Trace.Past.nil⟩

/-- What a start can do: fail with the state as it was, fail with the card mounted, or create
the task. -/
theorem start_cases (h : Inv s) (intervalMs : Nat) (busOk mountOk created : Bool) :
    let res := sdLogWriterStart s intervalMs busOk mountOk created
    (res = (false, s) ∧ (s.tasks ≠ [] ∨ s.bus = true ∨ busOk = false ∨ mountOk = false)) ∨
    (s.tasks = [] ∧ s.bus = false ∧ created = false ∧
      res = (false, { s with bus := true, mounted := true, intervalMs := intervalMs })) ∨
    (s.tasks = [] ∧ s.bus = false ∧
      res = (true, { s with
        bus := true
        mounted := true
        intervalMs := intervalMs
        tasks := [⟨s.nextTask, .top, none⟩]
        sTask := some s.nextTask
        nextTask := s.nextTask + 1 })) := by
  intro res
  by_cases hbus : s.bus = true ∨ busOk = false
  · left
    have hres : res = (false, s) := by simp [res, sdLogWriterStart, sdMountInit, hbus]
    exact ⟨hres, .inr (hbus.imp_right .inl)⟩
  · by_cases hmount : mountOk = false
    · left
      have hres : res = (false, s) := by simp [res, sdLogWriterStart, sdMountInit, hbus, hmount]
      exact ⟨hres, .inr (.inr (.inr hmount))⟩
    · obtain ⟨hfree, -⟩ := not_or.mp hbus
      obtain ⟨htasks, hnone⟩ : s.tasks = [] ∧ s.sTask = none := by
        refine h.tasks.resolve_right ?_
        rintro ⟨t, -, -, hbus, -⟩
        exact hfree hbus
      have hfree : s.bus = false := by simpa using hfree
      right
      cases created with
      | false =>
        exact .inl ⟨htasks, hfree, rfl, by
          simp [res, sdLogWriterStart, sdMountInit, hbus, hmount, hnone]⟩
      | true =>
        exact .inr ⟨htasks, hfree, by
          simp [res, sdLogWriterStart, sdMountInit, hbus, hmount, hnone, htasks]⟩

/-- What a stop does: the task is gone. -/
theorem stop_eq (h : Inv s) : sdLogWriterStop s = { s with tasks := [], sTask := none } := by
  rcases h.tasks with ⟨htasks, hnone⟩ | ⟨t, htasks, hsome, -⟩
  · obtain ⟨bus, mounted, tasks, sTask, intervalMs, nextTask, nextFile, calls⟩ := s
    simp only at htasks hnone
    subst htasks hnone
    rfl
  · simp [sdLogWriterStop, hsome, htasks]

/-- A step of the task is one of the only one. -/
theorem task_step (h : Inv s) {id : TaskId} {a : Answer} (hstep : step s (.task id a) = some u) :
    ∃ t t' cs, s.tasks = [t] ∧ s.sTask = some t.id ∧ s.bus = true ∧ t.Ok s.calls ∧
      TaskKind t s.nextFile t' cs ∧ u = { s with
        tasks := [t']
        nextFile := s.nextFile + cs.countP fun c => c = .fopen s.nextFile
        calls := s.calls ++ cs } := by
  obtain ⟨t, hfind, htask⟩ := Option.bind_eq_some_iff.mp hstep
  obtain ⟨⟨t', cs⟩, hcall, rfl⟩ := Option.map_eq_some_iff.mp htask
  rcases h.tasks with ⟨htasks, -⟩ | ⟨t₀, htasks, hsome, hbus, hok⟩
  · simp [htasks] at hfind
  · obtain rfl : t = t₀ := by
      have hmem := List.mem_of_find?_eq_some hfind
      simpa [htasks] using hmem
    exact ⟨t, t', cs, htasks, hsome, hbus, hok, Task.step_kind hok hcall, by simp [htasks]⟩

theorem inv_preserved : Preserved step Inv := by
  intro s l u h hstep
  cases l with
  | start intervalMs busOk mountOk created =>
    obtain rfl := Option.some.inj hstep
    rcases start_cases h intervalMs busOk mountOk created with
      ⟨hres, -⟩ | ⟨htasks, -, -, hres⟩ | ⟨htasks, -, hres⟩
    · rw [hres]
      exact h
    · rw [hres]
      obtain ⟨-, hnone⟩ : s.tasks = [] ∧ s.sTask = none :=
        h.tasks.resolve_right fun ⟨t, ht, _⟩ => by simp [htasks] at ht
      exact ⟨.inl ⟨htasks, hnone⟩, h.fresh, h.used⟩
    · rw [hres]
      refine ⟨.inr ⟨_, rfl, rfl, rfl, fun _ _ => rfl, fun h => ?_⟩, h.fresh, h.used⟩
      simp [Pc.isOpen] at h
  | stop =>
    obtain rfl := Option.some.inj hstep
    rw [stop_eq h]
    exact ⟨.inl ⟨rfl, rfl⟩, h.fresh, h.used⟩
  | task id a =>
    obtain ⟨t, t', cs, -, hsome, hbus, hok, hkind, rfl⟩ := task_step h hstep
    obtain ⟨hok', hused⟩ := hkind.ok hok h.used h.fresh
    refine ⟨.inr ⟨t', rfl, by rw [hkind.id]; exact hsome, hbus, hok'⟩, ?_, hused⟩
    intro f hf
    rcases List.mem_append.mp hf with hold | hnew
    · exact (h.fresh f hold).trans_le (Nat.le_add_right _ _)
    · cases hkind with
      | opened pc =>
        obtain rfl : f = s.nextFile := by simpa using hnew
        simp
      | used f' call pc open_ file after call_eq =>
        rcases call_eq with rfl | rfl <;> simp at hnew
      | closed f' pc file => simp at hnew
      | cleared pc | quiet pc same before after => simp at hnew

/-! ## Files -/

/-- A file that was not closed is held by the task. -/
def NoLeak (s : State) : Prop :=
  ∀ f, .fopen f ∈ s.calls → .fclose f ∉ s.calls → ∃ t ∈ s.tasks, t.holds = some f

theorem filesWell_iff (h : Inv s) : FilesWell s ↔ NoLeak s := by
  constructor
  · intro hfiles f hopened hclosed
    rcases hfiles.closed f hopened with hone | ⟨-, hheld⟩
    · rw [List.count_eq_zero.mpr hclosed] at hone
      exact absurd hone Nat.zero_ne_one
    · exact hheld
  · intro hleak
    refine ⟨fun f hopened => ?_, h.used⟩
    by_cases hclosed : .fclose f ∈ s.calls
    · exact .inl (le_antisymm (h.used.count_le f) (List.count_pos_iff.mpr hclosed))
    · exact .inr ⟨List.count_eq_zero.mpr hclosed, hleak f hopened hclosed⟩

/-- A step of the task neither loses a file nor finds one. -/
theorem noLeak_task (h : Inv s) {id : TaskId} {a : Answer} (hstep : step s (.task id a) = some u) :
    NoLeak u ↔ NoLeak s := by
  obtain ⟨t, t', cs, htasks, -, -, hok, hkind, rfl⟩ := task_step h hstep
  have hok' := (hkind.ok hok h.used h.fresh).1
  simp only [NoLeak, htasks, List.mem_singleton, exists_eq_left, hok.holds_iff, hok'.holds_iff]
  cases hkind with
  | opened pc =>
    -- before the step the task holds nothing, after it the new file
    have hnew : ∀ f, .fopen f ∈ s.calls → s.nextFile ≠ f := fun f hf => (h.fresh f hf).ne'
    constructor
    · intro hall f hopened hclosed
      obtain ⟨-, heq⟩ := hall f (List.mem_append_left _ hopened) (by simpa using hclosed)
      exact absurd (Option.some.inj heq) (hnew f hopened)
    · intro hall f hopened hclosed
      rcases List.mem_append.mp hopened with hopened | hopened
      · obtain ⟨hopen, -⟩ := hall f hopened (by simpa using hclosed)
        simp [pc, Pc.isOpen] at hopen
      · obtain rfl : f = s.nextFile := by simpa using hopened
        exact ⟨rfl, rfl⟩
  | used f' call pc open_ file after call_eq =>
    have hcall : ∀ f, .fopen f ∉ [call] ∧ .fclose f ∉ [call] := by
      intro f
      rcases call_eq with rfl | rfl <;> simp
    simp only [List.mem_append, hcall, or_false, after, open_]
  | closed f' pc file =>
    obtain ⟨f, hf, hopened, hclosed⟩ := hok.busy (by rw [pc]; rfl)
    obtain rfl : f = f' := Option.some.inj (hf.symm.trans file)
    constructor
    · intro hall g hgopened hgclosed
      by_cases heq : f = g
      · exact ⟨by rw [pc]; rfl, heq ▸ file⟩
      · obtain ⟨hopen, -⟩ := hall g (List.mem_append_left _ hgopened) (by
          simpa [eq_comm] using ⟨hgclosed, heq⟩)
        simp [Pc.isOpen] at hopen
    · intro hall g hgopened hgclosed
      have hgopened : .fopen g ∈ s.calls := by simpa using hgopened
      obtain ⟨hgclosed, hne⟩ : .fclose g ∉ s.calls ∧ g ≠ f := by simpa using hgclosed
      obtain ⟨-, heq⟩ := hall g hgopened hgclosed
      exact absurd (Option.some.inj (heq.symm.trans file)) hne
  | cleared pc => simp [pc, Pc.isOpen]
  | quiet pc same before after => simp [same]

/-- A step loses no file exactly when it is no stop with a file open. -/
theorem noLeak_step {l : Label} (h : Inv s) (hstep : step s l = some u) :
    NoLeak u ↔ NoLeak s ∧ NoneOpen s l := by
  cases l with
  | start intervalMs busOk mountOk created =>
    obtain rfl := Option.some.inj hstep
    simp only [NoneOpen, and_true]
    rcases start_cases h intervalMs busOk mountOk created with
      ⟨hres, -⟩ | ⟨htasks, -, -, hres⟩ | ⟨htasks, -, hres⟩
    · rw [hres]
    · rw [hres]
      exact Iff.rfl
    · rw [hres]
      simp [NoLeak, htasks, Task.holds]
  | stop =>
    obtain rfl := Option.some.inj hstep
    rw [stop_eq h]
    constructor
    · intro hall
      have hclosed : ∀ f, .fopen f ∈ s.calls → .fclose f ∈ s.calls := by
        intro f hopened
        by_contra hclosed
        obtain ⟨t, ht, -⟩ := hall f hopened hclosed
        exact List.not_mem_nil ht
      refine ⟨fun f hopened hnot => absurd (hclosed f hopened) hnot, fun t ht => ?_⟩
      rcases h.tasks with ⟨htasks, -⟩ | ⟨t₀, htasks, -, -, hok⟩
      · simp [htasks] at ht
      · obtain rfl : t = t₀ := by simpa [htasks] using ht
        apply Option.eq_none_iff_forall_ne_some.mpr
        intro f hf
        obtain ⟨hopen, hfile⟩ := hok.holds_iff.mp hf
        obtain ⟨f', hf', hopened, hnot⟩ := hok.busy hopen
        exact hnot (hclosed f' hopened)
    · rintro ⟨hall, hnone⟩ f hopened hclosed
      obtain ⟨t, ht, hheld⟩ := hall f hopened hclosed
      exact absurd (hheld.symm.trans (hnone t ht)) (Option.some_ne_none f)
  | task id a => simpa [NoneOpen] using noLeak_task h hstep

/-! ## Starts -/

theorem startsWell_iff (h : Inv s) (l : Label) : StartsWell s l ↔ BusFree s l := by
  cases l with
  | start intervalMs busOk mountOk created =>
    simp only [StartsWell, BusFree]
    rcases start_cases h intervalMs busOk mountOk created with
      ⟨hres, hwhy⟩ | ⟨htasks, hbus, hcreated, hres⟩ | ⟨htasks, hbus, hres⟩
    · rw [hres]
      simp only [Bool.false_eq_true, imp_false, implies_true, and_true]
      constructor
      · exact fun hno htasks hok hmount hcreated => absurd hcreated (hno htasks hok hmount)
      · intro hfree htasks hok hmount hcreated
        have hbus := hfree htasks hok hmount hcreated
        rcases hwhy with hne | hbus' | hbusy | hmount'
        · exact hne htasks
        · simp [hbus'] at hbus
        · simp [hok] at hbusy
        · simp [hmount] at hmount'
    · simp [hcreated, htasks]
    · rw [hres]
      simp [htasks, hbus]
  | stop | task _ _ => exact Iff.rfl

/-! ## Runs -/

def Label.isStart : Label → Bool
  | .start _ _ _ _ => true
  | .stop | .task _ _ => false

/-- Every start has the time synchronised, also one that fails or finds a task. -/
theorem count_syncAsync {ls : List Label} (hrun : Transition.run step .init ls = some s) :
    (Transition.output step (fun _ l => timeCalls l) .init ls).count .syncAsync =
      ls.countP Label.isStart := by
  rw [Transition.output_label hrun]
  clear hrun
  induction ls with
  | nil => rfl
  | cons l ls ih =>
    rw [List.flatMap_cons, List.count_append, ih, List.countP_cons, Nat.add_comm]
    cases l <;> rfl

theorem run_inv {ls : List Label} (hrun : Transition.run step .init ls = some s) : Inv s :=
  inv_preserved.run inv_init hrun

theorem noLeak_run {ls : List Label} (hrun : Transition.run step .init ls = some s) :
    NoLeak s ↔ Throughout step NoneOpen .init ls :=
  good_iff_throughout inv_preserved (fun _ _ _ h hstep => noLeak_step h hstep) inv_init
    (by simp [NoLeak, State.init]) hrun

/-- The logger lives well in a run exactly when each start that could succeed finds the bus
free and each stop finds no file open. -/
theorem lifeCycle_iff {ls : List Label} (hrun : Transition.run step .init ls = some s) :
    LifeCycle ls ↔ Throughout step (fun s l => BusFree s l ∧ NoneOpen s l) .init ls := by
  have hstarts : Throughout step StartsWell .init ls ↔ Throughout step BusFree .init ls :=
    throughout_congr fun _ l _ _ hu => startsWell_iff (run_inv hu) l
  rw [throughout_and]
  constructor
  · intro h
    refine ⟨hstarts.mp h.starts, (noLeak_run hrun).mp ?_⟩
    exact (filesWell_iff (run_inv hrun)).mp (h.files ls s (List.prefix_refl _) hrun)
  · rintro ⟨hfree, hnone⟩
    refine ⟨fun pre u _ hu => ?_, hstarts.mpr hfree, fun pre u hpre hu => ?_⟩
    · rcases (run_inv hu).tasks with ⟨htasks, -⟩ | ⟨t, htasks, -⟩ <;> simp [htasks]
    · exact (filesWell_iff (run_inv hu)).mpr ((noLeak_run hu).mpr (hnone.initial hpre))

instance (s : State) (l : Label) : Decidable (BusFree s l) :=
  match l with
  | .start _ busOk mountOk created => inferInstanceAs (Decidable
      (s.tasks = [] → busOk = true → mountOk = true → created = true → s.bus = false))
  | .stop | .task _ _ => inferInstanceAs (Decidable True)

instance (s : State) (l : Label) : Decidable (NoneOpen s l) :=
  match l with
  | .stop => inferInstanceAs (Decidable (∀ t ∈ s.tasks, t.holds = none))
  | .start _ _ _ _ | .task _ _ => inferInstanceAs (Decidable True)

/-- A start on which everything succeeds. -/
def start : Label := .start 4000 true true true

/-- One round of the task, with a log of one piece. -/
def round : List Label :=
  [.fopen true, .now false, .none, .read 3, .fwrite true, .read 0, .none, .none, .none, .none].map
    (.task 0)

/-- A round, a start in between, and a stop while the task waits. -/
def gentleRun : List Label := start :: round ++ [start, .stop]

theorem lifeCycle_gentleRun : LifeCycle gentleRun := by
  obtain ⟨s, hs⟩ : ∃ s, Transition.run step .init gentleRun = some s := by
    apply Option.isSome_iff_exists.mp
    decide +kernel
  exact (lifeCycle_iff hs).mpr (by decide +kernel)

/-- A second start after a stop fails on the initialised bus, and the file that is open at a
stop is never closed. -/
theorem not_lifeCycle :
    ¬ LifeCycle [start, .stop, start] ∧ ¬ LifeCycle [start, .task 0 (.fopen true), .stop] := by
  constructor
  · intro h
    have hstart := h.starts [start, .stop] start _ (List.prefix_refl _) rfl
    exact absurd (hstart.1 rfl rfl rfl rfl) (by decide)
  · intro h
    have hfiles := h.files _ _ (List.prefix_refl _) rfl
    exact absurd (hfiles.closed 0 (by decide)) (by decide)

end HomeNode.SdCard
