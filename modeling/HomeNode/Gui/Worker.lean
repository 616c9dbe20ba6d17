-- SUMMARY: The UI worker: jobs handed in by any task are called back by one task, each once, in their order, with their bytes.
import HomeNode.Lib.CString
import HomeNode.Lib.Fifo
import Mathlib.Data.List.Forall2

/-!
# The UI worker

`ui_worker.c`. A job is a callback with up to 64 bytes of arguments, which the
message that carries it holds a copy of. Any task may hand in jobs. One task takes
them from `notify_queue` and calls them back under the LVGL lock.
-/

namespace HomeNode.Gui

open Transition

/-- `UI_WORKER_MAX_JOB_SIZE` -/
def uiWorkerMaxJobSize : Nat := 64

/-- The length of `notify_queue`. -/
def notifyQueueLength : Nat := 16

/-- `notify_msg_t`, with the callbacks `κ`. -/
structure NotifyMsg (κ : Type) where
  cb : κ
  dataSize : Nat
  data : CharArray uiWorkerMaxJobSize

/-- A callback and what its argument points to. -/
abbrev Callback (κ : Type) := κ × CharArray uiWorkerMaxJobSize

/-- The queue, the message that the task has taken, and the callbacks that it has made. -/
structure UiWorker (κ : Type) where
  notifyQueue : Fifo notifyQueueLength (NotifyMsg κ)
  msg : Option (NotifyMsg κ)
  called : List (Callback κ)

inductive WorkerLabel (κ : Type) where
  /-- A task calls `ui_worker_process_job`; its `msg` is the one of these bytes. -/
  | processJob (stack : CharArray uiWorkerMaxJobSize) (cb : κ) (data : List UInt8)
  | receive
  | call

variable {κ : Type}

/-- `ui_worker_init` -/
def uiWorkerInit : UiWorker κ := ⟨.empty, none, []⟩

/-- `ui_worker_process_job`, and what it returns. It does not come back while the queue is
full. -/
def uiWorkerProcessJob (w : UiWorker κ) (stack : CharArray uiWorkerMaxJobSize) (cb : κ)
    (data : List UInt8) : Option (UiWorker κ × Bool) :=
  if uiWorkerMaxJobSize < data.length then some (w, false)
  else
    let msg := { cb := cb, dataSize := data.length, data := stack.write 0 data }
    (w.notifyQueue.send msg).map fun q => ({ w with notifyQueue := q }, true)

namespace UiWorker

/-- `ui_worker_task`, between jobs that are handed in. -/
def step (w : UiWorker κ) : WorkerLabel κ → Option (UiWorker κ)
  | .processJob stack cb data => (uiWorkerProcessJob w stack cb data).map Prod.fst
  | .receive =>
    match w.msg with
    | some _ => none
    | none => w.notifyQueue.receive.map fun p => { w with msg := some p.1, notifyQueue := p.2 }
  | .call => w.msg.map fun m => { w with msg := none, called := w.called ++ [(m.cb, m.data)] }

/-- The callbacks that are still to come. -/
def pending (w : UiWorker κ) : List (Callback κ) :=
  (w.msg.toList ++ w.notifyQueue.items).map fun m => (m.cb, m.data)

theorem length_pending_le (w : UiWorker κ) : w.pending.length ≤ notifyQueueLength + 1 := by
  have hqueue := w.notifyQueue.bounded
  have hmsg := w.msg.length_toList_le
  simp only [pending, List.length_map, List.length_append]
  omega

end UiWorker

/-- A job that is taken, and not refused for its size. -/
def WorkerLabel.job : WorkerLabel κ → Option (κ × List UInt8)
  | .processJob _ cb data => if uiWorkerMaxJobSize < data.length then none else some (cb, data)
  | _ => none

/-- The callback that a taken job asks for. -/
def WorkerLabel.callbacks : WorkerLabel κ → List (Callback κ)
  | .processJob stack cb data =>
    if uiWorkerMaxJobSize < data.length then [] else [(cb, stack.write 0 data)]
  | _ => []

theorem WorkerLabel.length_callbacks_le (l : WorkerLabel κ) : l.callbacks.length ≤ 1 := by
  cases l with
  | processJob stack cb data =>
    simp only [callbacks]
    split_ifs <;> simp
  | receive | call => exact Nat.zero_le _

/-- The callback is the job's, and finds its bytes. -/
def Carries (job : κ × List UInt8) (c : Callback κ) : Prop :=
  c.1 = job.1 ∧ c.2.bytes.take job.2.length = job.2

theorem uiWorkerProcessJob_eq_some {w w' : UiWorker κ} {stack : CharArray uiWorkerMaxJobSize}
    {cb : κ} {data : List UInt8} {ret : Bool}
    (h : uiWorkerProcessJob w stack cb data = some (w', ret)) :
    w'.called = w.called ∧ w'.msg = w.msg ∧
      w'.pending = w.pending ++ (WorkerLabel.processJob stack cb data).callbacks ∧
      (ret = true ↔ data.length ≤ uiWorkerMaxJobSize) := by
  unfold uiWorkerProcessJob at h
  unfold WorkerLabel.callbacks
  split_ifs at h ⊢ with hsize
  · obtain ⟨rfl, rfl⟩ := Prod.mk.inj (Option.some.inj h)
    simpa using hsize
  · obtain ⟨q, hq, heq⟩ := Option.map_eq_some_iff.mp h
    obtain ⟨rfl, rfl⟩ := Prod.mk.inj heq
    have hitems := Fifo.send_eq_some hq
    simp only [UiWorker.pending, hitems]
    simpa using hsize

theorem UiWorker.conveys :
    Conveys UiWorker.step UiWorker.called UiWorker.pending (WorkerLabel.callbacks (κ := κ)) := by
  intro w l w' h
  cases l with
  | processJob stack cb data =>
    obtain ⟨⟨w', ret⟩, hjob, rfl⟩ := Option.map_eq_some_iff.mp h
    obtain ⟨hcalled, -, hpending, -⟩ := uiWorkerProcessJob_eq_some hjob
    rw [hcalled, hpending, List.append_assoc]
  | receive =>
    simp only [UiWorker.step] at h
    cases hmsg : w.msg with
    | some m => simp [hmsg] at h
    | none =>
      rw [hmsg] at h
      obtain ⟨⟨m, q⟩, hq, rfl⟩ := Option.map_eq_some_iff.mp h
      have hitems := Fifo.receive_eq_some hq
      simp [UiWorker.pending, WorkerLabel.callbacks, hmsg, hitems]
  | call =>
    obtain ⟨m, hmsg, rfl⟩ := Option.map_eq_some_iff.mp h
    simp [UiWorker.pending, WorkerLabel.callbacks, hmsg]

theorem forall₂_carries (ls : List (WorkerLabel κ)) :
    List.Forall₂ Carries (ls.filterMap WorkerLabel.job) (ls.flatMap WorkerLabel.callbacks) := by
  induction ls with
  | nil => exact .nil
  | cons l ls ih =>
    cases l with
    | processJob stack cb data =>
      simp only [List.filterMap_cons, List.flatMap_cons, WorkerLabel.job, WorkerLabel.callbacks]
      split_ifs with hsize
      · exact ih
      · refine .cons ⟨rfl, ?_⟩ ih
        rw [CharArray.bytes_write_front stack (Nat.le_of_not_lt hsize)]
        exact List.take_left
    | receive | call => exact ih

/-- The callbacks that were made are those of the first jobs that were taken: each once, in
the order of the jobs and with their bytes. No more than the queue and the task hold are
still to come. -/
theorem called_carry_jobs {ls : List (WorkerLabel κ)} {w : UiWorker κ}
    (hrun : Transition.run UiWorker.step uiWorkerInit ls = some w) :
    ∃ done rest, ls.filterMap WorkerLabel.job = done ++ rest ∧
      List.Forall₂ Carries done w.called ∧ rest.length ≤ notifyQueueLength + 1 := by
  have hall : ls.flatMap WorkerLabel.callbacks = w.called ++ w.pending :=
    UiWorker.conveys.run hrun
  have hcarries := forall₂_carries ls
  rw [hall] at hcarries
  refine ⟨_, _, (List.take_append_drop w.called.length _).symm,
    List.forall₂_take_append _ _ _ hcarries, ?_⟩
  have hrest := (List.forall₂_drop_append _ _ _ hcarries).length_eq
  rw [hrest]
  exact w.length_pending_le

/-- A job of 65 bytes is refused, and the next one is carried out. -/
theorem called_carry_jobs_oversized :
    ∃ w done rest, Transition.run UiWorker.step uiWorkerInit
        [.processJob (.zeros 64) 'a' (List.replicate 65 1), .processJob (.zeros 64) 'b' [7],
          .receive, .call] = some w ∧
      [('b', [7])] = done ++ rest ∧ List.Forall₂ Carries done w.called := by
  have hsome : (Transition.run UiWorker.step uiWorkerInit
      [.processJob (.zeros 64) 'a' (List.replicate 65 1), .processJob (.zeros 64) 'b' [7],
        .receive, .call]).isSome = true := by decide +kernel
  obtain ⟨w, hw⟩ := Option.isSome_iff_exists.mp hsome
  obtain ⟨done, rest, hjobs, hcarries, -⟩ := called_carry_jobs hw
  exact ⟨w, done, rest, hw, hjobs, hcarries⟩

end HomeNode.Gui
