-- SUMMARY: From gui_inform to the display: the two queues and the two tasks between them, in any interleaving.
import HomeNode.Gui.HomeScreen

/-!
# The way to the display

`gui_op.c` in front of the worker. `gui_inform` puts an event into `gui_op_queue`,
`gui_op_task` takes it out and calls the functions of `ui_home.h` for it, and the
worker makes the LVGL calls. Whoever informs, the display gets the calls of the
events that were taken, in their order.
-/

namespace HomeNode.Gui

open Transition

/-- `gui_event_t` -/
inductive GuiEvent where
  | systemBooting
  | systemWifiApScanning
  | systemWifiStaConnected
  | systemEspnowStarted
  | systemUserCommandReceived
  deriving DecidableEq

/-- `gui_event_data_t` -/
structure GuiEventData where
  string : CharArray 50
  val : Int

/-- `gui_op_info_t` -/
structure GuiOpInfo where
  event : GuiEvent
  evtData : GuiEventData

def guiOpQueueLength : Nat := 10

theorem nulFree_booting : 0 ∉ CStr.ascii "booting" := by decide

theorem nulFree_scanning : 0 ∉ CStr.ascii "scanning wifi..." := by decide

theorem nulFree_connected : 0 ∉ CStr.ascii "Wifi connected" := by decide

theorem nulFree_espnow : 0 ∉ CStr.ascii "esp_now started" := by decide

theorem nulFree_command : 0 ∉ CStr.ascii "command received" := by decide

theorem nulFree_someAp : 0 ∉ CStr.ascii "some_ap" := by decide

def someAp : CStr := ⟨CStr.ascii "some_ap", nulFree_someAp⟩

/-- The text that `gui_op_task` has for the main label. -/
def GuiEvent.mainText : GuiEvent → CStr
  | .systemBooting => ⟨CStr.ascii "booting", nulFree_booting⟩
  | .systemWifiApScanning => ⟨CStr.ascii "scanning wifi...", nulFree_scanning⟩
  | .systemWifiStaConnected => ⟨CStr.ascii "Wifi connected", nulFree_connected⟩
  | .systemEspnowStarted => ⟨CStr.ascii "esp_now started", nulFree_espnow⟩
  | .systemUserCommandReceived => ⟨CStr.ascii "command received", nulFree_command⟩

/-- The switch of `gui_op_task`. -/
def GuiEvent.uiCalls (e : GuiEvent) : List UiCall :=
  match e with
  | .systemBooting => [.loadScreen, .setMainLabel e.mainText]
  | .systemWifiApScanning | .systemWifiStaConnected =>
    [.setMainLabel e.mainText, .setWifiSsid someAp]
  | .systemEspnowStarted | .systemUserCommandReceived => [.setMainLabel e.mainText]

/-- `gui_op_queue`, the calls that `gui_op_task` still has to make for the event it has taken,
and the worker. -/
structure GuiOp where
  opQueue : Fifo guiOpQueueLength GuiOpInfo
  uiCalls : List UiCall
  worker : UiWorker UiCb

inductive GuiLabel where
  /-- `gui_inform` comes back with `ESP_OK` or without -/
  | inform (ok : Bool) (event : GuiEvent) (evtData : Option GuiEventData)
  | opReceive
  /-- `gui_op_task` makes a call, with this on the stacks of the setter and of
  `ui_worker_process_job` -/
  | opCall (job : CharArray uiMaxStringLength) (msg : CharArray uiWorkerMaxJobSize)
  | workerReceive
  | workerCall

/-- `lcd_init` and `gui_op_init` have come back. -/
def guiOpInit : GuiOp := ⟨.empty, [], uiWorkerInit⟩

/-- `op_info` of a call without data is zeroed. -/
def GuiEventData.zero : GuiEventData := ⟨.zeros 50, 0⟩

/-- `gui_inform`, when its wait for the queue is over. -/
def guiInform (g : GuiOp) (event : GuiEvent) (evtData : Option GuiEventData) : GuiOp × Bool :=
  match g.opQueue.send ⟨event, evtData.getD .zero⟩ with
  | some q => ({ g with opQueue := q }, true)
  | none => (g, false)

namespace GuiOp

def step (g : GuiOp) : GuiLabel → Option GuiOp
  | .inform ok event evtData =>
    if (guiInform g event evtData).2 = ok then some (guiInform g event evtData).1 else none
  | .opReceive =>
    match g.uiCalls with
    | [] => g.opQueue.receive.map fun p => { g with opQueue := p.2, uiCalls := p.1.event.uiCalls }
    | _ :: _ => none
  | .opCall job msg =>
    match g.uiCalls with
    | [] => none
    | c :: cs =>
      (uiWorkerProcessJob g.worker msg (c.job job).1 (c.job job).2).map fun p =>
        { g with uiCalls := cs, worker := p.1 }
  | .workerReceive => (g.worker.step .receive).map fun w => { g with worker := w }
  | .workerCall => (g.worker.step .call).map fun w => { g with worker := w }

/-- The LVGL calls that the callbacks have made. -/
def lvCalls (s : UiScreen) (g : GuiOp) : List LvCall :=
  g.worker.called.flatMap fun c => c.1.call s c.2

end GuiOp

/-- What an event is to do. -/
def GuiEvent.lvCalls (s : UiScreen) (e : GuiEvent) : List LvCall :=
  e.uiCalls.flatMap fun c => c.lvCalls s

/-- The event that a call of `gui_inform` has brought into the queue. -/
def GuiLabel.taken : GuiLabel → Option GuiEvent
  | .inform true event _ => some event
  | _ => none

/-- What the display is to show after the calls of `gui_inform` in `ls`. -/
def informed (s : UiScreen) (ls : List GuiLabel) : List LvCall :=
  (ls.filterMap GuiLabel.taken).flatMap fun e => e.lvCalls s

/-! ## Nothing is lost on the way -/

/-- The calls that are on their way. -/
def GuiOp.pending (s : UiScreen) (g : GuiOp) : List LvCall :=
  (g.worker.pending.flatMap fun c => c.1.call s c.2) ++
    (g.uiCalls.flatMap fun c => c.lvCalls s) ++
      g.opQueue.items.flatMap fun i => i.event.lvCalls s

def GuiLabel.entered (s : UiScreen) (l : GuiLabel) : List LvCall :=
  l.taken.toList.flatMap fun e => e.lvCalls s

theorem flatMap_entered (s : UiScreen) (ls : List GuiLabel) :
    (ls.flatMap fun l => l.entered s) = informed s ls := by
  induction ls with
  | nil => rfl
  | cons l ls ih =>
    rw [List.flatMap_cons, ih]
    cases h : l.taken <;> simp [informed, GuiLabel.entered, h]

variable {g g' : GuiOp} {screen : LvObj} {objs : Nat → LvObj}

/-- What the worker does on its own. -/
theorem worker_conveys {w w' : UiWorker UiCb} {l : WorkerLabel UiCb} (s : UiScreen)
    (hl : l.callbacks = []) (h : w.step l = some w') :
    (w.called.flatMap fun c => c.1.call s c.2) ++ (w.pending.flatMap fun c => c.1.call s c.2) =
      (w'.called.flatMap fun c => c.1.call s c.2) ++
        w'.pending.flatMap fun c => c.1.call s c.2 := by
  have hboth := UiWorker.conveys w l w' h
  rw [hl, List.append_nil] at hboth
  rw [← List.flatMap_append, ← List.flatMap_append, hboth]

theorem GuiOp.conveys (screen : LvObj) (objs : Nat → LvObj) :
    Conveys GuiOp.step (GuiOp.lvCalls (readyScreen screen objs))
      (GuiOp.pending (readyScreen screen objs)) (GuiLabel.entered (readyScreen screen objs)) := by
  intro g l g' h
  cases l with
  | inform ok event evtData =>
    obtain ⟨rfl, hg'⟩ := Option.ite_none_right_eq_some.mp h
    obtain rfl := Option.some.inj hg'
    unfold guiInform
    cases hsend : g.opQueue.send ⟨event, evtData.getD .zero⟩ with
    | none => simp [GuiLabel.entered, GuiLabel.taken]
    | some q =>
      have hitems := Fifo.send_eq_some hsend
      simp [GuiOp.lvCalls, GuiOp.pending, GuiLabel.entered, GuiLabel.taken, hitems]
  | opReceive =>
    simp only [GuiOp.step] at h
    cases hcalls : g.uiCalls with
    | cons c cs => simp [hcalls] at h
    | nil =>
      rw [hcalls] at h
      obtain ⟨⟨i, q⟩, hq, rfl⟩ := Option.map_eq_some_iff.mp h
      have hitems := Fifo.receive_eq_some hq
      simp [GuiOp.lvCalls, GuiOp.pending, GuiLabel.entered, GuiLabel.taken, hcalls, hitems,
        GuiEvent.lvCalls]
  | opCall job msg =>
    simp only [GuiOp.step] at h
    cases hcalls : g.uiCalls with
    | nil => simp [hcalls] at h
    | cons c cs =>
      rw [hcalls] at h
      obtain ⟨⟨w, ret⟩, hw, rfl⟩ := Option.map_eq_some_iff.mp h
      obtain ⟨hcalled, -, hpending, -⟩ := uiWorkerProcessJob_eq_some hw
      have hsize : ¬ uiWorkerMaxJobSize < (c.job job).2.length :=
        Nat.not_lt_of_le (c.length_job job)
      have hcall := c.call_job screen objs job msg
      simp [GuiOp.lvCalls, GuiOp.pending, GuiLabel.entered, GuiLabel.taken, WorkerLabel.callbacks,
        hcalls, hcalled, hpending, hsize, hcall]
  | workerReceive =>
    obtain ⟨w, hw, rfl⟩ := Option.map_eq_some_iff.mp h
    have hworker := worker_conveys (readyScreen screen objs) rfl hw
    simp only [GuiOp.lvCalls, GuiOp.pending, GuiLabel.entered, GuiLabel.taken, Option.toList_none,
      List.flatMap_nil, List.append_nil, ← List.append_assoc, hworker]
  | workerCall =>
    obtain ⟨w, hw, rfl⟩ := Option.map_eq_some_iff.mp h
    have hworker := worker_conveys (readyScreen screen objs) rfl hw
    simp only [GuiOp.lvCalls, GuiOp.pending, GuiLabel.entered, GuiLabel.taken, Option.toList_none,
      List.flatMap_nil, List.append_nil, ← List.append_assoc, hworker]

theorem lvCalls_append_pending {ls : List GuiLabel} (screen : LvObj) (objs : Nat → LvObj)
    (hrun : run GuiOp.step guiOpInit ls = some g) :
    informed (readyScreen screen objs) ls =
      g.lvCalls (readyScreen screen objs) ++ g.pending (readyScreen screen objs) := by
  have hboth := (GuiOp.conveys screen objs).run hrun
  rw [flatMap_entered] at hboth
  exact hboth

/-! ## How far the display is behind -/

theorem length_setText_le (obj : Option LvObj) (text : CStr) : (setText obj text).length ≤ 1 := by
  rw [setText, List.length_map]
  exact obj.length_toList_le

theorem UiCall.length_lvCalls_le (s : UiScreen) (c : UiCall) : (c.lvCalls s).length ≤ 1 := by
  cases c with
  | loadScreen => exact le_rfl
  | setWifiSsid text | setDiscoveryMsg text | setMainLabel text => exact length_setText_le _ _

theorem UiCb.length_call_le (s : UiScreen) (cb : UiCb) (arg : CharArray uiWorkerMaxJobSize) :
    (cb.call s arg).length ≤ 1 := by
  cases cb with
  | loadScreenCb => exact le_rfl
  | setWifiSsidJob | setDiscoveryMsgJob | setMainLabelJob => exact length_setText_le _ _

theorem GuiEvent.length_uiCalls_le (e : GuiEvent) : e.uiCalls.length ≤ 2 := by
  cases e <;> decide

theorem length_flatMap_le {α β : Type} {f : α → List β} {k : Nat} (hf : ∀ a, (f a).length ≤ k)
    (as : List α) : (as.flatMap f).length ≤ k * as.length := by
  induction as with
  | nil => simp
  | cons a as ih =>
    have ha := hf a
    rw [List.flatMap_cons, List.length_append, List.length_cons, Nat.mul_succ]
    omega

/-- `gui_op_task` takes the next event when it has no call left. -/
theorem GuiOp.length_uiCalls_le :
    Preserved GuiOp.step fun g => g.uiCalls.length ≤ 2 := by
  intro g l g' hle h
  cases l with
  | inform ok event evtData =>
    obtain ⟨-, hg'⟩ := Option.ite_none_right_eq_some.mp h
    obtain rfl := Option.some.inj hg'
    unfold guiInform
    split <;> exact hle
  | opReceive =>
    simp only [GuiOp.step] at h
    split at h
    · obtain ⟨⟨i, q⟩, -, rfl⟩ := Option.map_eq_some_iff.mp h
      exact i.event.length_uiCalls_le
    · cases h
  | opCall job msg =>
    simp only [GuiOp.step] at h
    split at h
    · cases h
    · next c cs hcalls =>
      obtain ⟨⟨w, ret⟩, -, rfl⟩ := Option.map_eq_some_iff.mp h
      rw [hcalls, List.length_cons] at hle
      exact (Nat.le_succ _).trans hle
  | workerReceive | workerCall =>
    obtain ⟨w, -, rfl⟩ := Option.map_eq_some_iff.mp h
    exact hle

theorem GuiOp.length_pending_le (s : UiScreen) (h : g.uiCalls.length ≤ 2) :
    (g.pending s).length ≤ 39 := by
  have hworker := length_flatMap_le (fun c : Callback UiCb => c.1.length_call_le s c.2)
    g.worker.pending
  have hcalls := length_flatMap_le (f := fun c => c.lvCalls s) (UiCall.length_lvCalls_le s)
    g.uiCalls
  have hevent : ∀ i : GuiOpInfo, (i.event.lvCalls s).length ≤ 2 := by
    intro i
    have hlvCalls := length_flatMap_le (f := fun c => c.lvCalls s) (UiCall.length_lvCalls_le s)
      i.event.uiCalls
    have huiCalls := i.event.length_uiCalls_le
    rw [GuiEvent.lvCalls]
    omega
  have hqueue := length_flatMap_le hevent g.opQueue.items
  have hworkerBound := g.worker.length_pending_le
  have hqueueBound := g.opQueue.bounded
  simp only [GuiOp.pending, List.length_append]
  simp only [notifyQueueLength, guiOpQueueLength] at hworkerBound hqueueBound
  omega

/-- Whoever informs and whichever task moves, the LVGL calls so far are the first ones of the
events that were taken, in the order of these. At most 39 calls are still to come. -/
theorem lvCalls_prefix_informed {ls : List GuiLabel} (screen : LvObj) (objs : Nat → LvObj)
    (hrun : run GuiOp.step guiOpInit ls = some g) :
    g.lvCalls (readyScreen screen objs) <+: informed (readyScreen screen objs) ls ∧
      (informed (readyScreen screen objs) ls).length ≤
        (g.lvCalls (readyScreen screen objs)).length + 39 := by
  have hall := lvCalls_append_pending screen objs hrun
  have hcalls : g.uiCalls.length ≤ 2 := GuiOp.length_uiCalls_le.run (Nat.zero_le _) hrun
  have hpending := GuiOp.length_pending_le (readyScreen screen objs) hcalls
  rw [hall]
  refine ⟨List.prefix_append _ _, ?_⟩
  rw [List.length_append]
  omega

/-- `app_main` informs of the boot, and the tasks have carried out the first call. -/
def bootLabels : List GuiLabel :=
  [.inform true .systemBooting none, .opReceive, .opCall (.zeros 30) (.zeros 64), .workerReceive,
    .workerCall]

theorem bootLabels_run : (run GuiOp.step guiOpInit bootLabels).isSome = true := by
  decide +kernel

theorem lvCalls_prefix_informed_boot :
    ∃ g, run GuiOp.step guiOpInit bootLabels = some g ∧
      g.lvCalls (readyScreen 100 id) <+: informed (readyScreen 100 id) bootLabels := by
  obtain ⟨g, hg⟩ := Option.isSome_iff_exists.mp bootLabels_run
  exact ⟨g, hg, (lvCalls_prefix_informed 100 id hg).1⟩

/-! ## The display settles -/

/-- A step of one of the two tasks. -/
def GuiLabel.internal : GuiLabel → Bool
  | .inform .. => false
  | _ => true

/-- Nothing is on its way. -/
structure GuiOp.Idle (g : GuiOp) : Prop where
  opQueue : g.opQueue.items = []
  uiCalls : g.uiCalls = []
  msg : g.worker.msg = none
  notifyQueue : g.worker.notifyQueue.items = []

theorem GuiOp.Idle.pending_eq (h : g.Idle) (s : UiScreen) : g.pending s = [] := by
  simp [GuiOp.pending, UiWorker.pending, h.opQueue, h.uiCalls, h.msg, h.notifyQueue]

/-- How many steps of the tasks the events of the queue are good for: an event is taken, and each
of its calls is made, received and carried out. -/
def queuedWork : List GuiOpInfo → Nat
  | [] => 0
  | i :: is => 1 + 3 * i.event.uiCalls.length + queuedWork is

/-- How many steps of the tasks are left. -/
def GuiOp.work (g : GuiOp) : Nat :=
  queuedWork g.opQueue.items + 3 * g.uiCalls.length + 2 * g.worker.notifyQueue.items.length +
    g.worker.msg.toList.length

theorem GuiOp.work_lt {l : GuiLabel} (hl : l.internal = true) (h : g.step l = some g') :
    g'.work < g.work := by
  cases l with
  | inform => cases hl
  | opReceive =>
    simp only [GuiOp.step] at h
    split at h
    · next hcalls =>
      obtain ⟨⟨i, q⟩, hq, rfl⟩ := Option.map_eq_some_iff.mp h
      have hitems := Fifo.receive_eq_some hq
      simp only [GuiOp.work, hitems, hcalls, queuedWork, List.length_nil]
      omega
    · cases h
  | opCall job msg =>
    simp only [GuiOp.step] at h
    split at h
    · cases h
    · next c cs hcalls =>
      obtain ⟨⟨w, ret⟩, hw, rfl⟩ := Option.map_eq_some_iff.mp h
      obtain ⟨-, hmsg, hpending, -⟩ := uiWorkerProcessJob_eq_some hw
      -- one message more in the queue
      have hlength := congrArg List.length hpending
      have hone := (WorkerLabel.processJob msg (c.job job).1 (c.job job).2).length_callbacks_le
      simp only [UiWorker.pending, hmsg, List.length_map, List.length_append] at hlength
      simp only [GuiOp.work, hcalls, hmsg, List.length_cons]
      omega
  | workerReceive =>
    obtain ⟨w, hw, rfl⟩ := Option.map_eq_some_iff.mp h
    simp only [UiWorker.step] at hw
    split at hw
    · cases hw
    · next hmsg =>
      obtain ⟨⟨m, q⟩, hq, rfl⟩ := Option.map_eq_some_iff.mp hw
      have hitems := Fifo.receive_eq_some hq
      simp only [GuiOp.work, hitems, hmsg, List.length_cons, Option.toList_some, Option.toList_none,
        List.length_nil]
      omega
  | workerCall =>
    obtain ⟨w, hw, rfl⟩ := Option.map_eq_some_iff.mp h
    obtain ⟨m, hmsg, rfl⟩ := Option.map_eq_some_iff.mp hw
    simp [GuiOp.work, hmsg]

/-- The tasks wait only when there is nothing left to do. -/
theorem GuiOp.idle_of_waits (h : ∀ l : GuiLabel, l.internal = true → g.step l = none) :
    g.Idle := by
  have hmsg : g.worker.msg = none := by
    simpa [GuiOp.step, UiWorker.step] using h .workerCall rfl
  have hnotify : g.worker.notifyQueue.items = [] := by
    have hreceive := h .workerReceive rfl
    simp only [GuiOp.step, UiWorker.step, hmsg, Option.map_eq_none_iff] at hreceive
    exact Fifo.receive_eq_none_iff.mp hreceive
  have hcalls : g.uiCalls = [] := by
    cases hcalls : g.uiCalls with
    | nil => rfl
    | cons c cs =>
      -- the queue has room for the call
      have hcall := h (.opCall (.zeros _) (.zeros _)) rfl
      simp only [GuiOp.step, hcalls, Option.map_eq_none_iff, uiWorkerProcessJob,
        if_neg (Nat.not_lt_of_le (c.length_job _)), Fifo.send_eq_none_iff, hnotify] at hcall
      cases hcall
  refine ⟨?_, hcalls, hmsg, hnotify⟩
  have hreceive := h .opReceive rfl
  simp only [GuiOp.step, hcalls, Option.map_eq_none_iff] at hreceive
  exact Fifo.receive_eq_none_iff.mp hreceive

/-- When nobody informs any more, the tasks come to rest, and the display has then got
the calls of all the events that were taken. -/
theorem display_settles {ls : List GuiLabel} (screen : LvObj) (objs : Nat → LvObj)
    (hrun : run GuiOp.step guiOpInit ls = some g) :
    Ends GuiOp.step (fun l => l.internal = true) g ∧
      ∀ ms u, (∀ l ∈ ms, GuiLabel.internal l = true) → run GuiOp.step g ms = some u →
        (∀ l : GuiLabel, l.internal = true → u.step l = none) →
          u.lvCalls (readyScreen screen objs) = informed (readyScreen screen objs) ls := by
  refine ⟨Ends.of_measure GuiOp.work (fun _ _ _ hl h => GuiOp.work_lt hl h) g, ?_⟩
  intro ms u hms hu hwaits
  have hrest := (GuiOp.idle_of_waits hwaits).pending_eq (readyScreen screen objs)
  have hall : informed (readyScreen screen objs) (ls ++ ms) = _ :=
    lvCalls_append_pending screen objs
      (by rw [run_append, hrun, Option.bind_some, hu])
  have hnone : ms.filterMap GuiLabel.taken = [] := by
    rw [List.filterMap_eq_nil_iff]
    intro l hl
    cases l with
    | inform => cases hms _ hl
    | _ => rfl
  rw [hrest, List.append_nil, informed, List.filterMap_append, hnone, List.append_nil] at hall
  exact hall.symm

theorem display_settles_boot :
    ∃ g, run GuiOp.step guiOpInit bootLabels = some g ∧
      Ends GuiOp.step (fun l => l.internal = true) g := by
  obtain ⟨g, hg⟩ := Option.isSome_iff_exists.mp bootLabels_run
  exact ⟨g, hg, (display_settles 100 id hg).1⟩

/-! ## While the program starts -/

/-- The events that `app_main` informs of, in its order. Nobody else does. -/
def startupEvents : List GuiEvent :=
  [.systemBooting, .systemWifiApScanning, .systemWifiStaConnected, .systemEspnowStarted]

/-- The event of a call of `gui_inform`. -/
def GuiLabel.event : GuiLabel → Option GuiEvent
  | .inform _ event _ => some event
  | _ => none

/-- The texts that an object is given. -/
def textsOf (obj : LvObj) (calls : List LvCall) : List CStr :=
  calls.filterMap fun c =>
    match c with
    | .labelSetText o text => if o = obj then some text else none
    | _ => none

theorem textsOf_append (obj : LvObj) (as bs : List LvCall) :
    textsOf obj (as ++ bs) = textsOf obj as ++ textsOf obj bs :=
  List.filterMap_append

theorem textsOf_flatMap {α : Type} (obj : LvObj) (f : α → List LvCall) (as : List α) :
    textsOf obj (as.flatMap f) = as.flatMap fun a => textsOf obj (f a) := by
  induction as with
  | nil => rfl
  | cons a as ih => rw [List.flatMap_cons, List.flatMap_cons, textsOf_append, ih]

/-- An event gives the main label its text, and no other label is taken for it. -/
theorem GuiEvent.textsOf_lvCalls (e : GuiEvent) (hobjs : objs 0 ≠ objs 2) :
    textsOf (objs 2) (e.lvCalls (readyScreen screen objs)) = [e.mainText] := by
  have hmain : (readyScreen screen objs).lvObjOf "main_label" = some (objs 2) := rfl
  have hssid : (readyScreen screen objs).lvObjOf "wifi_ssid" = some (objs 0) := rfl
  have hshown : shownText e.mainText = e.mainText := by
    cases e <;> decide
  cases e <;>
    simp only [GuiEvent.lvCalls, GuiEvent.uiCalls, UiCall.lvCalls, hmain, hssid, hshown, setText,
      Option.toList_some, List.map_cons, List.map_nil, List.flatMap_cons, List.flatMap_nil,
      textsOf, List.filterMap_cons, List.filterMap_nil, List.append_nil, List.cons_append,
      List.nil_append, if_true, if_neg hobjs]

theorem textsOf_informed (ls : List GuiLabel) (hobjs : objs 0 ≠ objs 2) :
    textsOf (objs 2) (informed (readyScreen screen objs) ls) =
      (ls.filterMap GuiLabel.taken).map GuiEvent.mainText := by
  rw [informed, textsOf_flatMap]
  simp only [GuiEvent.textsOf_lvCalls _ hobjs]
  exact List.map_eq_flatMap.symm

/-- The queue holds no more than has been informed of. -/
theorem taken_eq_event {ls : List GuiLabel} (hrun : run GuiOp.step guiOpInit ls = some g)
    (hlen : (ls.filterMap GuiLabel.event).length ≤ guiOpQueueLength) :
    ls.filterMap GuiLabel.taken = ls.filterMap GuiLabel.event := by
  have hall : ∀ ls g, run GuiOp.step guiOpInit ls = some g →
      (ls.filterMap GuiLabel.event).length ≤ guiOpQueueLength →
        g.opQueue.items.length ≤ (ls.filterMap GuiLabel.event).length ∧
          ls.filterMap GuiLabel.taken = ls.filterMap GuiLabel.event := by
    apply run_induction
    · simp [guiOpInit]
    · intro ls g l g' _ ih h hlen
      rw [List.filterMap_append, List.length_append] at hlen
      obtain ⟨hqueue, htaken⟩ := ih (by omega)
      rw [List.filterMap_append, List.filterMap_append, htaken, List.length_append]
      cases l with
      | inform ok event evtData =>
        obtain ⟨hok, hg'⟩ := Option.ite_none_right_eq_some.mp h
        obtain rfl := Option.some.inj hg'
        simp only [GuiLabel.event, List.filterMap_cons, List.filterMap_nil,
          List.length_singleton] at hlen ⊢
        unfold guiInform at hok ⊢
        cases hsend : g.opQueue.send ⟨event, evtData.getD .zero⟩ with
        | none =>
          have hfull := Fifo.send_eq_none_iff.mp hsend
          omega
        | some q =>
          have hitems := Fifo.send_eq_some hsend
          obtain rfl : true = ok := by simpa [hsend] using hok
          refine ⟨?_, rfl⟩
          simp only [hitems, List.length_append, List.length_singleton]
          omega
      | opReceive =>
        simp only [GuiOp.step] at h
        split at h
        · obtain ⟨⟨i, q⟩, hq, rfl⟩ := Option.map_eq_some_iff.mp h
          have hitems := congrArg List.length (Fifo.receive_eq_some hq)
          rw [List.length_cons] at hitems
          exact ⟨by simp only; omega, rfl⟩
        · cases h
      | opCall job msg =>
        simp only [GuiOp.step] at h
        split at h
        · cases h
        · obtain ⟨p, -, rfl⟩ := Option.map_eq_some_iff.mp h
          exact ⟨by simp only; omega, rfl⟩
      | workerReceive | workerCall =>
        obtain ⟨w, -, rfl⟩ := Option.map_eq_some_iff.mp h
        exact ⟨by simp only; omega, rfl⟩
  exact (hall ls g hrun hlen).2

/-- While only `app_main` informs, none of its events is refused. The main label goes through
their texts without going back, and shows the last of them when the tasks are at rest. -/
theorem startup_mainTexts {ls : List GuiLabel} {screen : LvObj} {objs : Nat → LvObj}
    (hobjs : objs 0 ≠ objs 2) (hrun : run GuiOp.step guiOpInit ls = some g)
    (hmain : ls.filterMap GuiLabel.event <+: startupEvents) :
    ls.filterMap GuiLabel.taken = ls.filterMap GuiLabel.event ∧
      textsOf (objs 2) (g.lvCalls (readyScreen screen objs)) <+:
        startupEvents.map GuiEvent.mainText ∧
      (g.Idle → textsOf (objs 2) (g.lvCalls (readyScreen screen objs)) =
        (ls.filterMap GuiLabel.event).map GuiEvent.mainText) := by
  have hlen : (ls.filterMap GuiLabel.event).length ≤ guiOpQueueLength :=
    hmain.length_le.trans (by decide)
  have htaken := taken_eq_event hrun hlen
  have hall := lvCalls_append_pending screen objs hrun
  have htexts := congrArg (textsOf (objs 2)) hall
  rw [textsOf_informed ls hobjs, htaken, textsOf_append] at htexts
  refine ⟨htaken, ?_, ?_⟩
  · apply List.IsPrefix.trans _ (hmain.map GuiEvent.mainText)
    rw [htexts]
    exact List.prefix_append _ _
  · intro hidle
    rw [htexts, hidle.pending_eq]
    exact (List.append_nil _).symm

theorem startup_mainTexts_boot :
    ∃ g, run GuiOp.step guiOpInit bootLabels = some g ∧
      textsOf 2 (g.lvCalls (readyScreen 100 id)) <+: startupEvents.map GuiEvent.mainText := by
  have hobjs : (id 0 : LvObj) ≠ id 2 := by decide
  obtain ⟨g, hg⟩ := Option.isSome_iff_exists.mp bootLabels_run
  exact ⟨g, hg, (startup_mainTexts hobjs hg (by decide)).2.1⟩

end HomeNode.Gui
