-- SUMMARY: When the validation gate of ota_task keeps an unvalidated image from updating, and when it loses a request.
import HomeNode.Ota.Service

/-!
# The validation gate

`validation_pending` is set once, late in `ota_service_init`, and never reset.
What a gate check does is thus decided by its place before or after that store,
and so are both promises of the gate: that an unvalidated image starts no update,
and that a request made in the meantime is not lost.
-/

namespace HomeNode.Ota

open Trace

/-! ## The invariant -/

/-- The events of an iteration behind the gate. -/
def Event.inIteration : Event → Bool
  | .fetch | .call _ => true
  | _ => false

/-- `ota_task` is past the gate. -/
def TaskPc.busy : TaskPc → Bool
  | .clearing | .updating | .calling _ _ _ => true
  | _ => false

/-- `ota_task` is past the gate and has not called `fetch_ota_manifest` yet. -/
def TaskPc.entering : TaskPc → Bool
  | .clearing | .updating => true
  | _ => false

/-- The flags are what the trace says, and so is each gate check. -/
structure Service.Flags (pending : Bool) (s : Service) : Prop where
  image : s.imagePending = true ↔ pending = true ∧ .validated ∉ s.trace
  flag : s.validationPending = true ↔ .stored ∈ s.trace
  gates : Past (fun pre ev => ∀ b, ev = .gate b → (b = true ↔ .stored ∉ pre)) s.trace

/-- An iteration goes on past the gate only after a check that let it pass, and
then fetches the manifest. -/
structure Service.Entered (s : Service) : Prop where
  busy : s.task.busy → .gate true ∈ s.trace
  past : Past (fun pre ev => ev.inIteration → .gate true ∈ pre) s.trace
  future : Future (fun ev post => ev = .gate true → s.task.entering ∨ .fetch ∈ post) s.trace

/-- The semaphore forgets how often it was given, but no signal is lost: a gate
check follows, or is about to. -/
def Service.Signalled (s : Service) : Prop :=
  Future (fun ev post => ev = .started →
    s.signal = true ∨ s.task = .woken ∨ ∃ b, .gate b ∈ post) s.trace

structure Service.Inv (pending : Bool) (s : Service) : Prop where
  idle : s.Idle
  flags : s.Flags pending
  entered : s.Entered
  signalled : s.Signalled

variable {cfg : Config} {pending : Bool} {s t : Service}

theorem Service.Flags.step (hs : s.Flags pending) (hstep : StepKind cfg s t) :
    t.Flags pending := by
  have hother : ∀ {ev : Event}, (∀ b, ev ≠ .gate b) →
      Past (fun pre ev => ∀ b, ev = .gate b → (b = true ↔ .stored ∉ pre)) (s.trace ++ [ev]) :=
    fun hev => past_concat.mpr ⟨hs.gates, fun b hb => absurd hb (hev b)⟩
  cases hstep with
  | init | counted | taskCreated | deferred | cleared | finished =>
    exact ⟨hs.image, hs.flag, hs.gates⟩
  | started | validReturned | woken | fetched | called =>
    exact ⟨by simpa [Service.log] using hs.image, by simpa [Service.log] using hs.flag,
      hother (by simp)⟩
  | stored =>
    exact ⟨by simpa [Service.log] using hs.image, by simp [Service.log], hother (by simp)⟩
  | validated =>
    exact ⟨by simp [Service.log], by simpa [Service.log] using hs.flag, hother (by simp)⟩
  | turnedAway _ hflag =>
    refine ⟨by simpa [Service.log] using hs.image, by simpa [Service.log] using hs.flag,
      past_concat.mpr ⟨hs.gates, ?_⟩⟩
    intro b hb
    simp [← Event.gate.inj hb, hs.flag.mp hflag]
  | passed _ hflag =>
    refine ⟨by simpa [Service.log] using hs.image, by simpa [Service.log] using hs.flag,
      past_concat.mpr ⟨hs.gates, ?_⟩⟩
    intro b hb
    have hnot : .stored ∉ s.trace := fun h => by simp [hs.flag.mpr h] at hflag
    simp [← Event.gate.inj hb, hnot]

theorem Service.Entered.step (hidle : s.Idle) (hs : s.Entered) (hstep : StepKind cfg s t) : t.Entered := by
  have hmem : ∀ {ev : Event}, .gate true ∈ s.trace → .gate true ∈ s.trace ++ [ev] :=
    fun h => List.mem_append_left _ h
  have hpast : ∀ {ev : Event}, (ev.inIteration → .gate true ∈ s.trace) →
      Past (fun pre ev => ev.inIteration → .gate true ∈ pre) (s.trace ++ [ev]) :=
    fun hev => past_concat.mpr ⟨hs.past, hev⟩
  -- an event that is no gate check, and a task that does not leave the entry
  have hfuture : ∀ {ev : Event} {entering : Bool}, ev ≠ .gate true →
      (s.task.entering → entering) →
      Future (fun ev post => ev = .gate true → entering ∨ .fetch ∈ post) (s.trace ++ [ev]) := by
    intro ev entering hev hentering
    refine hs.future.concat (fun y post h hy => ?_) (fun h => absurd h hev)
    rcases h hy with h | h
    · exact .inl (hentering h)
    · exact .inr (List.mem_append_left _ h)
  cases hstep with
  | init | counted => exact ⟨hs.busy, hs.past, hs.future⟩
  | taskCreated hpc =>
    have htask := hidle (by simp [hpc, InitPc.beforeTask])
    exact ⟨by simp [TaskPc.busy], hs.past, by simpa [htask, TaskPc.entering] using hs.future⟩
  | stored | started | validated | validReturned =>
    exact ⟨fun h => hmem (hs.busy h), hpast (by simp [Event.inIteration]),
      hfuture (by simp) (fun h => h)⟩
  | woken htask | turnedAway htask =>
    exact ⟨by simp [Service.log, TaskPc.busy], hpast (by simp [Event.inIteration]),
      hfuture (by simp) (by simp [htask, TaskPc.entering])⟩
  | passed htask =>
    refine ⟨by simp [Service.log], hpast (by simp [Event.inIteration]), ?_⟩
    exact hs.future.concat (fun _ _ _ _ => .inl rfl) (fun _ => .inl rfl)
  | deferred htask =>
    exact ⟨by simp [TaskPc.busy], hs.past, by simpa [htask, TaskPc.entering] using hs.future⟩
  | cleared htask =>
    exact ⟨fun _ => hs.busy (by simp [htask, TaskPc.busy]), hs.past,
      hs.future.mono fun _ _ _ _ => .inl rfl⟩
  | fetched htask =>
    have hgate := hs.busy (by simp [htask, TaskPc.busy])
    refine ⟨fun _ => hmem hgate, hpast fun _ => hgate, ?_⟩
    exact hs.future.concat (fun _ _ _ _ => .inr (by simp)) (by simp)
  | called htask =>
    have hgate := hs.busy (by simp [htask, TaskPc.busy])
    exact ⟨fun _ => hmem hgate, hpast fun _ => hgate,
      hfuture (by simp) (by simp [htask, TaskPc.entering])⟩
  | finished htask =>
    exact ⟨by simp [TaskPc.busy], hs.past, by simpa [htask, TaskPc.entering] using hs.future⟩

theorem Service.Signalled.step (hidle : s.Idle) (hs : s.Signalled)
    (hstep : StepKind cfg s t) : t.Signalled := by
  -- a step that takes neither the signal nor the wake-up
  have hquiet : ∀ {ev : Event} {signal : Bool} {task : TaskPc}, ev ≠ .started →
      (s.signal = true → signal = true) → (s.task = .woken → task = .woken) →
      Future (fun ev post => ev = .started → signal = true ∨ task = .woken ∨ ∃ b, .gate b ∈ post)
        (s.trace ++ [ev]) := by
    intro ev signal task hev hsignal htask
    refine hs.concat (fun y post h hy => ?_) (fun h => absurd h hev)
    rcases h hy with h | h | ⟨b, h⟩
    · exact .inl (hsignal h)
    · exact .inr (.inl (htask h))
    · exact .inr (.inr ⟨b, List.mem_append_left _ h⟩)
  have hgate : ∀ {b : Bool} {signal : Bool} {task : TaskPc},
      Future (fun ev post => ev = .started → signal = true ∨ task = .woken ∨ ∃ b, .gate b ∈ post)
        (s.trace ++ [.gate b]) := by
    intro b signal task
    exact hs.concat (fun _ _ _ _ => .inr (.inr ⟨b, by simp⟩)) (by simp)
  cases hstep with
  | init | counted => exact hs
  | taskCreated hpc =>
    have htask := hidle (by simp [hpc, InitPc.beforeTask])
    exact hs.mono fun _ _ h hy => by simpa [htask] using h hy
  | deferred htask | cleared htask | finished htask =>
    exact hs.mono fun _ _ h hy => by simpa [htask] using h hy
  | started => exact hs.concat (fun _ _ _ _ => .inl rfl) (fun _ => .inl rfl)
  | stored | validated | validReturned => exact hquiet (by simp) (fun h => h) (fun h => h)
  | woken => exact hs.concat (fun _ _ _ _ => .inr (.inl rfl)) (by simp)
  | turnedAway | passed => exact hgate
  | fetched htask | called htask => exact hquiet (by simp) (fun h => h) (by simp [htask])

theorem inv_preserved (cfg : Config) (pending : Bool) :
    Transition.Preserved (Service.step cfg) (Service.Inv pending) := by
  intro s l t hs hstep
  have hkind := step_kind hstep
  exact ⟨hs.idle.step hkind, hs.flags.step hkind, hs.entered.step hs.idle hkind,
    hs.signalled.step hs.idle hkind⟩

theorem boot_inv (pending : Bool) : (Service.boot pending).Inv pending where
  idle := .boot pending
  flags := ⟨by simp [Service.boot], by simp [Service.boot], .nil⟩
  entered := ⟨by simp [Service.boot, TaskPc.busy], .nil, .nil⟩
  signalled := .nil

theorem run_inv {ls : List Label} (h : Service.run cfg pending ls = some s) : s.Inv pending :=
  (inv_preserved cfg pending).run (boot_inv pending) h

/-- `ota_task` makes `n` steps, and the manifest request of the iteration fails. -/
def taskLabels (n : Nat) : List Label :=
  List.replicate n (.task { manifest := { openOk := false } })

/-! ## No update on an unvalidated image -/

/-- The running partition still is `ESP_OTA_IMG_PENDING_VERIFY` after the events `pre`. -/
def Unvalidated (pending : Bool) (pre : List Event) : Prop := pending = true ∧ .validated ∉ pre

/-- A gate check that lets pass, the call of `fetch_ota_manifest`, and the call of
`esp_ota_begin`. -/
def Event.startsUpdate : Event → Bool
  | .gate passed => passed
  | .fetch | .call (.otaBegin _ _) => true
  | _ => false

/-- No update starts while the running image is not validated. -/
def NoUpdateUnvalidated (pending : Bool) (tr : List Event) : Prop :=
  Past (fun pre ev => ev.startsUpdate → ¬ Unvalidated pending pre) tr

/-- Each gate check on an unvalidated image comes after `ota_service_init` has
set `validation_pending`. -/
def CheckedAfterStore (pending : Bool) (tr : List Event) : Prop :=
  Past (fun pre ev => ∀ b, ev = .gate b → Unvalidated pending pre → .stored ∈ pre) tr

/-- The gate keeps an unvalidated image from updating in exactly the runs in which
it is checked after `ota_service_init` has set its flag. -/
theorem noUpdateUnvalidated_iff (cfg : Config) (pending : Bool) {ls : List Label} {s : Service}
    (hrun : Service.run cfg pending ls = some s) :
    NoUpdateUnvalidated pending s.trace ↔ CheckedAfterStore pending s.trace := by
  have hinv := run_inv hrun
  constructor
  · intro h pre ev post htr b hev hpending
    by_contra hstored
    have hb : b = true := (hinv.flags.gates pre ev post htr b hev).mpr hstored
    exact h pre ev post htr (by simp [hev, hb, Event.startsUpdate]) hpending
  · intro h pre ev post htr hstarts hpending
    -- a passing check before the event, or the event itself
    have hpassed : ∀ pre' post', s.trace = pre' ++ .gate true :: post' →
        ¬ Unvalidated pending pre' := by
      intro pre' post' htr' hpending'
      have hstored := h pre' _ post' htr' true rfl hpending'
      exact (hinv.flags.gates pre' _ post' htr' true rfl).mp rfl hstored
    have hinside : ev.inIteration → False := by
      intro hin
      obtain ⟨as, bs, hpre⟩ := List.append_of_mem (hinv.entered.past pre ev post htr hin)
      refine hpassed as (bs ++ ev :: post) (by simp [htr, hpre]) ⟨hpending.1, ?_⟩
      exact fun hmem => hpending.2 (by simp [hpre, hmem])
    cases ev with
    | gate b =>
      obtain rfl : b = true := hstarts
      exact hpassed pre post htr hpending
    | fetch => exact hinside rfl
    | call c => exact hinside rfl
    | started | validated | stored | woken | validReturned => simp [Event.startsUpdate] at hstarts

/-- A request after the end of `ota_service_init`. -/
def gatedLabels : List Label := List.replicate 7 (.init true) ++ [.start, .wake] ++ taskLabels 2

/-- A request as soon as `ota_task` is there. -/
def earlyLabels : List Label := List.replicate 3 (.init true) ++ [.start, .wake] ++ taskLabels 1

/-- After `ota_service_init` the request is turned away. -/
theorem noUpdateUnvalidated_gated :
    ∃ s, Service.run sampleConfig true gatedLabels = some s ∧
      NoUpdateUnvalidated true s.trace := by
  have hrun : (Service.run sampleConfig true gatedLabels).map Service.trace =
      some [.stored, .started, .woken, .gate false] := by decide +kernel
  obtain ⟨s, hs, htr⟩ := Option.map_eq_some_iff.mp hrun
  refine ⟨s, hs, (noUpdateUnvalidated_iff sampleConfig true hs).mpr ?_⟩
  rw [htr]
  unfold CheckedAfterStore Unvalidated
  decide

/-- A request between the creation of `ota_task` and the store of the flag starts
an update on the unvalidated image. -/
theorem not_noUpdateUnvalidated_early :
    ¬ ∀ cfg pending ls s, Service.run cfg pending ls = some s →
      NoUpdateUnvalidated pending s.trace := by
  intro h
  have hrun : (Service.run sampleConfig true earlyLabels).map Service.trace =
      some [.started, .woken, .gate true] := by decide +kernel
  obtain ⟨s, hs, htr⟩ := Option.map_eq_some_iff.mp hrun
  exact h sampleConfig true _ s hs [.started, .woken] (.gate true) [] htr rfl ⟨rfl, by simp⟩

/-! ## No request is lost -/

/-- `ota_set_valid(true)` has returned, and `ota_task` waits for a semaphore that
is empty. -/
def Service.Quiescent (s : Service) : Prop :=
  .validReturned ∈ s.trace ∧ s.task = .waiting ∧ s.signal = false

/-- The request was followed by an iteration that passed the gate and called
`fetch_ota_manifest`. -/
def Served (post : List Event) : Prop :=
  ∃ mid rest, post = mid ++ .gate true :: rest ∧ .fetch ∈ rest

/-- No request is lost, and no wake-up after a return of `ota_set_valid(true)` is
turned away. -/
structure NoneLost (s : Service) : Prop where
  served : s.Quiescent → Future (fun ev post => ev = .started → Served post) s.trace
  resumed : Past (fun pre ev => .validReturned ∈ pre → ev ≠ .gate false) s.trace

/-- A request in `pre` has not been followed by a gate check. -/
def Awaiting (pre : List Event) : Prop :=
  ∃ as bs, pre = as ++ .started :: bs ∧ ∀ b, .gate b ∉ bs

/-- The first gate check after a request, and all gate checks after a return of
`ota_set_valid(true)`, come before `ota_service_init` sets `validation_pending`. -/
structure CheckedBeforeStore (s : Service) : Prop where
  first : s.Quiescent →
    Past (fun pre ev => ∀ b, ev = .gate b → Awaiting pre → .stored ∉ pre) s.trace
  later : Past (fun pre ev => ∀ b, ev = .gate b → .validReturned ∈ pre → .stored ∉ pre) s.trace

/-- A trace that holds a gate check can be split at its first one. -/
theorem exists_first_gate {post : List Event} {b : Bool} (h : .gate b ∈ post) :
    ∃ mid b' rest, post = mid ++ .gate b' :: rest ∧ ∀ c, .gate c ∉ mid := by
  induction post with
  | nil => simp at h
  | cons ev post ih =>
    by_cases hev : ∃ c, ev = .gate c
    · obtain ⟨c, rfl⟩ := hev
      exact ⟨[], c, post, rfl, by simp⟩
    · have hmem : .gate b ∈ post := by
        rcases List.mem_cons.mp h with h | h
        · exact absurd ⟨b, h.symm⟩ hev
        · exact h
      obtain ⟨mid, b', rest, rfl, hmid⟩ := ih hmem
      refine ⟨ev :: mid, b', rest, rfl, fun c hc => ?_⟩
      rcases List.mem_cons.mp hc with hc | hc
      · exact hev ⟨c, hc.symm⟩
      · exact hmid c hc

/-- The gate loses no request in exactly the runs in which it is checked before
`ota_service_init` has set its flag. -/
theorem noneLost_iff (cfg : Config) {ls : List Label} {s : Service}
    (hrun : Service.run cfg true ls = some s) : NoneLost s ↔ CheckedBeforeStore s := by
  have hinv := run_inv hrun
  constructor
  · intro h
    refine ⟨?_, ?_⟩
    · rintro hquiet pre ev post htr b rfl ⟨as, bs, rfl, hnone⟩ hstored
      -- the check that serves the request is this one or a later one
      obtain ⟨mid, rest, hpost, -⟩ :=
        h.served hquiet as .started (bs ++ .gate b :: post) (by simp [htr]) rfl
      obtain ⟨cs, rfl⟩ := prefix_of_not_mem hpost (hnone true)
      have hgate := hinv.flags.gates (as ++ .started :: (bs ++ cs)) (.gate true) rest
        (by rw [htr, List.append_assoc, List.cons_append, hpost]; simp) true rfl
      have hnot : .stored ∉ as ++ .started :: (bs ++ cs) := hgate.mp rfl
      exact hnot (by simp only [List.mem_append, List.mem_cons] at hstored ⊢; tauto)
    · rintro pre ev post htr b rfl hvalid hstored
      have hb : b ≠ false := fun hb => h.resumed pre _ post htr hvalid (by rw [hb])
      have hgate := hinv.flags.gates pre _ post htr b rfl
      exact hgate.mp (by simpa using hb) hstored
  · intro h
    refine ⟨?_, ?_⟩
    · rintro hquiet pre ev post htr rfl
      obtain ⟨hvalid, htask, hsignal⟩ := hquiet
      have hchecked : ∃ b, .gate b ∈ post := by
        simpa [htask, hsignal] using hinv.signalled pre .started post htr rfl
      obtain ⟨b, hb⟩ := hchecked
      obtain ⟨mid, b', rest, rfl, hmid⟩ := exists_first_gate hb
      have htr' : s.trace = (pre ++ .started :: mid) ++ .gate b' :: rest := by simp [htr]
      have hstored := h.first ⟨hvalid, htask, hsignal⟩ _ _ rest htr' b' rfl ⟨pre, mid, rfl, hmid⟩
      obtain rfl : b' = true := (hinv.flags.gates _ _ rest htr' b' rfl).mpr hstored
      have hfetch : .fetch ∈ rest := by
        simpa [htask, TaskPc.entering] using hinv.entered.future _ _ rest htr' rfl
      exact ⟨mid, rest, rfl, hfetch⟩
    · rintro pre ev post htr hvalid rfl
      have hstored := h.later pre _ post htr false rfl hvalid
      exact Bool.noConfusion ((hinv.flags.gates pre _ post htr false rfl).mpr hstored)

/-- A request, its iteration, and a validation, all before the store of the flag. -/
def servedLabels : List Label :=
  List.replicate 3 (.init true) ++ [.start, .wake] ++ taskLabels 6 ++ [.mark true, .check, .return']

/-- A request that is turned away and resumed by `ota_set_valid(true)`. -/
def deferredLabels : List Label :=
  gatedLabels ++ [.mark true, .check, .resume, .return', .wake] ++ taskLabels 2

/-- A request that is checked before the store is served. -/
theorem noneLost_served :
    ∃ s, Service.run sampleConfig true servedLabels = some s ∧ s.Quiescent ∧ NoneLost s := by
  have hrun : (Service.run sampleConfig true servedLabels).map
      (fun s => (decide (.validReturned ∈ s.trace), s.task, s.signal, decide (.stored ∈ s.trace))) =
      some (true, .waiting, false, false) := by decide +kernel
  obtain ⟨s, hs, hfields⟩ := Option.map_eq_some_iff.mp hrun
  simp only [Prod.mk.injEq, decide_eq_true_eq, decide_eq_false_iff_not] at hfields
  obtain ⟨hvalid, htask, hsignal, hstored⟩ := hfields
  have hnot : ∀ pre ev post, s.trace = pre ++ ev :: post → .stored ∉ pre :=
    fun pre ev post htr hmem => hstored (by simp [htr, hmem])
  refine ⟨s, hs, ⟨hvalid, htask, hsignal⟩, (noneLost_iff sampleConfig hs).mpr ⟨?_, ?_⟩⟩
  · exact fun _ pre ev post htr _ _ _ => hnot pre ev post htr
  · exact fun pre ev post htr _ _ _ => hnot pre ev post htr

/-- A deferred request is resumed by `ota_set_valid(true)` and turned away again. -/
theorem not_noneLost_deferred :
    ¬ ∀ cfg ls s, Service.run cfg true ls = some s → NoneLost s := by
  intro h
  have hrun : (Service.run sampleConfig true deferredLabels).map Service.trace =
      some [.stored, .started, .woken, .gate false, .validated, .started, .validReturned, .woken,
        .gate false] := by decide +kernel
  obtain ⟨s, hs, htr⟩ := Option.map_eq_some_iff.mp hrun
  exact (h sampleConfig _ s hs).resumed [.stored, .started, .woken, .gate false, .validated,
    .started, .validReturned, .woken] (.gate false) [] htr (by simp) rfl

end HomeNode.Ota
