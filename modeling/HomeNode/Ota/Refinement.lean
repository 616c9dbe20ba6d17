-- SUMMARY: The iterations of the concurrent OTA service are the iterations of ota_task taken by itself.
import HomeNode.Ota.Service

/-!
# The service refines the task

Whatever the other tasks do in between, `ota_task` works through whole
iterations: its state at the wait is the state after some sequence of
iterations, and the calls of the run are the calls of that sequence. What holds
of every sequence of iterations thus holds of the concurrent system.
-/

namespace HomeNode.Ota

def Event.calls : Event → List Call
  | .call c => [c]
  | _ => []

/-- The calls of a trace. -/
def callsOf (tr : List Event) : List Call := tr.flatMap Event.calls

@[simp] theorem callsOf_concat (tr : List Event) (ev : Event) :
    callsOf (tr ++ [ev]) = callsOf tr ++ ev.calls := by
  simp [callsOf]

/-- How far `ota_task` is after the complete iterations `es`: in the state they
led to, or within one more iteration, of which `rest` is still to be called. -/
def Service.Within (cfg : Config) (es : List CycleEnv) (u : OtaState) (s : Service) : Prop :=
  match s.task with
  | .calling rest exit state =>
    ∃ e, (otaCycle cfg u e).exit = exit ∧ (otaCycle cfg u e).state = state ∧
      callsOf s.trace ++ rest = runCalls cfg .init es ++ (otaCycle cfg u e).calls
  | .updating => s.ota = { u with updatePending := false } ∧ callsOf s.trace = runCalls cfg .init es
  | _ => s.ota = u ∧ callsOf s.trace = runCalls cfg .init es

/-- `ota_task` has worked through whole iterations. -/
structure Service.Iterates (cfg : Config) (s : Service) : Prop where
  idle : s.Idle
  within : ∃ es u, otaRun cfg es = some u ∧ s.Within cfg es u

/-- One more iteration of the task. -/
theorem otaRun_concat {cfg : Config} {es : List CycleEnv} {u : OtaState} {e : CycleEnv}
    (hrun : otaRun cfg es = some u) (hexit : (otaCycle cfg u e).exit ≠ .blocked) :
    otaRun cfg (es ++ [e]) = some (otaCycle cfg u e).state ∧
      runCalls cfg .init (es ++ [e]) = runCalls cfg .init es ++ (otaCycle cfg u e).calls :=
  ⟨Transition.run_concat.mpr ⟨u, hrun, cycleStep_eq_some.mpr ⟨hexit, rfl⟩⟩,
    runCalls_concat cfg .init es e hrun⟩

theorem iterates_preserved (cfg : Config) :
    Transition.Preserved (Service.step cfg) (Service.Iterates cfg) := by
  rintro s l t ⟨hidle, es, u, hrun, hs⟩ hstep
  have hkind := step_kind hstep
  refine ⟨hidle.step hkind, ?_⟩
  unfold Service.Within at hs
  cases hkind with
  | init | counted => exact ⟨es, u, hrun, hs⟩
  | stored | started | validated | validReturned =>
    refine ⟨es, u, hrun, ?_⟩
    simpa [Service.Within, Service.log, Event.calls] using hs
  | taskCreated hpc =>
    have htask := hidle (by simp [hpc, InitPc.beforeTask])
    rw [htask] at hs
    exact ⟨es, u, hrun, hs⟩
  | woken htask | turnedAway htask | passed htask =>
    rw [htask] at hs
    refine ⟨es, u, hrun, ?_⟩
    simpa [Service.Within, Service.log, Event.calls] using hs
  | deferred htask =>
    rw [htask] at hs
    obtain ⟨rfl, hcalls⟩ := hs
    -- the iteration that the gate turned away makes no call
    let e : CycleEnv := { validationPending := true, manifest := { openOk := false } }
    have hcycle : otaCycle cfg s.ota e = ⟨.turnedAway, { s.ota with updatePending := true }, []⟩ :=
      rfl
    obtain ⟨hnext, hnextCalls⟩ := otaRun_concat (e := e) hrun (by simp [hcycle])
    refine ⟨es ++ [e], _, hnext, by rw [hcycle], ?_⟩
    simp [hnextCalls, hcycle, hcalls]
  | cleared htask =>
    rw [htask] at hs
    exact ⟨es, u, hrun, by simp [hs.1], hs.2⟩
  | @fetched e r htask hr =>
    rw [htask] at hs
    obtain ⟨hota, hcalls⟩ := hs
    let e' : CycleEnv := { e with validationPending := false }
    have hcycle : otaCycle cfg u e' = r := by
      rw [← hr, hota]
      rfl
    refine ⟨es, u, hrun, e', by rw [hcycle], by rw [hcycle], ?_⟩
    simp [Service.log, Event.calls, hcalls, hcycle]
  | called htask =>
    rw [htask] at hs
    obtain ⟨e, hexit, hstate, hcalls⟩ := hs
    refine ⟨es, u, hrun, e, hexit, hstate, ?_⟩
    simpa [Service.log, Event.calls] using hcalls
  | finished htask hexit =>
    rw [htask] at hs
    obtain ⟨e, rfl, rfl, hcalls⟩ := hs
    obtain ⟨hnext, hnextCalls⟩ := otaRun_concat hrun hexit
    exact ⟨es ++ [e], _, hnext, rfl, by simpa [hnextCalls] using hcalls⟩

/-- At its wait, `ota_task` is in the state after a sequence of iterations, and
the calls made so far are the calls of these iterations. -/
theorem waiting_iterates (cfg : Config) {pending : Bool} {ls : List Label} {s : Service}
    (hrun : Service.run cfg pending ls = some s) (hwait : s.task = .waiting) :
    ∃ es, otaRun cfg es = some s.ota ∧ callsOf s.trace = runCalls cfg .init es := by
  have hboot : (Service.boot pending).Iterates cfg :=
    ⟨.boot pending, [], .init, rfl, rfl, rfl⟩
  obtain ⟨-, es, u, hes, hwithin⟩ := (iterates_preserved cfg).run hboot hrun
  unfold Service.Within at hwithin
  rw [hwait] at hwithin
  obtain ⟨rfl, hcalls⟩ := hwithin
  exact ⟨es, hes, hcalls⟩

end HomeNode.Ota
