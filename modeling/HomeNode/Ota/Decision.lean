-- SUMMARY: Which iterations of ota_task reach the download, and which commit.
import HomeNode.Ota.Commit

/-!
# What an iteration decides

An iteration asks for the firmware when its manifest announces a newer version
(`requestState`), and it commits when the download loop has finished and the
calls behind it succeed.
-/

namespace HomeNode.Ota

/-! ## The commit -/

/-- The exit behind a successful `esp_ota_set_boot_partition`. -/
def Exit.commits : Exit → Bool
  | .committed _ _ => true
  | _ => false

/-- The calls behind a finished loop succeed. -/
def CycleEnv.commitOk (e : CycleEnv) : Bool := e.completeAfter && e.endOk && e.setBootOk

/-- The variables with which the download loop starts. -/
def Loop.start (s : OtaState) : Loop := ⟨false, 0, s.updateHandle, s.responseBuffer, 0⟩

/-- The exit behind a finished loop. -/
def CycleEnv.commitExit (e : CycleEnv) (redirected checked : Bool) : Exit :=
  if !e.completeAfter then .incomplete redirected checked
  else if !e.endOk then .endFailed redirected checked
  else if !e.setBootOk then .setBootFailed redirected checked
  else .committed redirected checked

theorem otaCommit_exit (s : OtaState) (e : CycleEnv) (redirected : Bool) (p : Partition)
    (l : Loop) : (otaCommit s e redirected p l).exit = e.commitExit redirected l.headerChecked := by
  unfold otaCommit CycleEnv.commitExit
  split_ifs <;> rfl

theorem otaCommit_commits (s : OtaState) (e : CycleEnv) (redirected : Bool) (p : Partition)
    (l : Loop) : (otaCommit s e redirected p l).exit.commits = e.commitOk := by
  unfold otaCommit CycleEnv.commitOk
  cases e.completeAfter <;> cases e.endOk <;> cases e.setBootOk <;> rfl

theorem otaCommit_exit_ne_blocked (s : OtaState) (e : CycleEnv) (redirected : Bool)
    (p : Partition) (l : Loop) : (otaCommit s e redirected p l).exit ≠ .blocked := by
  unfold otaCommit
  split_ifs <;> simp

/-- An iteration from the end of the download loop on. -/
def otaAfterLoop (s : OtaState) (e : CycleEnv) (redirected : Bool) (p : Partition)
    (turn : Turn) : CycleResult :=
  let s := { s with
    updatePartition := some p
    updateHandle := turn.loop.handle
    responseBuffer := turn.loop.buffer }
  match turn.left with
  | none => ⟨.blocked, s, turn.calls⟩
  | some .finished => (otaCommit s e redirected p turn.loop).after turn.calls
  | some b => ⟨.download redirected b turn.loop.headerChecked, s, turn.calls⟩

section

variable {s : OtaState} {e : CycleEnv} {redirected : Bool} {p : Partition}

theorem otaDownload_eq (hp : e.nextPartition = some p) :
    otaDownload s e redirected =
      otaAfterLoop s e redirected p (downloadLoop p (.start s) e.reads) := by
  rw [otaDownload, hp]
  rfl

/-- The exit depends on how the loop was left, and on nothing else it did. -/
theorem otaAfterLoop_exit (turn : Turn) :
    (otaAfterLoop s e redirected p turn).exit =
      match turn.left with
      | none => .blocked
      | some .finished => e.commitExit redirected turn.loop.headerChecked
      | some b => .download redirected b turn.loop.headerChecked := by
  unfold otaAfterLoop
  cases turn.left with
  | none => rfl
  | some b =>
    cases b with
    | finished => exact otaCommit_exit _ e redirected p turn.loop
    | readError | shortPacket | beginFailed | writeFailed | connReset => rfl

theorem otaAfterLoop_otaWrites (turn : Turn) :
    otaWrites (otaAfterLoop s e redirected p turn).calls = otaWrites turn.calls := by
  have hcommit (s' : OtaState) : otaWrites (otaCommit s' e redirected p turn.loop).calls = [] := by
    unfold otaCommit
    split_ifs <;> rfl
  unfold otaAfterLoop
  cases turn.left with
  | none => rfl
  | some b =>
    cases b with
    | finished => simp [hcommit]
    | readError | shortPacket | beginFailed | writeFailed | connReset => rfl

theorem otaAfterLoop_exit_eq_blocked_iff (turn : Turn) :
    (otaAfterLoop s e redirected p turn).exit = .blocked ↔ turn.left = none := by
  unfold otaAfterLoop
  cases turn.left with
  | none => simp
  | some b => cases b <;> simp [otaCommit_exit_ne_blocked]

theorem otaAfterLoop_commits_iff (turn : Turn) :
    (otaAfterLoop s e redirected p turn).exit.commits = true ↔
      turn.left = some .finished ∧ e.commitOk = true := by
  unfold otaAfterLoop
  cases turn.left with
  | none => simp [Exit.commits]
  | some b =>
    cases b with
    | finished => simp [otaCommit_commits]
    | readError | shortPacket | beginFailed | writeFailed | connReset => simp [Exit.commits]

/-- Behind the loop, `esp_ota_set_boot_partition` is called when the image is complete
and ended. -/
theorem otaAfterLoop_setBoot_iff (s : OtaState) (e : CycleEnv) (redirected : Bool) (p : Partition)
    {turn : Turn} (h : ∀ c ∈ turn.calls, ¬ c.isSetBoot) :
    (∃ c ∈ (otaAfterLoop s e redirected p turn).calls, c.isSetBoot = true) ↔
      turn.left = some .finished ∧ e.completeAfter = true ∧ e.endOk = true := by
  have hcommit (s' : OtaState) :
      (∃ c ∈ (otaCommit s' e redirected p turn.loop).calls, c.isSetBoot = true) ↔
        e.completeAfter = true ∧ e.endOk = true := by
    unfold otaCommit
    cases e.completeAfter <;> cases e.endOk <;> cases e.setBootOk <;> simp [Call.isSetBoot]
  unfold otaAfterLoop
  cases turn.left with
  | none => simpa using h
  | some b =>
    cases b with
    | finished =>
      rw [CycleResult.after_calls, Trace.exists_mem_append_iff h, hcommit]
      simp
    | readError | shortPacket | beginFailed | writeFailed | connReset => simpa using h

end

end HomeNode.Ota
