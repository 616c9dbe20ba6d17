-- SUMMARY: Chunks, send jobs and slots are conserved exactly as long as the work queue rejects nothing.
import HomeNode.Http.Completion

/-!
# Conservation of the pools

Each object in use is owed to a work item, or to a step that will give it back.
`httpd_queue_work` is called in three places, and none looks at its result: the
objects of a rejected item stay in use for ever.
-/

namespace HomeNode.Http

/-- No task is inside `http_server_send_chunked_response`, or between the two frees
of `http_async_data_worker`. -/
def Between (s : State) : Prop :=
  (match s.delegate with
    | .idle | .reading _ _ => True
    | .allocJob _ _ _ _ _ | .queueData _ _ _ _ _ _ => False) ∧
  ∀ j, s.httpd ≠ .dataWorker j .freeJob

/-- The chunks and jobs in use are those of the queued and running data jobs, each
once, and a slot in use has a step to come. -/
structure Conserved (s : State) : Prop where
  jobs : s.jobBank.Holds (workJobs s)
  chunks : s.chunkBank.Holds ((workJobs s).filterMap (chunkOf s))
  slots : ∀ i, s.slotBank i → ∃ u ∈ tokens s, u.ctx.slot = i ∧ u.place.stuck = false

variable {s : State}

theorem Between.jobHolders_eq (h : Between s) :
    jobHolders s = workJobs s + ((lostData s.trace).map Prod.snd : Multiset JobId) := by
  have hjob : s.delegate.job = none := by
    have hdelegate := h.1
    cases hpc : s.delegate with
    | idle | reading c rest => rfl
    | allocJob _ _ _ _ _ | queueData _ _ _ _ _ _ => simp [hpc] at hdelegate
  unfold jobHolders
  rw [hjob]
  simp

theorem Between.chunkHolders_eq (h : Between s) :
    chunkHolders s = ((workJobs s).filterMap (chunkOf s) : Multiset ChunkId) +
      ((lostData s.trace).map Prod.fst : Multiset ChunkId) := by
  have hchunk : s.delegate.chunk = none := by
    have hdelegate := h.1
    cases hpc : s.delegate with
    | idle | reading c rest => rfl
    | allocJob _ _ _ _ _ | queueData _ _ _ _ _ _ => simp [hpc] at hdelegate
  have hjobs : chunkJobs s = workJobs s := by
    unfold chunkJobs workJobs
    cases hpc : s.httpd with
    | dataWorker j pc =>
      cases pc with
      | send | freeChunk => rfl
      | freeJob => exact absurd hpc (h.2 j)
    | idle | callback _ | answering _ _ | closeWorker _ _ | finalizeWorker _ | crashed => rfl
  unfold chunkHolders
  rw [hjobs, hchunk]
  simp

theorem lostData_eq_nil {tr : List Obs} (h : ∀ c w, .lost c w ∉ tr) : lostData tr = [] := by
  apply List.filterMap_eq_nil_iff.mpr
  intro o ho
  cases o with
  | lost c w => exact absurd ho (h c w)
  | begun _ | command _ _ | call _ _ _ | freed _ _ | snapshot _ _ | offered _ _ => rfl

theorem Inv.conserved (h : Inv s) (hbetween : Between s) (hnone : ∀ c w, .lost c w ∉ s.trace) :
    Conserved s := by
  have hjobs := h.jobs.jobs
  have hchunks := h.jobs.chunks
  rw [hbetween.jobHolders_eq, lostData_eq_nil hnone] at hjobs
  rw [hbetween.chunkHolders_eq, lostData_eq_nil hnone] at hchunks
  refine ⟨by simpa using hjobs, by simpa using hchunks, fun i hi => ?_⟩
  obtain ⟨u, hu, hslot⟩ := Multiset.mem_map.mp (h.owned.slots.mem_iff.mpr hi)
  refine ⟨u, hu, hslot, ?_⟩
  by_contra hstuck
  exact not_mem_lostTokens (hnone · .close) (hnone · .finalize) u
    (lost_of_stuck hu (by simpa using hstuck))

/-- A rejected close or finalize leaves its slot without a step to come. -/
theorem Owned.not_lost (h : Owned s)
    (hslots : ∀ i, s.slotBank i → ∃ u ∈ tokens s, u.ctx.slot = i ∧ u.place.stuck = false)
    (u : Token) : u ∉ lostTokens s.trace := by
  intro hu
  have hmem := lost_mem_tokens hu
  have hused : s.slotBank u.ctx.slot = true :=
    h.slots.mem_iff.mp (Multiset.mem_map.mpr ⟨u, hmem, rfl⟩)
  obtain ⟨v, hv, hslot, hfree⟩ := hslots _ hused
  obtain rfl := Multiset.inj_on_of_nodup_map h.slots.nodup v hv u hmem hslot
  rw [stuck_of_lost hu] at hfree
  exact Bool.noConfusion hfree

theorem Inv.none_lost (h : Inv s) (hbetween : Between s) (hconserved : Conserved s) :
    ∀ c w, .lost c w ∉ s.trace := by
  have hjobs := h.jobs.jobs
  rw [hbetween.jobHolders_eq] at hjobs
  have hdata : lostData s.trace = [] := by
    have hcard := congrArg Multiset.card (hjobs.unique hconserved.jobs)
    simpa using hcard
  intro c w hlost
  cases w with
  | data ch j =>
    have hmem : (ch, j) ∈ lostData s.trace := List.mem_filterMap.mpr ⟨_, hlost, rfl⟩
    rw [hdata] at hmem
    exact List.not_mem_nil hmem
  | close =>
    exact h.owned.not_lost hconserved.slots ⟨c, .lostClose⟩ (mem_lostTokens.mpr ⟨_, hlost, rfl⟩)
  | finalize =>
    exact h.owned.not_lost hconserved.slots ⟨c, .lostFinalize⟩ (mem_lostTokens.mpr ⟨_, hlost, rfl⟩)

/-- Between operations, the pools are conserved exactly when `httpd_queue_work` has
rejected nothing. -/
theorem conserved_iff_none_lost {ls : List Label} {t : State} (hrun : run ls = some t)
    (hbetween : Between t) : Conserved t ↔ ∀ c w, .lost c w ∉ t.trace :=
  have hinv := (run_sound hrun).inv
  ⟨hinv.none_lost hbetween, hinv.conserved hbetween⟩

/-! ## Runs -/

/-- A piece of the log is queued. -/
def queuedRun : List Label :=
  [.dispatch .log 0 (some 0), .post true, .handle true, .snapshot [[72, 105]],
    .delegate (.chunk (some 0)), .delegate (.job (some 0)), .delegate (.queue true)]

/-- The work queue rejects the piece, and then the close. -/
def leakingRun : List Label :=
  [.dispatch .log 0 (some 0), .post true, .handle true, .snapshot [[72, 105]],
    .delegate (.chunk (some 0)), .delegate (.job (some 0)), .delegate (.queue false),
    .delegate (.queue false)]

theorem conserved_queuedRun :
    Conserved ((run queuedRun).getD .init) ∧ workJobs ((run queuedRun).getD .init) = [0] := by
  have hnone : ∀ o ∈ ((run queuedRun).getD .init).trace, o.token = none ∧ o.data = none := by
    decide +kernel
  refine ⟨(conserved_iff_none_lost (run_eq_getD (by decide +kernel)) ?_).mpr fun c w hlost => ?_,
    by decide +kernel⟩
  · exact ⟨trivial, nofun⟩
  · have hboth := hnone _ hlost
    cases w <;> simp at hboth

/-- A chunk, a job and a slot stay in use, and nothing is queued. -/
theorem not_conserved_leakingRun :
    ¬ ∀ ls t, run ls = some t → Between t → Conserved t := by
  intro h
  have hconserved := h leakingRun _ (run_eq_getD (by decide +kernel)) ⟨trivial, nofun⟩
  have hjobs : workJobs ((run leakingRun).getD .init) = [] := by decide +kernel
  have hused : ((run leakingRun).getD .init).jobBank 0 = true := by decide +kernel
  have hcount := hconserved.jobs 0
  rw [hjobs, hused] at hcount
  exact Nat.zero_ne_one hcount

end HomeNode.Http
