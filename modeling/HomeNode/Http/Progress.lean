-- SUMMARY: Without new requests every run ends, and it goes on while a request is pending.
import HomeNode.Http.Runs
import Mathlib.Data.Prod.Lex

/-!
# Progress

A measure falls at every step that is not a new request. Its first component
counts the contexts on their way to the delegate task, which may come back with a
snapshot of any length; the second counts the steps left once that is known.
-/

namespace HomeNode.Http

variable {s t : State} {c : Ctx}

/-! ## What is left to do -/

def AnswerPc.left : AnswerPc → Nat
  | .respond _ => 3
  | .complete => 2
  | .free => 1

/-- The steps of an answer with `next` to come. -/
def answerLeft : Option AnswerPc → Nat
  | some pc => pc.left
  | none => 0

def DataPc.left : DataPc → Nat
  | .send => 3
  | .freeChunk => 2
  | .freeJob => 1

/-- The steps of a close, with those of the finalize it queues. -/
def ClosePc.left : ClosePc → Nat
  | .sendEnd => 5
  | .complete => 4
  | .queueFinalize => 3

@[simp] def HttpdPc.left : HttpdPc → Nat
  | .answering _ pc => pc.left
  | .dataWorker _ pc => pc.left
  | .closeWorker _ pc => pc.left
  | .finalizeWorker _ => 1
  | .idle | .callback _ | .crashed => 0

@[simp] def LoopPc.left : LoopPc → Nat
  | .idle => 0
  | .answering _ pc => pc.left

@[simp] def Work.left : Work → Nat
  | .data _ => 4
  | .close _ => 6
  | .finalize _ => 2

/-- Three steps for a piece and four for the work it becomes. -/
@[simp] def DelegatePc.left : DelegatePc → Nat
  | .idle => 0
  | .reading _ rest => 7 * rest.length + 7
  | .allocJob _ _ rest _ _ => 7 * rest.length + 13
  | .queueData _ _ rest _ _ _ => 7 * rest.length + 12

/-- The steps before the event of a callback is handled. -/
@[simp] def HttpdPc.unread : HttpdPc → Nat
  | .callback _ => 3
  | _ => 0

def unread (s : State) : Nat := s.httpd.unread + 2 * s.events.length + s.delegated.length

def left (s : State) : Nat :=
  s.httpd.left + s.loop.left + (s.work.map Work.left).sum + s.delegate.left + 4 * s.onAir.length

/-- The measure of a state. -/
def remaining (s : State) : ℕ ×ₗ ℕ := toLex (unread s, left s)

theorem remaining_lt_of_unread (h : unread t < unread s) : remaining t < remaining s :=
  Prod.Lex.toLex_lt_toLex.mpr (.inl h)

theorem remaining_lt_of_left (hunread : unread t = unread s) (h : left t < left s) :
    remaining t < remaining s :=
  Prod.Lex.toLex_lt_toLex.mpr (.inr ⟨hunread, h⟩)

/-! ## Every step but a new request leaves less to do -/

/-- `t` is `s` with other slots and another trace. -/
structure SameTasks (s t : State) : Prop where
  httpd : t.httpd = s.httpd
  loop : t.loop = s.loop
  delegate : t.delegate = s.delegate
  work : t.work = s.work
  events : t.events = s.events
  onAir : t.onAir = s.onAir
  delegated : t.delegated = s.delegated

theorem answerStep_left {pc : AnswerPc} {next : Option AnswerPc}
    (hstep : answerStep s c pc = some (t, next)) : SameTasks s t ∧ answerLeft next < pc.left := by
  cases pc with
  | respond text =>
    cases hreq : (s.slots c.slot).req with
    | none => simp [answerStep, hreq] at hstep
    | some r =>
      simp only [answerStep, hreq, Option.some.injEq, Prod.mk.injEq] at hstep
      obtain ⟨rfl, rfl⟩ := hstep
      exact ⟨⟨rfl, rfl, rfl, rfl, rfl, rfl, rfl⟩, Nat.lt_succ_self 2⟩
  | complete =>
    cases hreq : (s.slots c.slot).req with
    | none | some r =>
      simp only [answerStep, hreq, Option.some.injEq, Prod.mk.injEq] at hstep
      obtain ⟨rfl, rfl⟩ := hstep
      exact ⟨⟨rfl, rfl, rfl, rfl, rfl, rfl, rfl⟩, by decide⟩
  | free =>
    simp only [answerStep, Option.some.injEq, Prod.mk.injEq] at hstep
    obtain ⟨rfl, rfl⟩ := hstep
    exact ⟨⟨rfl, rfl, rfl, rfl, rfl, rfl, rfl⟩, by decide⟩

theorem dataWorkerStep_left {j : JobId} {job : SendJob} {pc : DataPc}
    (hpc : s.httpd = .dataWorker j pc) (hstep : dataWorkerStep s j job pc = some t) :
    remaining t < remaining s := by
  cases pc with
  | send =>
    cases hreq : (s.slots job.ctx.slot).req with
    | none => simp [dataWorkerStep, hreq] at hstep
    | some r =>
      simp only [dataWorkerStep, hreq, Option.some.injEq] at hstep
      subst hstep
      exact remaining_lt_of_left (by simp [unread, State.log, hpc])
        (by simp [left, State.log, hpc, DataPc.left])
  | freeChunk | freeJob =>
    obtain rfl := Option.some.inj hstep
    exact remaining_lt_of_left (by simp [unread, hpc]) (by simp [left, hpc, DataPc.left])

theorem closeWorkerStep_left {accepted : Bool} {pc : ClosePc} (hpc : s.httpd = .closeWorker c pc)
    (hstep : closeWorkerStep s c accepted pc = some t) : remaining t < remaining s := by
  cases pc with
  | sendEnd | complete =>
    cases hreq : (s.slots c.slot).req with
    | none => simp [closeWorkerStep, hreq] at hstep
    | some r =>
      simp only [closeWorkerStep, hreq, Option.some.injEq] at hstep
      subst hstep
      exact remaining_lt_of_left (by simp [unread, State.log, hpc])
        (by simp [left, State.log, hpc, ClosePc.left])
  | queueFinalize =>
    cases accepted with
    | true =>
      obtain rfl := Option.some.inj hstep
      apply remaining_lt_of_left (by simp [unread, hpc])
      simp only [left, hpc, HttpdPc.left, ClosePc.left, List.map_append, List.map_cons,
        List.map_nil, List.sum_append, List.sum_cons, List.sum_nil, Work.left]
      omega
    | false =>
      obtain rfl := Option.some.inj hstep
      exact remaining_lt_of_left (by simp [unread, State.log, hpc])
        (by simp [left, State.log, hpc, ClosePc.left])

theorem httpdStep_left {accepted : Bool} (hstep : httpdStep s accepted = some t) :
    remaining t < remaining s := by
  cases hpc : s.httpd with
  | idle | callback c | crashed => simp [httpdStep, hpc] at hstep
  | answering c pc =>
    obtain ⟨u, next, hanswer, rfl⟩ := httpdStep_answering hpc hstep
    obtain ⟨hsame, hleft⟩ := answerStep_left hanswer
    refine remaining_lt_of_left ?_ ?_
    · cases next <;> simp [unread, hpc, HttpdPc.after, hsame.events, hsame.delegated]
    · cases next <;> simpa [left, hpc, HttpdPc.after, answerLeft, hsame.loop, hsame.work,
        hsame.delegate, hsame.onAir] using hleft
  | dataWorker j pc =>
    cases hjob : s.jobs j with
    | none => simp [httpdStep, hpc, hjob] at hstep
    | some job =>
      simp only [httpdStep, hpc, hjob] at hstep
      exact dataWorkerStep_left hpc hstep
  | closeWorker c pc =>
    simp only [httpdStep, hpc] at hstep
    exact closeWorkerStep_left hpc hstep
  | finalizeWorker c =>
    simp only [httpdStep, hpc, Option.some.injEq] at hstep
    subst hstep
    exact remaining_lt_of_left (by simp [unread, State.freeSlot, State.log, hpc])
      (by simp [left, State.freeSlot, State.log, hpc])

theorem loopStep_left (hstep : loopStep s = some t) : remaining t < remaining s := by
  cases hpc : s.loop with
  | idle => simp [loopStep, hpc] at hstep
  | answering c pc =>
    obtain ⟨u, next, hanswer, rfl⟩ := loopStep_answering hpc hstep
    obtain ⟨hsame, hleft⟩ := answerStep_left hanswer
    refine remaining_lt_of_left ?_ ?_
    · simp [unread, hsame.httpd, hsame.events, hsame.delegated]
    · cases next <;> simpa [left, hpc, LoopPc.after, answerLeft, hsame.httpd, hsame.work,
        hsame.delegate, hsame.onAir] using hleft

theorem startWork_left (hidle : s.httpd = .idle) (hstep : startWork s = some t) :
    remaining t < remaining s := by
  unfold startWork at hstep
  cases hwork : s.work with
  | nil => simp [hwork] at hstep
  | cons w rest =>
    cases w with
    | data j | close c | finalize c =>
      simp only [hwork, Option.some.injEq] at hstep
      subst hstep
      apply remaining_lt_of_left (by simp [unread, hidle])
      simp only [left, hidle, hwork, HttpdPc.left, DataPc.left, ClosePc.left, List.map_cons,
        List.sum_cons, Work.left]
      omega

/-- An event that is handled leaves the queue, whatever becomes of it. -/
theorem handleEvent_left {rest : List Ctx} {sent : Bool} (hevents : s.events = c :: rest)
    (hstep : handleEvent { s with events := rest } c sent = some t) :
    remaining t < remaining s := by
  apply remaining_lt_of_unread
  unfold handleEvent at hstep
  cases hcommand : c.owner.command with
  | gateOpen | gateClose | gateStatus =>
    simp only [hcommand, Option.some.injEq] at hstep
    subst hstep
    cases sent <;> simp [unread, sendCommand, inform, State.log, hevents]
  | log =>
    by_cases hfull : s.delegated.length < delegateQueueLength
    · simp only [hcommand, hfull, if_true, Option.some.injEq] at hstep
      subst hstep
      simp only [unread, hevents, List.length_append, List.length_cons, List.length_nil]
      omega
    · simp [hcommand, hfull] at hstep
  | otaUpdate =>
    simp only [hcommand, Option.some.injEq] at hstep
    subst hstep
    simp [unread, inform, State.log, hevents]

theorem queueData_left {piece : Piece} {rest : List Piece} {exhausted : Bool}
    {chunk : Option ChunkId} {job : Option JobId} {accepted : Bool}
    (hpc : s.delegate = .queueData c piece rest exhausted chunk job) :
    remaining (queueData s c piece rest exhausted chunk job accepted) < remaining s := by
  refine remaining_lt_of_left ?_ ?_
  · cases chunk <;> cases job <;> cases accepted <;> rfl
  · cases chunk <;> cases job <;> cases accepted <;>
      simp [queueData, State.log, left, hpc]
    omega

theorem delegateStep_left {a : Answer} (hstep : delegateStep s a = some t) :
    remaining t < remaining s := by
  cases delegateStep_kind hstep with
  | allocChunk c piece rest res bank hpc =>
    exact remaining_lt_of_left rfl (by simp [left, hpc]; omega)
  | allocJob c piece rest exhausted chunk res bank hpc =>
    exact remaining_lt_of_left rfl (by simp [left, hpc])
  | queueData c piece rest exhausted chunk job accepted hpc => exact queueData_left hpc
  | queueClose c hpc => exact remaining_lt_of_left rfl (by simp [left, hpc]; omega)
  | loseClose c hpc => exact remaining_lt_of_left rfl (by simp [left, State.log, hpc])

/-- A request arrives. -/
def Label.Arrival : Label → Prop
  | .dispatch _ _ _ => True
  | _ => False

theorem step_left {l : Label} (hl : ¬ l.Arrival) (hstep : step s l = some t) :
    remaining t < remaining s := by
  cases step_kind hstep with
  | dispatch => exact absurd trivial hl
  | post c ok hpc =>
    apply remaining_lt_of_unread
    cases ok with
    | true | false =>
      simp only [unread, postEvent, State.log, hpc, HttpdPc.unread, List.length_append,
        List.length_singleton, if_true, Bool.false_eq_true, if_false]
      omega
  | httpd accepted _ hhttpd => exact httpdStep_left hhttpd
  | startWork _ hidle hwork => exact startWork_left hidle hwork
  | handle c rest sent _ hloop hevents hhandle => exact handleEvent_left hevents hhandle
  | ack c success hloop hc =>
    have hlength := List.length_erase_of_mem hc
    have hpos := List.length_pos_of_mem hc
    refine remaining_lt_of_left rfl ?_
    simp only [left, handleSendStatus, inform, State.log, hloop, LoopPc.left, AnswerPc.left, hlength]
    omega
  | loop _ hloop => exact loopStep_left hloop
  | snapshot c rest pieces hidle hdelegated =>
    exact remaining_lt_of_unread (by simp [unread, State.log, hdelegated])
  | delegate a _ hdelegate => exact delegateStep_left hdelegate

theorem runs_end (s : State) : Transition.Ends step (fun l => ¬ l.Arrival) s :=
  .of_measure remaining (fun _ _ _ => step_left) s

/-! ## A pending request has a step to come -/

/-- Neither a new request nor an answer from the radio. -/
def Label.Own : Label → Prop
  | .dispatch _ _ _ | .ack _ _ => False
  | _ => True

/-- One of the three tasks can move. -/
def CanMove (s : State) : Prop := ∃ l : Label, l.Own ∧ (step s l).isSome

/-- No task has anything to do, but commands may be on the radio. -/
structure Resting (s : State) : Prop where
  httpd : s.httpd = .idle
  loop : s.loop = .idle
  delegate : s.delegate = .idle
  work : s.work = []
  events : s.events = []
  delegated : s.delegated = []

theorem answerStep_isSome {r : Req} (hreq : (s.slots c.slot).req = some r) (pc : AnswerPc) :
    ∃ u next, answerStep s c pc = some (u, next) := by
  cases pc with
  | respond text | complete => exact ⟨_, _, by simp only [answerStep, hreq]; rfl⟩
  | free => exact ⟨_, _, rfl⟩

theorem Sound.httpd_canMove (h : Sound s) (hup : s.httpd ≠ .crashed) (hbusy : s.httpd ≠ .idle) :
    CanMove s := by
  cases hpc : s.httpd with
  | idle => exact absurd hpc hbusy
  | crashed => exact absurd hpc hup
  | callback c => exact ⟨.post true, trivial, by simp [step, hpc]⟩
  | answering c pc =>
    have hmem : ⟨c, .answering pc⟩ ∈ tokens s := by simp [tokens, hpc]
    obtain ⟨u, next, hanswer⟩ := answerStep_isSome (h.inv.owned.req hmem) pc
    refine ⟨.httpd true, trivial, ?_⟩
    cases next <;> simp [step, httpdStep, hpc, hanswer]
  | dataWorker j pc =>
    obtain ⟨job, hjob⟩ := h.inv.jobs.written j (by simp [workJobs, hpc])
    refine ⟨.httpd true, trivial, ?_⟩
    cases pc with
    | send =>
      -- data still to be sent belongs to a request that has its slot
      obtain ⟨p, hmem, -⟩ := h.inv.jobs.feeding j (by simp [unsentJobs, hpc]) job hjob
      simp [step, httpdStep, hpc, hjob, dataWorkerStep, h.inv.owned.req hmem]
    | freeChunk | freeJob => simp [step, httpdStep, hpc, hjob, dataWorkerStep]
  | closeWorker c pc =>
    have hmem : ⟨c, .closing pc⟩ ∈ tokens s := by simp [tokens, hpc]
    refine ⟨.httpd true, trivial, ?_⟩
    cases pc <;> simp [step, httpdStep, hpc, closeWorkerStep, h.inv.owned.req hmem]
  | finalizeWorker c => exact ⟨.httpd true, trivial, by simp [step, httpdStep, hpc]⟩

theorem Sound.loop_canMove (h : Sound s) (hup : s.httpd ≠ .crashed) (hbusy : s.loop ≠ .idle) :
    CanMove s := by
  cases hpc : s.loop with
  | idle => exact absurd hpc hbusy
  | answering c pc =>
    have hmem : ⟨c, .answering pc⟩ ∈ tokens s := by simp [tokens, hpc]
    obtain ⟨u, next, hanswer⟩ := answerStep_isSome (h.inv.owned.req hmem) pc
    refine ⟨.loop, trivial, ?_⟩
    cases next <;> simp [step, hup, loopStep, hpc, hanswer]

theorem delegate_canMove (hup : s.httpd ≠ .crashed) (hbusy : s.delegate ≠ .idle) : CanMove s := by
  cases hpc : s.delegate with
  | idle => exact absurd hpc hbusy
  | reading c rest =>
    cases rest with
    | nil => exact ⟨.delegate (.queue true), trivial, by simp [step, hup, delegateStep, hpc]⟩
    | cons piece rest =>
      obtain ⟨res, bank, halloc⟩ := s.chunkBank.exists_alloc
      exact ⟨.delegate (.chunk res), trivial, by simp [step, hup, delegateStep, hpc, halloc]⟩
  | allocJob c piece rest exhausted chunk =>
    obtain ⟨res, bank, halloc⟩ := s.jobBank.exists_alloc
    exact ⟨.delegate (.job res), trivial, by simp [step, hup, delegateStep, hpc, halloc]⟩
  | queueData c piece rest exhausted chunk job =>
    exact ⟨.delegate (.queue true), trivial, by simp [step, hup, delegateStep, hpc]⟩

/-- The event loop waits for nothing but room in the delegate queue. -/
theorem events_canMove (hup : s.httpd ≠ .crashed) (hloop : s.loop = .idle)
    (hroom : s.delegated = []) (hbusy : s.events ≠ []) : CanMove s := by
  obtain ⟨c, rest, hevents⟩ := List.exists_cons_of_ne_nil hbusy
  refine ⟨.handle true, trivial, ?_⟩
  cases hcommand : c.owner.command <;>
    simp [step, hup, hloop, hevents, handleEvent, hcommand, hroom, delegateQueueLength]

theorem Sound.canMove_or_resting (h : Sound s) (hup : s.httpd ≠ .crashed) :
    CanMove s ∨ Resting s := by
  by_cases hhttpd : s.httpd = .idle
  case neg => exact .inl (h.httpd_canMove hup hhttpd)
  by_cases hloop : s.loop = .idle
  case neg => exact .inl (h.loop_canMove hup hloop)
  by_cases hdelegate : s.delegate = .idle
  case neg => exact .inl (delegate_canMove hup hdelegate)
  by_cases hwork : s.work = []
  case neg =>
    obtain ⟨w, rest, hwork⟩ := List.exists_cons_of_ne_nil hwork
    exact .inl ⟨.startWork, trivial, by cases w <;> simp [step, hhttpd, startWork, hwork]⟩
  by_cases hdelegated : s.delegated = []
  case neg =>
    obtain ⟨c, rest, hdelegated⟩ := List.exists_cons_of_ne_nil hdelegated
    exact .inl ⟨.snapshot [], trivial, by simp [step, hup, hdelegate, hdelegated, Readable]⟩
  by_cases hevents : s.events = []
  case neg => exact .inl (events_canMove hup hloop hdelegated hevents)
  exact .inr ⟨hhttpd, hloop, hdelegate, hwork, hevents, hdelegated⟩

/-- Where the tasks rest, only a command on the radio is pending. -/
theorem Resting.onAir_of_pending {r : Req} (h : Resting s) (hpending : Pending s r) :
    ∃ u ∈ tokens s, u.ctx.owner = r ∧ u.place = .onAir ∧ u.ctx ∈ s.onAir := by
  rcases hpending with ⟨u, hu, howner, hstuck⟩ | ⟨j, hj, -⟩
  · have htokens : tokens s = placed .onAir s.onAir + lostTokens s.trace := by
      simp [tokens, h.httpd, h.loop, h.delegate, h.work, h.events, h.delegated, workTokens]
    have hmem := hu
    rw [htokens] at hmem
    rcases Multiset.mem_add.mp hmem with hair | hlost
    · obtain ⟨c, hc, rfl⟩ := List.mem_map.mp (Multiset.mem_coe.mp hair)
      exact ⟨_, hu, howner, rfl, hc⟩
    · rw [stuck_of_lost hlost] at hstuck
      exact Bool.noConfusion hstuck
  · simp [workJobs, h.httpd, h.work] at hj

/-- A pending log request waits for none but the three tasks. -/
theorem Sound.canMove_of_log (h : Sound s) (hup : s.httpd ≠ .crashed) {r : Req}
    (hlog : r.command = .log) (hpending : Pending s r) : CanMove s := by
  rcases h.canMove_or_resting hup with hmove | hrest
  · exact hmove
  · obtain ⟨u, hu, rfl, hplace, -⟩ := hrest.onAir_of_pending hpending
    have hok := (h.inv.owned.held u hu).2
    rw [hplace] at hok
    exact absurd hlog hok.1

/-- Any other pending request waits for them or for the radio. -/
theorem Sound.not_stuck (h : Sound s) (hup : s.httpd ≠ .crashed) {r : Req}
    (hpending : Pending s r) : ∃ l : Label, ¬ l.Arrival ∧ (step s l).isSome := by
  rcases h.canMove_or_resting hup with ⟨l, hl, hstep⟩ | hrest
  · refine ⟨l, fun harrival => ?_, hstep⟩
    cases l <;> trivial
  · obtain ⟨u, -, -, -, hair⟩ := hrest.onAir_of_pending hpending
    exact ⟨.ack u.ctx true, id, by simp [step, hup, hrest.loop, hair]⟩

end HomeNode.Http
