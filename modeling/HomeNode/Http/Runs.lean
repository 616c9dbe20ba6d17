-- SUMMARY: Every run of the request system: what holds of its slots, pools and data in each state it reaches.
import HomeNode.Http.Streaming

/-!
# Runs of the request system

The cases of the last two modules, put together: every step keeps the invariant.
A second, smaller one says when a piece of the log is dropped; only the delegate
task can break it, and the steps of the others are `Aside`.
-/

namespace HomeNode.Http

variable {s t : State} {c : Ctx} {obs : List Obs}

/-! ## Pieces and empty pools -/

/-- A piece is dropped exactly when a pool was empty, and a snapshot is read in
pieces that fit the buffer. -/
def Obs.Fair : Obs → Prop
  | .offered _ o => o.fate = .dropped ↔ o.exhausted
  | .snapshot _ pieces => Readable pieces
  | _ => True

/-- The allocations so far failed exactly when a pool was empty. -/
def DelegatePc.Fair : DelegatePc → Prop
  | .allocJob _ _ _ exhausted chunk => chunk = none ↔ exhausted
  | .queueData _ _ _ exhausted chunk job => chunk = none ∨ job = none ↔ exhausted
  | _ => True

structure Fair (s : State) : Prop where
  delegate : s.delegate.Fair
  trace : ∀ o ∈ s.trace, o.Fair

theorem Fair.log (h : ∀ o ∈ s.trace, o.Fair) (hobs : ∀ o ∈ obs, o.Fair) :
    ∀ o ∈ s.trace ++ obs, o.Fair := by
  intro o ho
  rcases List.mem_append.mp ho with ho | ho
  · exact h o ho
  · exact hobs o ho

theorem delegateStep_fair {a : Answer} (h : Fair s) (hstep : delegateStep s a = some t) :
    Fair t := by
  have hdelegate := h.delegate
  cases delegateStep_kind hstep with
  | allocChunk c piece rest res bank hpc halloc =>
    exact ⟨Bank.alloc_eq_none_iff halloc, h.trace⟩
  | allocJob c piece rest exhausted chunk res bank hpc halloc =>
    rw [hpc] at hdelegate
    have hchunk : chunk = none ↔ exhausted := hdelegate
    refine ⟨?_, h.trace⟩
    show chunk = none ∨ res = none ↔ exhausted || s.jobBank.exhausted
    rw [Bank.alloc_eq_none_iff halloc, hchunk, Bool.or_eq_true]
  | queueData c piece rest exhausted chunk job accepted hpc =>
    rw [hpc] at hdelegate
    cases chunk with
    | none =>
      have hexhausted : exhausted = true := hdelegate.mp (.inl rfl)
      cases job <;> exact ⟨trivial, Fair.log h.trace (by simp [Obs.Fair, hexhausted])⟩
    | some ch =>
      cases job with
      | none =>
        have hexhausted : exhausted = true := hdelegate.mp (.inr rfl)
        exact ⟨trivial, Fair.log h.trace (by simp [Obs.Fair, hexhausted])⟩
      | some j =>
        have hfree : exhausted = false := by simpa [DelegatePc.Fair] using hdelegate
        cases accepted <;> exact ⟨trivial, Fair.log h.trace (by simp [Obs.Fair, hfree])⟩
  | queueClose c hpc => exact ⟨trivial, h.trace⟩
  | loseClose c hpc => exact ⟨trivial, Fair.log h.trace (by simp [Obs.Fair])⟩

/-- No piece is read or offered, and no request begins. -/
def Obs.Plain : Obs → Prop
  | .offered _ _ | .snapshot _ _ | .begun _ => False
  | _ => True

theorem Obs.Plain.fair {o : Obs} (h : o.Plain) : o.Fair := by
  cases o with
  | offered _ _ | snapshot _ _ | begun _ => exact h.elim
  | command _ _ | call _ _ _ | freed _ _ | lost _ _ => trivial

/-- A step of another task than the delegate, with no new request. -/
structure Aside (s t : State) : Prop where
  delegate : t.delegate = s.delegate
  trace : ∃ obs, t.trace = s.trace ++ obs ∧ ∀ o ∈ obs, o.Plain

theorem Aside.fair (ha : Aside s t) (h : Fair s) : Fair t := by
  obtain ⟨obs, htrace, hobs⟩ := ha.trace
  refine ⟨by rw [ha.delegate]; exact h.delegate, ?_⟩
  rw [htrace]
  exact Fair.log h.trace fun o ho => (hobs o ho).fair

theorem calls_plain (c : Ctx) (r : Req) (hs : List HttpdCall) : ∀ o ∈ calls c r hs, o.Plain := by
  intro o ho
  obtain ⟨call, -, rfl⟩ := List.mem_map.mp ho
  trivial

theorem answerStep_aside {pc : AnswerPc} {next : Option AnswerPc}
    (hstep : answerStep s c pc = some (t, next)) : Aside s t := by
  cases pc with
  | respond text =>
    cases hreq : (s.slots c.slot).req with
    | none => simp [answerStep, hreq] at hstep
    | some r =>
      simp only [answerStep, hreq, Option.some.injEq, Prod.mk.injEq] at hstep
      obtain ⟨rfl, -⟩ := hstep
      exact ⟨rfl, _, rfl, calls_plain c r _⟩
  | complete =>
    cases hreq : (s.slots c.slot).req with
    | none =>
      simp only [answerStep, hreq, Option.some.injEq, Prod.mk.injEq] at hstep
      obtain ⟨rfl, -⟩ := hstep
      exact ⟨rfl, [], by simp, by simp⟩
    | some r =>
      simp only [answerStep, hreq, Option.some.injEq, Prod.mk.injEq] at hstep
      obtain ⟨rfl, -⟩ := hstep
      exact ⟨rfl, _, rfl, calls_plain c r _⟩
  | free =>
    simp only [answerStep, Option.some.injEq, Prod.mk.injEq] at hstep
    obtain ⟨rfl, -⟩ := hstep
    exact ⟨rfl, _, rfl, by simp [Obs.Plain]⟩

theorem httpdStep_aside {accepted : Bool} (hstep : httpdStep s accepted = some t) : Aside s t := by
  cases hpc : s.httpd with
  | idle | callback c | crashed => simp [httpdStep, hpc] at hstep
  | answering c pc =>
    obtain ⟨u, next, hanswer, rfl⟩ := httpdStep_answering hpc hstep
    obtain ⟨hdelegate, htrace⟩ := answerStep_aside hanswer
    exact ⟨hdelegate, htrace⟩
  | dataWorker j pc =>
    cases hjob : s.jobs j with
    | none => simp [httpdStep, hpc, hjob] at hstep
    | some job =>
      simp only [httpdStep, hpc, hjob] at hstep
      cases pc with
      | send =>
        cases hreq : (s.slots job.ctx.slot).req with
        | none => simp [dataWorkerStep, hreq] at hstep
        | some r =>
          simp only [dataWorkerStep, hreq, Option.some.injEq] at hstep
          subst hstep
          exact ⟨rfl, _, rfl, calls_plain job.ctx r _⟩
      | freeChunk | freeJob =>
        obtain rfl := Option.some.inj hstep
        exact ⟨rfl, [], by simp, by simp⟩
  | closeWorker c pc =>
    simp only [httpdStep, hpc] at hstep
    cases pc with
    | sendEnd | complete =>
      cases hreq : (s.slots c.slot).req with
      | none => simp [closeWorkerStep, hreq] at hstep
      | some r =>
        simp only [closeWorkerStep, hreq, Option.some.injEq] at hstep
        subst hstep
        exact ⟨rfl, _, rfl, calls_plain c r _⟩
    | queueFinalize =>
      cases accepted with
      | true =>
        obtain rfl := Option.some.inj hstep
        exact ⟨rfl, [], by simp, by simp⟩
      | false =>
        obtain rfl := Option.some.inj hstep
        exact ⟨rfl, _, rfl, by simp [Obs.Plain]⟩
  | finalizeWorker c =>
    simp only [httpdStep, hpc, Option.some.injEq] at hstep
    subst hstep
    exact ⟨rfl, _, rfl, by simp [Obs.Plain]⟩

theorem loopStep_aside (hstep : loopStep s = some t) : Aside s t := by
  cases hpc : s.loop with
  | idle => simp [loopStep, hpc] at hstep
  | answering c pc =>
    obtain ⟨u, next, hanswer, rfl⟩ := loopStep_answering hpc hstep
    obtain ⟨hdelegate, htrace⟩ := answerStep_aside hanswer
    exact ⟨hdelegate, htrace⟩

/-- A new request leaves the delegate task alone, and only its beginning is seen. -/
theorem dispatch_log {command : Command} {socket : Socket} {slot : Option SlotId}
    (hstep : masterRequestHandler s command socket slot = some t) :
    t.delegate = s.delegate ∧ ∃ obs, t.trace = s.trace ++ obs ∧
      (obs = [] ∨ ∃ c, obs = [.begun c] ∧ c.owner.socket = socket) := by
  unfold masterRequestHandler at hstep
  cases halloc : s.slotBank.alloc slot with
  | none => simp [halloc] at hstep
  | some bank =>
    cases slot with
    | none =>
      obtain rfl : { s with httpd := .crashed } = t := by simpa [halloc] using hstep
      exact ⟨rfl, [], by simp, .inl rfl⟩
    | some i =>
      simp only [halloc, Option.some.injEq] at hstep
      subst hstep
      exact ⟨rfl, _, rfl, .inr ⟨_, rfl, rfl⟩⟩

theorem post_aside (s : State) (c : Ctx) (ok : Bool) : Aside s (postEvent s c ok) := by
  cases ok with
  | true | false => exact ⟨rfl, _, rfl, by simp [Obs.Plain]⟩

theorem startWork_aside (hstep : startWork s = some t) : Aside s t := by
  unfold startWork at hstep
  cases hwork : s.work with
  | nil => simp [hwork] at hstep
  | cons w rest =>
    cases w with
    | data j | close c | finalize c =>
      simp only [hwork, Option.some.injEq] at hstep
      subst hstep
      exact ⟨rfl, [], by simp, by simp⟩

theorem inform_aside (s : State) (c : Ctx) (e : CommandEvent) (success : Bool) :
    Aside s (inform (s.log [.command c e]) c success) :=
  ⟨rfl, _, rfl, by simp [Obs.Plain]⟩

theorem sendCommand_aside (s : State) (c : Ctx) (m : MessageCommand) (ok : Bool) :
    Aside s (sendCommand s c m ok) := by
  cases ok with
  | true => exact ⟨rfl, _, rfl, by simp [Obs.Plain]⟩
  | false => exact inform_aside s c (.sent m false) false

theorem handle_aside {sent : Bool} (hstep : handleEvent s c sent = some t) : Aside s t := by
  unfold handleEvent at hstep
  cases hcommand : c.owner.command with
  | gateOpen | gateClose | gateStatus =>
    simp only [hcommand, Option.some.injEq] at hstep
    subst hstep
    exact sendCommand_aside s c _ sent
  | log =>
    by_cases hfull : s.delegated.length < delegateQueueLength
    · simp only [hcommand, hfull, if_true, Option.some.injEq] at hstep
      subst hstep
      exact ⟨rfl, [], by simp, by simp⟩
    · simp [hcommand, hfull] at hstep
  | otaUpdate =>
    simp only [hcommand, Option.some.injEq] at hstep
    subst hstep
    exact inform_aside s c .otaStarted true

theorem delegateStep_log {a : Answer} (hstep : delegateStep s a = some t) :
    ∃ obs, t.trace = s.trace ++ obs ∧ ∀ c, .begun c ∉ obs := by
  cases delegateStep_kind hstep with
  | allocChunk | allocJob | queueClose => exact ⟨[], by simp, by simp⟩
  | queueData c piece rest exhausted chunk job accepted =>
    cases chunk <;> cases job <;> cases accepted <;> exact ⟨_, rfl, by simp⟩
  | loseClose c => exact ⟨_, rfl, by simp⟩

/-! ## Steps -/

/-- What a step does to the invariants: it is a new request, a step of the delegate
task, or `Aside`. -/
inductive StepEffect (s : State) : Label → State → Prop where
  | dispatch (command : Command) (socket : Socket) (slot : Option SlotId) (t : State)
    (idle : s.httpd = .idle) (step : masterRequestHandler s command socket slot = some t) :
    StepEffect s (.dispatch command socket slot) t
  | aside (l : Label) (t : State) (inv : Inv s → Inv t) (aside : Aside s t)
    (other : ∀ command socket slot, l ≠ .dispatch command socket slot) : StepEffect s l t
  | snapshot (c : Ctx) (rest : List Ctx) (pieces : List Piece) (idle : s.delegate = .idle)
    (delegated : s.delegated = c :: rest) (readable : Readable pieces) :
    StepEffect s (.snapshot pieces) (State.log { s with
      delegated := rest, delegate := .reading c pieces } [.snapshot c pieces])
  | delegate (a : Answer) (t : State) (step : delegateStep s a = some t) :
    StepEffect s (.delegate a) t

theorem step_effect {l : Label} (hstep : step s l = some t) : StepEffect s l t := by
  cases step_kind hstep with
  | dispatch command socket slot _ hidle hdispatch =>
    exact .dispatch command socket slot t hidle hdispatch
  | post c ok hpc => exact .aside _ _ (fun h => post_inv h hpc) (post_aside s c ok) nofun
  | httpd accepted _ hhttpd =>
    exact .aside _ _ (fun h => httpdStep_inv h hhttpd) (httpdStep_aside hhttpd) nofun
  | startWork _ hidle hwork =>
    exact .aside _ _ (fun h => startWork_inv h hidle hwork) (startWork_aside hwork) nofun
  | handle c rest sent _ hloop hevents hhandle =>
    obtain ⟨hdelegate, htrace⟩ := handle_aside hhandle
    exact .aside _ _ (fun h => handle_inv h hloop hevents hhandle) ⟨hdelegate, htrace⟩ nofun
  | ack c success hloop hc =>
    obtain ⟨hdelegate, htrace⟩ := inform_aside { s with onAir := s.onAir.erase c } c
      (.acked success) success
    exact .aside _ _ (fun h => ack_inv h hloop hc) ⟨hdelegate, htrace⟩ nofun
  | loop _ hloop =>
    refine .aside _ _ (fun h => ?_) (loopStep_aside hloop) nofun
    cases hpc : s.loop with
    | idle => simp [loopStep, hpc] at hloop
    | answering c pc => exact loopAnswer_inv h hpc hloop
  | snapshot c rest pieces hidle hdelegated hreadable =>
    exact .snapshot c rest pieces hidle hdelegated hreadable
  | delegate a _ hdelegate => exact .delegate a t hdelegate

/-- A step adds to the trace, and only a dispatch adds the beginning of a request. -/
theorem step_log {l : Label} (hstep : step s l = some t) : ∃ obs, t.trace = s.trace ++ obs ∧
    ∀ c, .begun c ∈ obs →
      obs = [.begun c] ∧ ∃ command slot, l = .dispatch command c.owner.socket slot := by
  cases step_effect hstep with
  | dispatch command socket slot _ _ hdispatch =>
    obtain ⟨-, obs, htrace, hobs⟩ := dispatch_log hdispatch
    refine ⟨obs, htrace, fun c hc => ?_⟩
    rcases hobs with rfl | ⟨c', rfl, hsocket⟩
    · exact absurd hc List.not_mem_nil
    · obtain rfl := Obs.begun.inj (List.mem_singleton.mp hc)
      exact ⟨rfl, command, slot, by rw [hsocket]⟩
  | aside _ _ _ haside =>
    obtain ⟨obs, htrace, hobs⟩ := haside.trace
    exact ⟨obs, htrace, fun c hc => (hobs _ hc).elim⟩
  | snapshot c rest pieces => exact ⟨_, rfl, by simp⟩
  | delegate a _ hdelegate =>
    obtain ⟨obs, htrace, hobs⟩ := delegateStep_log hdelegate
    exact ⟨obs, htrace, fun c hc => absurd hc (hobs c)⟩

/-! ## Runs -/

/-- What holds in every state of every run. -/
structure Sound (s : State) : Prop where
  inv : Inv s
  readable : Readable s.delegate.pieces
  fair : Fair s

theorem sound_init : Sound .init := by
  refine ⟨⟨⟨Bank.Holds.empty, Multiset.nodup_zero, ?_, ?_, ?_, ?_⟩,
    ⟨Bank.Holds.empty, Bank.Holds.empty, ?_, ?_, List.Pairwise.nil⟩⟩, ?_, trivial, ?_⟩
  · exact fun t ht => absurd ht (Multiset.notMem_zero t)
  · exact fun _ _ => rfl
  · exact fun _ _ => .inl rfl
  · exact fun o ho => absurd ho List.not_mem_nil
  · exact fun j hj => absurd hj List.not_mem_nil
  · exact fun j hj => absurd hj List.not_mem_nil
  · exact fun p hp => absurd hp List.not_mem_nil
  · exact fun o ho => absurd ho List.not_mem_nil

theorem sound_preserved : Transition.Preserved step Sound := by
  intro s l t h hstep
  cases step_effect hstep with
  | dispatch command socket slot _ hidle hdispatch =>
    obtain ⟨hdelegate, obs, htrace, hobs⟩ := dispatch_log hdispatch
    refine ⟨dispatch_inv h.inv hidle hdispatch, by rw [hdelegate]; exact h.readable,
      by rw [hdelegate]; exact h.fair.delegate, ?_⟩
    rw [htrace]
    apply Fair.log h.fair.trace
    rcases hobs with rfl | ⟨c, rfl, -⟩ <;> simp [Obs.Fair]
  | aside _ _ hinv haside =>
    exact ⟨hinv h.inv, by rw [haside.delegate]; exact h.readable, haside.fair h.fair⟩
  | snapshot c rest pieces hidle hdelegated hreadable =>
    exact ⟨snapshot_inv h.inv hidle hdelegated, hreadable, trivial,
      Fair.log h.fair.trace (by simpa [Obs.Fair] using hreadable)⟩
  | delegate a _ hdelegate =>
    obtain ⟨hinv, hreadable⟩ := delegateStep_inv h.inv h.readable hdelegate
    exact ⟨hinv, hreadable, delegateStep_fair h.fair hdelegate⟩

theorem run_sound {ls : List Label} (hrun : run ls = some t) : Sound t :=
  sound_preserved.run sound_init hrun

theorem run_eq_getD {ls : List Label} (h : (run ls).isSome) :
    run ls = some ((run ls).getD .init) := by
  obtain ⟨t, ht⟩ := Option.isSome_iff_exists.mp h
  rw [ht, Option.getD_some]

end HomeNode.Http
