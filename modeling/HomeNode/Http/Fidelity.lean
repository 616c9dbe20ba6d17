-- SUMMARY: The chunks of a log response against the pieces they were made of: they are the same exactly when no piece that is sent has a NUL.
import HomeNode.Http.LogStream

/-!
# Fidelity of log chunks

`log_snapshot_read` returns a piece with its length, and `user_request_response_send_log` is
given both. Behind it the piece is a C string: `strncpy` copies it up to its first
NUL, and `strnlen` takes the length of what was copied.

The data jobs are a queue: what `http_server_send_chunked_response` puts in is what
`http_async_data_worker` sends, and in its order.
-/

namespace HomeNode.Http

/-! ## The property -/

/-- The pieces of `r` that `http_server_send_chunked_response` has queued. -/
def queuedPieces (r : Req) (tr : List Obs) : List Piece :=
  ((offersOf r tr).filter fun o => o.fate = .queued).map Offer.piece

/-- The chunks sent in `obs`, each with the request that gets it. -/
def chunksIn (obs : List Obs) : List (Req × List UInt8) :=
  obs.filterMap fun
    | .call _ on (.sendChunk bs) => some (on, bs)
    | _ => none

/-- The chunks that a step of `http_async_data_worker` sends. -/
def dataChunks (s : State) (l : Label) : List (Req × List UInt8) :=
  match s.httpd, l with
  | .dataWorker _ _, .httpd _ => chunksIn (added s l)
  | _, _ => []

def chunksFor (r : Req) (chunks : List (Req × List UInt8)) : List (List UInt8) :=
  (chunks.filter fun chunk => chunk.1 = r).map Prod.snd

/-- The chunks that `http_async_data_worker` has sent on `r`. -/
def dataSent (r : Req) (ls : List Label) : List (List UInt8) :=
  chunksFor r (Transition.output step dataChunks .init ls)

structure Faithful (ls : List Label) (t : State) : Prop where
  /-- the pieces are read from the request's own snapshot -/
  read : ∀ r, (offersOf r t.trace).map Offer.piece <+: (snapshotsOf r t.trace).flatten
  /-- each chunk is the piece whose turn it is, byte for byte -/
  bytes : ∀ r, dataSent r ls <+: queuedPieces r t.trace
  /-- and none is the chunk of no bytes -/
  nonempty : ∀ r, [] ∉ dataSent r ls
  /-- all of them are sent when no step is left to be made for the request -/
  all : ∀ r, ¬ Pending t r → dataSent r ls = queuedPieces r t.trace
  /-- which waits for none but the three tasks -/
  goes_on : t.httpd ≠ .crashed → ∀ r : Req, r.command = .log → Pending t r → CanMove t
  /-- and these stop when no more requests arrive -/
  ends : Transition.Ends step (fun l => ¬ l.Arrival) t

/-- No piece whose turn has come has a NUL. -/
def NulFree (ls : List Label) (t : State) : Prop :=
  ∀ r, ∀ piece ∈ (queuedPieces r t.trace).take (dataSent r ls).length, 0 ∉ piece

/-! ## One step -/

variable {s t : State} {c : Ctx} {r : Req} {l : Label} {ls : List Label}

theorem pieceStr_bytes_iff (piece : Piece) : (pieceStr piece).bytes = piece ↔ 0 ∉ piece := by
  constructor
  · intro h hmem
    exact (pieceStr piece).nulFree (h.symm ▸ hmem)
  · exact pieceStr_bytes

theorem accepted_eq_map (offers : List Offer) :
    accepted offers = ((offers.filter fun o => o.fate = .queued).map Offer.piece).map
      fun piece => (pieceStr piece).bytes := by
  rw [accepted, List.map_map]
  rfl

theorem chunksFor_append (r : Req) (as bs : List (Req × List UInt8)) :
    chunksFor r (as ++ bs) = chunksFor r as ++ chunksFor r bs := by
  simp [chunksFor]

theorem chunksIn_calls (c : Ctx) (on : Req) (hs : List HttpdCall) :
    chunksIn (calls c on hs) = hs.filterMap fun
      | .sendChunk bs => some (on, bs)
      | _ => none := by
  rw [chunksIn, calls, List.filterMap_map]
  apply List.filterMap_congr
  intro h _
  cases h <;> rfl

/-- Neither the queued data nor the offers change. -/
structure Undisturbed (s t : State) : Prop where
  jobs : t.jobs = s.jobs
  chunks : t.chunks = s.chunks
  unsent : unsentJobs t = unsentJobs s
  offers : ∀ r, offersOf r t.trace = offersOf r s.trace

theorem offersOf_append (r : Req) (tr obs : List Obs) :
    offersOf r (tr ++ obs) = offersOf r tr ++ offersOf r obs :=
  List.filterMap_append

theorem offersOf_of_plain {obs : List Obs} (h : ∀ o ∈ obs, o.Plain) (r : Req) :
    offersOf r obs = [] := by
  apply List.filterMap_eq_nil_iff.mpr
  intro o ho
  cases o with
  | offered _ _ => exact (h _ ho).elim
  | begun _ | command _ _ | call _ _ _ | freed _ _ | snapshot _ _ | lost _ _ => rfl

theorem Aside.undisturbed (h : Aside s t) (hjobs : t.jobs = s.jobs) (hchunks : t.chunks = s.chunks)
    (hunsent : unsentJobs t = unsentJobs s) : Undisturbed s t := by
  refine ⟨hjobs, hchunks, hunsent, fun r => ?_⟩
  obtain ⟨obs, htrace, hobs⟩ := h.trace
  rw [htrace, offersOf_append, offersOf_of_plain hobs, List.append_nil]

theorem answerStep_undisturbed {pc : AnswerPc} {next : Option AnswerPc} {u : State}
    (hstep : answerStep s c pc = some (u, next)) :
    u.jobs = s.jobs ∧ u.chunks = s.chunks ∧ u.httpd = s.httpd ∧ u.work = s.work := by
  cases pc with
  | respond text =>
    cases hreq : (s.slots c.slot).req with
    | none => simp [answerStep, hreq] at hstep
    | some r =>
      simp only [answerStep, hreq, Option.some.injEq, Prod.mk.injEq] at hstep
      obtain ⟨rfl, -⟩ := hstep
      exact ⟨rfl, rfl, rfl, rfl⟩
  | complete =>
    cases hreq : (s.slots c.slot).req with
    | none | some r =>
      simp only [answerStep, hreq, Option.some.injEq, Prod.mk.injEq] at hstep
      obtain ⟨rfl, -⟩ := hstep
      exact ⟨rfl, rfl, rfl, rfl⟩
  | free =>
    simp only [answerStep, Option.some.injEq, Prod.mk.injEq] at hstep
    obtain ⟨rfl, -⟩ := hstep
    exact ⟨rfl, rfl, rfl, rfl⟩

/-- The httpd task leaves the data alone, but for the step that sends it. -/
theorem httpdStep_undisturbed {accepted : Bool} (hsend : ∀ j, s.httpd ≠ .dataWorker j .send)
    (hstep : httpdStep s accepted = some t) : Undisturbed s t := by
  apply (httpdStep_aside hstep).undisturbed
  all_goals
    cases hpc : s.httpd with
    | idle | callback c | crashed => simp [httpdStep, hpc] at hstep
    | answering c pc =>
      obtain ⟨u, next, hanswer, rfl⟩ := httpdStep_answering hpc hstep
      obtain ⟨hjobs, hchunks, -, hwork⟩ := answerStep_undisturbed hanswer
      cases next <;> simp [unsentJobs, HttpdPc.after, *]
    | dataWorker j pc =>
      cases hjob : s.jobs j with
      | none => simp [httpdStep, hpc, hjob] at hstep
      | some job =>
        simp only [httpdStep, hpc, hjob] at hstep
        cases pc with
        | send => exact absurd hpc (hsend j)
        | freeChunk | freeJob =>
          obtain rfl := Option.some.inj hstep
          simp [unsentJobs, hpc]
    | closeWorker c pc =>
      simp only [httpdStep, hpc] at hstep
      cases pc with
      | sendEnd | complete =>
        cases hreq : (s.slots c.slot).req with
        | none => simp [closeWorkerStep, hreq] at hstep
        | some r =>
          simp only [closeWorkerStep, hreq, Option.some.injEq] at hstep
          subst hstep
          simp [unsentJobs, State.log, hpc]
      | queueFinalize =>
        cases accepted with
        | true | false =>
          obtain rfl := Option.some.inj hstep
          simp [unsentJobs, State.log, hpc]
    | finalizeWorker c =>
      simp only [httpdStep, hpc, Option.some.injEq] at hstep
      subst hstep
      simp [unsentJobs, State.freeSlot, State.log, hpc]

theorem sendCommand_jobs (s : State) (c : Ctx) (m : MessageCommand) (ok : Bool) :
    (sendCommand s c m ok).jobs = s.jobs ∧ (sendCommand s c m ok).chunks = s.chunks ∧
      unsentJobs (sendCommand s c m ok) = unsentJobs s := by
  cases ok <;> exact ⟨rfl, rfl, rfl⟩

theorem handleEvent_undisturbed {rest : List Ctx} {ok : Bool}
    (hstep : handleEvent { s with events := rest } c ok = some t) : Undisturbed s t := by
  obtain ⟨hdelegate, htrace⟩ := handle_aside hstep
  have haside : Aside s t := ⟨hdelegate, htrace⟩
  unfold handleEvent at hstep
  cases hcommand : c.owner.command with
  | gateOpen | gateClose | gateStatus =>
    simp only [hcommand, Option.some.injEq] at hstep
    subst hstep
    obtain ⟨hjobs, hchunks, hunsent⟩ := sendCommand_jobs { s with events := rest } c _ ok
    exact haside.undisturbed hjobs hchunks hunsent
  | log =>
    by_cases hfull : s.delegated.length < delegateQueueLength
    · simp only [hcommand, hfull, if_true, Option.some.injEq] at hstep
      subst hstep
      exact haside.undisturbed rfl rfl rfl
    · simp [hcommand, hfull] at hstep
  | otaUpdate =>
    simp only [hcommand, Option.some.injEq] at hstep
    subst hstep
    exact haside.undisturbed rfl rfl rfl

theorem startWork_undisturbed (hidle : s.httpd = .idle) (hstep : startWork s = some t) :
    Undisturbed s t := by
  have haside := startWork_aside hstep
  unfold startWork at hstep
  cases hwork : s.work with
  | nil => simp [hwork] at hstep
  | cons w rest =>
    cases w with
    | data j | close c | finalize c =>
      simp only [hwork, Option.some.injEq] at hstep
      subst hstep
      exact haside.undisturbed rfl rfl (by simp [unsentJobs, hidle, hwork, List.filterMap_cons])

theorem dispatch_undisturbed {command : Command} {socket : Socket} {slot : Option SlotId}
    (hidle : s.httpd = .idle) (hstep : masterRequestHandler s command socket slot = some t) :
    Undisturbed s t := by
  unfold masterRequestHandler at hstep
  cases halloc : s.slotBank.alloc slot with
  | none => simp [halloc] at hstep
  | some bank =>
    cases slot with
    | none =>
      obtain rfl : { s with httpd := .crashed } = t := by simpa [halloc] using hstep
      exact ⟨rfl, rfl, by simp [unsentJobs, hidle], fun _ => rfl⟩
    | some i =>
      simp only [halloc, Option.some.injEq] at hstep
      subst hstep
      exact ⟨rfl, rfl, by simp [unsentJobs, State.log, hidle],
        fun r => by simp [State.log, offersOf]⟩

/-- What goes through the queue of the data jobs in a step: what is accepted joins it, and what is
sent leaves it. -/
def Flows (s : State) (l : Label) (t : State) (r : Req) : Prop :=
  ∃ new, accepted (offersOf r t.trace) = accepted (offersOf r s.trace) ++ new ∧
    queued s r ++ new = chunksFor r (dataChunks s l) ++ queued t r

theorem Undisturbed.flows (h : Undisturbed s t) (hnone : dataChunks s l = []) (r : Req) :
    Flows s l t r :=
  ⟨[], by rw [h.offers, List.append_nil],
    by rw [hnone, queued_congr h.jobs h.chunks h.unsent, List.append_nil]; rfl⟩

theorem send_flows {accepted : Bool} {j : JobId} (h : Sound s) (hpc : s.httpd = .dataWorker j .send)
    (hstep : httpdStep s accepted = some t) (r : Req) : Flows s (.httpd accepted) t r := by
  obtain ⟨job, hjob⟩ := h.inv.jobs.written j (by simp [workJobs, hpc])
  obtain ⟨p, hmem, -⟩ := h.inv.jobs.feeding j (by simp [unsentJobs, hpc]) job hjob
  have hreq := h.inv.owned.req hmem
  have hdata : ∃ hs, t.trace = s.trace ++ calls job.ctx job.ctx.owner
        (hs ++ [.sendChunk (s.chunks job.chunk).sent]) ∧ (hs = [] ∨ hs = responseHeaders) ∧
      t.jobs = s.jobs ∧ t.chunks = s.chunks ∧ unsentJobs s = j :: unsentJobs t := by
    simp only [httpdStep, hpc, hjob, dataWorkerStep, hreq, Option.some.injEq] at hstep
    subst hstep
    refine ⟨_, rfl, ?_, rfl, rfl, by simp [unsentJobs, State.log, hpc]⟩
    cases (s.slots job.ctx.slot).responseStarted <;> simp
  obtain ⟨hs, htrace, hheaders, hjobs, hchunks, hunsent⟩ := hdata
  have hadded : added s (.httpd accepted) =
      calls job.ctx job.ctx.owner (hs ++ [.sendChunk (s.chunks job.chunk).sent]) := by
    have hgo : step s (.httpd accepted) = some t := by simpa [step, hpc] using hstep
    simp [added, hgo, htrace]
  have hchunk : dataChunks s (.httpd accepted) =
      [(job.ctx.owner, (s.chunks job.chunk).sent)] := by
    simp only [dataChunks, hpc, hadded, chunksIn_calls]
    rcases hheaders with rfl | rfl <;> simp [responseHeaders]
  have hoffers : offersOf r t.trace = offersOf r s.trace := by
    rw [htrace, offersOf_append, offersOf_of_plain (calls_plain _ _ _), List.append_nil]
  have hpayload : payload t r = payload s r := by
    unfold payload
    rw [hjobs, hchunks]
  refine ⟨[], by rw [hoffers, List.append_nil], ?_⟩
  rw [List.append_nil, hchunk, queued, queued, hunsent, List.filterMap_cons, hpayload]
  by_cases hr : job.ctx.owner = r <;> simp [payload, hjob, chunksFor, hr]

theorem accepted_offered (r : Req) (tr : List Obs) (c : Ctx) (o : Offer) (obs : List Obs)
    (hobs : offersOf r obs = []) : accepted (offersOf r (tr ++ .offered c o :: obs)) =
      accepted (offersOf r tr) ++
        if c.owner = r ∧ o.fate = .queued then [(pieceStr o.piece).bytes] else [] := by
  have hcons : offersOf r (.offered c o :: obs) = if c.owner = r then [o] else [] := by
    by_cases hr : c.owner = r <;> simpa [offersOf, hr] using hobs
  rw [offersOf_append, hcons]
  by_cases hr : c.owner = r <;> simp [hr]

/-- A piece that is not queued is not accepted. -/
theorem accepted_refused (r : Req) (tr : List Obs) (c : Ctx) (o : Offer) (obs : List Obs)
    (hobs : offersOf r obs = []) (hfate : o.fate ≠ .queued) :
    accepted (offersOf r (tr ++ .offered c o :: obs)) = accepted (offersOf r tr) ++ [] := by
  rw [accepted_offered r tr c o obs hobs, if_neg fun h => hfate h.2]

theorem queueData_flows {piece : Piece} {rest : List Piece} {exhausted : Bool}
    {chunk : Option ChunkId} {job : Option JobId} {ok : Bool} (h : Sound s)
    (hpc : s.delegate = .queueData c piece rest exhausted chunk job)
    (hnone : dataChunks s l = []) (r : Req) :
    Flows s l (queueData s c piece rest exhausted chunk job ok) r := by
  cases chunk with
  | none =>
    cases job with
    | none | some j =>
      refine ⟨[], accepted_refused r s.trace c ⟨piece, exhausted, .dropped⟩ [] rfl nofun, ?_⟩
      rw [hnone, List.append_nil]
      rfl
  | some ch =>
    cases job with
    | none =>
      refine ⟨[], accepted_refused r s.trace c ⟨piece, exhausted, .dropped⟩ [] rfl nofun, ?_⟩
      rw [hnone, List.append_nil]
      rfl
    | some j =>
      have hfill := fill_queued h.inv hpc r
      cases ok with
      | false =>
        have hrejected : queued (queueData s c piece rest exhausted (some ch) (some j) false) r =
            queued s r := hfill
        refine ⟨[], accepted_refused r s.trace c ⟨piece, exhausted, .rejected⟩
          [.lost c (.data ch j)] rfl nofun, ?_⟩
        rw [hnone, hrejected, List.append_nil]
        rfl
      | true =>
        have hlen := (h.readable piece (by simp [hpc, DelegatePc.pieces])).2
        have hjob : (s.fill c piece ch j).jobs j = some ⟨c, ch⟩ := Function.update_self j _ s.jobs
        have hload : (s.fill c piece ch j).chunks ch = (s.chunks ch).load (pieceStr piece) :=
          Function.update_self ch _ s.chunks
        have hqueued : queued (queueData s c piece rest exhausted (some ch) (some j) true) r =
            queued s r ++ (payload (s.fill c piece ch j) r j).toList := by
          rw [← hfill]
          exact accept_queued (s.fill c piece ch j) c piece rest j r
        refine ⟨_, accepted_offered r s.trace c ⟨piece, exhausted, .queued⟩ [] rfl, ?_⟩
        rw [hnone, hqueued, payload, hjob]
        by_cases hr : c.owner = r <;> simp [hr, hload, sent_load_piece _ hlen, chunksFor]

theorem delegateStep_flows {a : Answer} (h : Sound s) (hstep : delegateStep s a = some t)
    (hnone : dataChunks s l = []) (r : Req) : Flows s l t r := by
  cases delegateStep_kind hstep with
  | allocChunk | allocJob =>
    refine Undisturbed.flows ?_ hnone r
    exact ⟨rfl, rfl, rfl, fun _ => rfl⟩
  | queueData c piece rest exhausted chunk job ok hpc => exact queueData_flows h hpc hnone r
  | queueClose c =>
    refine Undisturbed.flows ?_ hnone r
    exact ⟨rfl, rfl, by simp [unsentJobs], fun _ => rfl⟩
  | loseClose c =>
    refine Undisturbed.flows ?_ hnone r
    exact ⟨rfl, rfl, rfl, fun r => by simp [State.log, offersOf]⟩

theorem dataChunks_eq_nil (h : ∀ ok, l ≠ .httpd ok) : dataChunks s l = [] := by
  unfold dataChunks
  split
  case h_1 ok _ => exact absurd rfl (h ok)
  case h_2 => rfl

/-- None but the send of the data worker sends data. -/
theorem dataChunks_httpd {accepted : Bool} (hsend : ∀ j, s.httpd ≠ .dataWorker j .send)
    (hstep : httpdStep s accepted = some t) : dataChunks s (.httpd accepted) = [] := by
  unfold dataChunks
  split
  case h_2 => rfl
  case h_1 j pc _ hpc _ =>
    have hgo : step s (.httpd accepted) = some t := by simpa [step, hpc] using hstep
    have htrace : t.trace = s.trace := by
      cases hjob : s.jobs j with
      | none => simp [httpdStep, hpc, hjob] at hstep
      | some job =>
        simp only [httpdStep, hpc, hjob] at hstep
        cases pc with
        | send => exact absurd hpc (hsend j)
        | freeChunk | freeJob =>
          obtain rfl := Option.some.inj hstep
          rfl
    simp [added, hgo, htrace, chunksIn]

theorem step_flows (h : Sound s) (hstep : step s l = some t) (r : Req) : Flows s l t r := by
  cases step_kind hstep with
  | dispatch command socket slot _ hidle hdispatch =>
    exact (dispatch_undisturbed hidle hdispatch).flows (dataChunks_eq_nil (by simp)) r
  | post c ok hpc =>
    have hpost : Undisturbed s (postEvent s c ok) := by
      cases ok <;> exact (post_aside s c _).undisturbed rfl rfl
        (by simp [unsentJobs, postEvent, State.log, hpc])
    exact hpost.flows (dataChunks_eq_nil (by simp)) r
  | httpd accepted _ hhttpd =>
    by_cases hsend : ∃ j, s.httpd = .dataWorker j .send
    · obtain ⟨j, hpc⟩ := hsend
      exact send_flows h hpc hhttpd r
    · rw [not_exists] at hsend
      exact (httpdStep_undisturbed hsend hhttpd).flows (dataChunks_httpd hsend hhttpd) r
  | startWork _ hidle hwork =>
    exact (startWork_undisturbed hidle hwork).flows (dataChunks_eq_nil (by simp)) r
  | handle c rest ok _ _ _ hhandle =>
    exact (handleEvent_undisturbed hhandle).flows (dataChunks_eq_nil (by simp)) r
  | ack c success =>
    have hack : Undisturbed s (handleSendStatus s c success) :=
      ⟨rfl, rfl, rfl, fun r => by simp [handleSendStatus, inform, State.log, offersOf]⟩
    exact hack.flows (dataChunks_eq_nil (by simp)) r
  | loop _ hloop =>
    have hundisturbed : Undisturbed s t := by
      apply (loopStep_aside hloop).undisturbed
      all_goals
        cases hpc : s.loop with
        | idle => simp [loopStep, hpc] at hloop
        | answering c pc =>
          obtain ⟨u, next, hanswer, rfl⟩ := loopStep_answering hpc hloop
          obtain ⟨hjobs, hchunks, hhttpd, hwork⟩ := answerStep_undisturbed hanswer
          simp [unsentJobs, *]
    exact hundisturbed.flows (dataChunks_eq_nil (by simp)) r
  | snapshot c rest pieces =>
    refine Undisturbed.flows ?_ (dataChunks_eq_nil (by simp)) r
    exact ⟨rfl, rfl, rfl, fun r => by simp [State.log, offersOf]⟩
  | delegate a _ hdelegate => exact delegateStep_flows h hdelegate (dataChunks_eq_nil (by simp)) r

/-! ## Runs -/

/-- The data jobs lose nothing and keep the order: what was accepted was sent or is queued. -/
theorem dataSent_queued (hrun : run ls = some t) (r : Req) :
    dataSent r ls ++ queued t r = accepted (offersOf r t.trace) := by
  have hall : ∀ ls t, run ls = some t →
      dataSent r ls ++ queued t r = accepted (offersOf r t.trace) := by
    apply Transition.run_induction
    · rfl
    · intro ls t l u hls ih hstep
      obtain ⟨new, hnew, hflow⟩ := step_flows (run_sound hls) hstep r
      rw [hnew, ← ih, List.append_assoc, hflow, dataSent, dataSent, Transition.output_concat hls,
        chunksFor_append, List.append_assoc]
  exact hall ls t hrun

/-- No data is queued for a request without a step to come. -/
theorem queued_eq_nil (hpending : ¬ Pending s r) : queued s r = [] := by
  apply List.filterMap_eq_nil_iff.mpr
  intro j hj
  cases hjob : s.jobs j with
  | none => simp [payload, hjob]
  | some job =>
    have howner : job.ctx.owner ≠ r := by
      intro howner
      apply hpending
      exact .inr ⟨j, chunkJobs_subset_workJobs (unsent_subset_chunkJobs hj), by simp [hjob, howner]⟩
    simp [payload, hjob, howner]

/-- What is sent is what the C strings of the queued pieces leave of them, in their order. -/
theorem dataSent_eq (hrun : run ls = some t) (r : Req) : dataSent r ls =
    ((queuedPieces r t.trace).take (dataSent r ls).length).map fun piece =>
      (pieceStr piece).bytes := by
  have hpre : dataSent r ls <+:
      (queuedPieces r t.trace).map fun piece => (pieceStr piece).bytes := by
    rw [queuedPieces, ← accepted_eq_map]
    exact ⟨_, dataSent_queued hrun r⟩
  rw [List.map_take]
  exact List.prefix_iff_eq_take.mp hpre

/-- Where all bytes are those of the pieces, none has a NUL. -/
theorem nulFree_of_bytes (hrun : run ls = some t)
    (hbytes : ∀ r, dataSent r ls <+: queuedPieces r t.trace) : NulFree ls t := by
  intro r piece hpiece
  have hsame : (queuedPieces r t.trace).take (dataSent r ls).length =
      ((queuedPieces r t.trace).take (dataSent r ls).length).map fun piece =>
        (pieceStr piece).bytes :=
    (List.prefix_iff_eq_take.mp (hbytes r)).symm.trans (dataSent_eq hrun r)
  obtain ⟨n, hn⟩ := List.mem_iff_getElem?.mp hpiece
  have hmapped := congrArg (fun pieces => pieces[n]?) hsame
  simp only [List.getElem?_map, hn, Option.map_some, Option.some.injEq] at hmapped
  exact (pieceStr_bytes_iff piece).mp hmapped.symm

/-- A log without NULs makes no piece with one. -/
theorem nulFree_of_regular (hrun : run ls = some t) (hregular : ∀ o ∈ t.trace, o.Regular) :
    NulFree ls t := by
  intro r piece hpiece
  obtain ⟨o, ho, rfl⟩ := List.mem_map.mp (List.mem_of_mem_take hpiece)
  obtain ⟨c, pieces, hc, hmem⟩ :=
    (run_sound hrun).inv.owned.offered_read (List.mem_of_mem_filter ho)
  exact hregular _ hc _ hmem

/-- In a run the chunks are the pieces, byte for byte and all of them, exactly when no piece whose
turn has come has a NUL. -/
theorem faithful_iff_nulFree (hrun : run ls = some t) : Faithful ls t ↔ NulFree ls t := by
  constructor
  · exact fun h => nulFree_of_bytes hrun h.bytes
  · intro hfree
    have hbytes : ∀ r, dataSent r ls = (queuedPieces r t.trace).take (dataSent r ls).length := by
      intro r
      apply (dataSent_eq hrun r).trans
      rw [List.map_congr_left fun piece hpiece =>
        (pieceStr_bytes_iff piece).mpr (hfree r piece hpiece)]
      exact List.map_id' _
    have hsound := run_sound hrun
    refine ⟨hsound.inv.owned.offers_read, fun r => ?_, fun r hnil => ?_, fun r hpending => ?_,
      fun hup r hlog hpending => hsound.canMove_of_log hup hlog hpending, runs_end t⟩
    · rw [hbytes r]
      exact List.take_prefix _ _
    · rw [hbytes r] at hnil
      obtain ⟨o, ho, hempty⟩ := List.mem_map.mp (List.mem_of_mem_take hnil)
      exact hsound.piece_ne_nil (List.mem_of_mem_filter ho) hempty
    · have hall := dataSent_queued hrun r
      rw [queued_eq_nil hpending, List.append_nil, accepted_eq_map] at hall
      have hlength : (dataSent r ls).length = (queuedPieces r t.trace).length := by
        rw [hall, List.length_map]
        rfl
      rw [hbytes r, hlength, List.take_length]

/-- A log with bytes of every kind but NUL, in two pieces. -/
def twoPieceRun : List Label :=
  [.dispatch .log 0 (some 0), .post true, .handle true, .snapshot [[255, 10], [66]]] ++
    offerPiece 0 ++ offerPiece 1 ++ [.delegate (.queue true)] ++ serve 3 ++ serve 3 ++ serve 3 ++
    serve 1

theorem faithful_twoPieceRun :
    ∃ t, run twoPieceRun = some t ∧ Faithful twoPieceRun t ∧
      dataSent ⟨0, .log, 0⟩ twoPieceRun = [[255, 10], [66]] := by
  have hrun : run twoPieceRun = some ((run twoPieceRun).getD .init) :=
    run_eq_getD (by decide +kernel)
  have hfree := nulFree_of_regular hrun (by decide +kernel)
  exact ⟨_, hrun, (faithful_iff_nulFree hrun).mpr hfree, by decide +kernel⟩

/-- A log of two pieces, the first of which begins with a NUL. -/
def nulFirstRun : List Label :=
  [.dispatch .log 0 (some 0), .post true, .handle true, .snapshot [[0, 65], [66]]] ++
    offerPiece 0 ++ offerPiece 1 ++ [.startWork, .httpd true]

/-- It is sent as the chunk of no bytes, which ends the response in front of the second. -/
theorem not_faithful :
    (¬ ∀ ls t, run ls = some t → Faithful ls t) ∧
      ((run nulFirstRun).any fun s =>
        s.trace.getLast? = some (.call ⟨0, ⟨0, .log, 0⟩⟩ ⟨0, .log, 0⟩ (.sendChunk []))) = true := by
  constructor
  · intro h
    have hfaithful := h nulFirstRun _ (run_eq_getD (by decide +kernel))
    exact hfaithful.nonempty ⟨0, .log, 0⟩ (by decide +kernel)
  · decide +kernel

end HomeNode.Http
