-- SUMMARY: Each request is completed once, its slot freed once, and it gets its own answer, unless queued work is rejected or a piece of the log begins with a NUL.
import HomeNode.Http.Traffic

/-!
# Completion

The calls made on a request, the outcome of its command and the frees of its slot,
counted in the trace. The history of a request has one of a few shapes, and each
shape fixes the counts.
-/

namespace HomeNode.Http

/-! ## The property -/

/-- `r` was answered with the outcome of its own command. -/
def AnsweredOwn (r : Req) (tr : List Obs) : Prop :=
  ∃ o, outcomesOf r tr = [o] ∧ callsOn r tr = sendResponse r o.text ++ [.complete]

/-- The request `r` is over. -/
structure Finished (r : Req) (tr : List Obs) : Prop where
  complete : (callsOn r tr).count .complete = 1
  free : freesOf r tr = 1
  status : r.command ≠ .log → AnsweredOwn r tr
  terminator : r.command = .log → (callsOn r tr).count (.sendChunk []) = 1

structure ExactlyOnce (s : State) : Prop where
  /-- each call reaches the request it was made for, and no slot is freed that
  another request has -/
  own : ∀ o ∈ s.trace, o.Own
  complete : ∀ r, (callsOn r s.trace).count .complete ≤ 1
  free : ∀ r, freesOf r s.trace ≤ 1
  status : ∀ r, r.command ≠ .log → callsOn r s.trace ≠ [] →
    ∃ o, outcomesOf r s.trace = [o] ∧ callsOn r s.trace <+: sendResponse r o.text ++ [.complete]
  terminator : ∀ r, r.command = .log → (callsOn r s.trace).count (.sendChunk []) ≤ 1
  finished : ∀ c, .begun c ∈ s.trace → ¬ Pending s c.owner → Finished c.owner s.trace
  /-- while a request is pending some step can be made -/
  goes_on : s.httpd ≠ .crashed → ∀ r, Pending s r → ∃ l : Label, ¬ l.Arrival ∧ (step s l).isSome
  /-- and the steps stop when no more requests arrive -/
  ends : Transition.Ends step (fun l => ¬ l.Arrival) s

/-- `httpd_queue_work` took the close or the finalize, and a piece that it took
does not begin with a NUL. -/
def Obs.Served : Obs → Prop
  | .lost _ .close | .lost _ .finalize => False
  | .offered _ o => o.fate = .queued → pieceStr o.piece ≠ .empty
  | _ => True

instance (o : Obs) : Decidable o.Served :=
  match o with
  | .lost _ .close | .lost _ .finalize => inferInstanceAs (Decidable False)
  | .offered _ o => inferInstanceAs (Decidable (o.fate = .queued → pieceStr o.piece ≠ .empty))
  | .lost _ (.data _ _) | .begun _ | .command _ _ | .call _ _ _ | .freed _ _ | .snapshot _ _ =>
    inferInstanceAs (Decidable True)

/-! ## What a history can look like -/

inductive Shape (r : Req) (h : History) : Prop where
  | silent (calls : h.calls = []) (frees : h.frees = 0)
  | answered (o : Outcome) (outcomes : h.outcomes = [o])
    (calls : h.calls <+: sendResponse r o.text ++ [.complete]) (frees : h.frees ≤ 1)
  | streamed (sent : List (List UInt8)) (cs : List HttpdCall) (log : r.command = .log)
    (calls : h.calls = dataCalls sent ++ cs) (sent_accepted : sent <+: accepted h.offers)
    (cs_end : cs <+: endCalls) (frees : h.frees ≤ 1)

theorem Streaming.shape {r : Req} {h : History} {rest : List Piece} {qs : List (List UInt8)}
    {started : Bool} (hlog : r.command = .log) (hstream : Streaming h rest qs started) :
    Shape r h := by
  obtain ⟨offers, sent, rfl, haccepted, -⟩ := hstream
  exact .streamed sent [] hlog rfl ⟨qs, haccepted⟩ List.nil_prefix (Nat.zero_le 1)

theorem Place.Ok.shape {p : Place} {r : Req} {h : History} {qs : List (List UInt8)}
    {started : Bool} (hok : p.Ok r h qs started) : Shape r h := by
  cases p with
  | callback | posted => exact .silent (by rw [hok.1]; rfl) (by rw [hok.1]; rfl)
  | onAir => exact .silent (by rw [hok.2.2.1]; rfl) (by rw [hok.2.2.1]; rfl)
  | delegated => exact .silent (by rw [hok.2.1]; rfl) (by rw [hok.2.1]; rfl)
  | answering pc =>
    obtain ⟨-, o, -, -, rfl⟩ := hok
    refine .answered o rfl ?_ (Nat.zero_le 1)
    cases pc with
    | respond text => exact List.nil_prefix
    | complete => exact List.prefix_append _ _
    | free => exact List.prefix_refl _
  | streaming rest | closeQueued => exact hok.2.shape hok.1
  | closing pc =>
    obtain ⟨hlog, -, offers, rfl⟩ := hok
    refine .streamed (accepted offers) pc.calls hlog rfl (List.prefix_refl _) ?_ (Nat.zero_le 1)
    cases pc <;> decide
  | finalizeQueued | finalizing | lostFinalize =>
    obtain ⟨hlog, -, offers, rfl⟩ := hok
    exact .streamed _ endCalls hlog rfl (List.prefix_refl _) (List.prefix_refl _) (Nat.zero_le 1)
  | lostClose =>
    obtain ⟨hlog, h', rfl, hstream⟩ := hok
    cases hstream.shape hlog with
    | silent calls frees => exact .silent calls frees
    | answered o outcomes calls frees => exact .answered o outcomes calls frees
    | streamed sent cs log calls accepted cs_end frees =>
      exact .streamed sent cs log calls accepted cs_end frees

theorem Done.shape {r : Req} {h : History} (hdone : Done r h) : Shape r h := by
  rcases hdone with ⟨o, -, rfl⟩ | ⟨hlog, offers, rfl⟩
  · exact .answered o rfl (List.prefix_refl _) le_rfl
  · exact .streamed _ endCalls hlog rfl (List.prefix_refl _) (List.prefix_refl _) le_rfl

theorem Owned.shape {s : State} (h : Owned s) (r : Req) : Shape r (history r s.trace) := by
  rcases h.history_cases r with ⟨u, -, -, hok⟩ | hempty | hdone
  · exact hok.shape
  · rw [hempty]
    exact .silent rfl rfl
  · exact hdone.shape

/-! ## Counting calls -/

theorem count_complete_dataCalls (sent : List (List UInt8)) :
    (dataCalls sent).count .complete = 0 := by
  apply List.count_eq_zero.mpr
  intro hmem
  unfold dataCalls at hmem
  split at hmem <;> simp [responseHeaders] at hmem

theorem count_end_dataCalls (sent : List (List UInt8)) :
    (dataCalls sent).count (.sendChunk []) = sent.count [] := by
  unfold dataCalls
  split
  case isTrue h => simp [h]
  case isFalse =>
    have hinj : Function.Injective HttpdCall.sendChunk := fun _ _ h => HttpdCall.sendChunk.inj h
    rw [List.count_append, List.count_map_of_injective _ _ hinj]
    simp [responseHeaders]

theorem count_complete_sendResponse (r : Req) (text : String) :
    (sendResponse r text).count .complete = 0 := by
  simp [sendResponse, responseHeaders]

theorem Shape.complete_le {r : Req} {h : History} (hshape : Shape r h) :
    h.calls.count .complete ≤ 1 := by
  cases hshape with
  | silent calls => simp [calls]
  | answered o _ calls =>
    apply (calls.sublist.count_le _).trans
    simp [count_complete_sendResponse]
  | streamed sent cs _ calls _ cs_end =>
    rw [calls, List.count_append, count_complete_dataCalls, Nat.zero_add]
    exact (cs_end.sublist.count_le _).trans (by decide)

theorem Shape.free_le {r : Req} {h : History} (hshape : Shape r h) : h.frees ≤ 1 := by
  cases hshape with
  | silent _ frees => omega
  | answered _ _ _ frees => exact frees
  | streamed _ _ _ _ _ _ frees => exact frees

theorem count_end_sendResponse {r : Req} (hlog : r.command = .log) (o : Outcome) :
    (sendResponse r o.text).count (.sendChunk []) = 1 := by
  unfold sendResponse
  rw [hlog]
  cases o with
  | postFailed | sendFailed | started => decide
  | acked success => cases success <;> decide

/-- No accepted piece ends the response. -/
def Unbroken (offers : List Offer) : Prop := [] ∉ accepted offers

theorem Shape.terminator_le {r : Req} {h : History} (hshape : Shape r h) (hlog : r.command = .log)
    (hoffers : Unbroken h.offers) : h.calls.count (.sendChunk []) ≤ 1 := by
  cases hshape with
  | silent calls => simp [calls]
  | answered o _ calls =>
    apply (calls.sublist.count_le _).trans
    simp [count_end_sendResponse hlog]
  | streamed sent cs _ calls sent_accepted cs_end =>
    have hsent : sent.count [] = 0 :=
      List.count_eq_zero.mpr fun hmem => hoffers (sent_accepted.subset hmem)
    rw [calls, List.count_append, count_end_dataCalls, hsent, Nat.zero_add]
    exact (cs_end.sublist.count_le _).trans (by decide)

theorem Shape.status {r : Req} {h : History} (hshape : Shape r h) (hlog : r.command ≠ .log)
    (hcalls : h.calls ≠ []) :
    ∃ o, h.outcomes = [o] ∧ h.calls <+: sendResponse r o.text ++ [.complete] := by
  cases hshape with
  | silent calls => exact absurd calls hcalls
  | answered o outcomes calls => exact ⟨o, outcomes, calls⟩
  | streamed _ _ log => exact absurd log hlog

/-- What a request that is over shows. -/
theorem Done.finished {r : Req} {tr : List Obs} (hown : ∀ o ∈ tr, o.Own)
    (hdone : Done r (history r tr)) (hoffers : Unbroken (history r tr).offers) : Finished r tr := by
  obtain ⟨-, hcalls, houtcomes, hfrees, -, -⟩ := shown r hown
  rcases hdone with ⟨o, -, hhist⟩ | ⟨hlog, offers, hhist⟩
  · rw [hhist] at hcalls houtcomes hfrees
    simp only [History.answered] at hcalls houtcomes hfrees
    refine ⟨?_, hfrees.symm, fun _ => ⟨o, houtcomes.symm, hcalls.symm⟩, fun hlog => ?_⟩
    · simp [← hcalls, count_complete_sendResponse]
    · simp [← hcalls, count_end_sendResponse hlog]
  · rw [hhist] at hcalls hfrees hoffers
    simp only [History.streamed] at hcalls hfrees hoffers
    refine ⟨?_, hfrees.symm, fun hne => absurd hlog hne, fun _ => ?_⟩
    · rw [← hcalls, List.count_append, count_complete_dataCalls]
      decide
    · rw [← hcalls, List.count_append, count_end_dataCalls, List.count_eq_zero.mpr hoffers]
      decide

/-! ## Requests that are over -/

/-- A request without a step to come, and without a rejected close or finalize, is
over. -/
theorem Owned.done {s : State} {c : Ctx} (h : Owned s) (hbegun : .begun c ∈ s.trace)
    (hpending : ¬ Pending s c.owner) (hlost : ∀ u ∈ lostTokens s.trace, u.ctx.owner ≠ c.owner) :
    Done c.owner (history c.owner s.trace) := by
  have htoken : ∀ u ∈ tokens s, u.ctx.owner ≠ c.owner := by
    intro u hu howner
    cases hstuck : u.place.stuck with
    | false => exact hpending (.inl ⟨u, hu, howner, hstuck⟩)
    | true => exact hlost u (lost_of_stuck hu hstuck) howner
  apply (h.ended c.owner htoken).resolve_left
  intro hempty
  have hopened : (history c.owner s.trace).begun = true :=
    (shown c.owner h.own).begun_iff.mpr ⟨c, rfl, hbegun⟩
  rw [hempty] at hopened
  exact Bool.noConfusion hopened

theorem Owned.unbroken {s : State} (h : Owned s) (hserved : ∀ o ∈ s.trace, o.Served) (r : Req) :
    Unbroken (history r s.trace).offers := by
  intro hmem
  obtain ⟨o, ho, hbytes⟩ := List.mem_map.mp hmem
  obtain ⟨ho, hfate⟩ := List.mem_filter.mp ho
  rw [(shown r h.own).offers] at ho
  obtain ⟨c, -, hobs⟩ := mem_offersOf.mp ho
  exact hserved _ hobs (by simpa using hfate) (CStr.ext hbytes)

theorem Sound.exactlyOnce {s : State} (hsound : Sound s) (hserved : ∀ o ∈ s.trace, o.Served) :
    ExactlyOnce s := by
  have h := hsound.inv.owned
  have hshown := fun r => shown r h.own
  refine ⟨h.own, ?_, ?_, ?_, ?_, ?_, fun hup _ => hsound.not_stuck hup, runs_end s⟩
  · intro r
    rw [← (hshown r).calls]
    exact (h.shape r).complete_le
  · intro r
    rw [← (hshown r).frees]
    exact (h.shape r).free_le
  · intro r hlog hcalls
    rw [← (hshown r).calls] at hcalls ⊢
    rw [← (hshown r).outcomes]
    exact (h.shape r).status hlog hcalls
  · intro r hlog
    rw [← (hshown r).calls]
    exact (h.shape r).terminator_le hlog (h.unbroken hserved r)
  · intro c hbegun hpending
    have hnone := not_mem_lostTokens (fun _ => hserved _) (fun _ => hserved _)
    have hdone := h.done hbegun hpending fun u hu => absurd hu (hnone u)
    exact hdone.finished h.own (h.unbroken hserved c.owner)

/-! ## Nothing less will do -/

/-- No request that arrived has a step to come. -/
def Quiet (s : State) : Prop := ∀ c, .begun c ∈ s.trace → ¬ Pending s c.owner

/-- A request whose close or finalize was rejected does not come to its end. -/
theorem Owned.not_finished_of_lost {s : State} {u : Token} (h : Owned s)
    (hu : u ∈ lostTokens s.trace) : ¬ Finished u.ctx.owner s.trace := by
  intro hfinished
  have hok := (h.held u (lost_mem_tokens hu)).2
  have hcalls := (shown u.ctx.owner h.own).calls
  have hfrees := (shown u.ctx.owner h.own).frees
  have hstuck := stuck_of_lost hu
  cases hplace : u.place with
  | lostClose =>
    rw [hplace] at hok
    obtain ⟨-, h', hhist, offers, sent, rfl, -⟩ := hok
    have hnone : (callsOn u.ctx.owner s.trace).count .complete = 0 := by
      rw [← hcalls, hhist]
      simpa [History.streamed] using count_complete_dataCalls sent
    rw [hfinished.complete] at hnone
    exact Nat.one_ne_zero hnone
  | lostFinalize =>
    rw [hplace] at hok
    obtain ⟨-, -, offers, hhist⟩ := hok
    rw [hhist, hfinished.free] at hfrees
    exact Nat.zero_ne_one hfrees
  | callback | posted | onAir | answering _ | delegated | streaming _ | closeQueued | closing _
  | finalizeQueued | finalizing => simp [hplace, Place.stuck] at hstuck

theorem Owned.begun_of_token {s : State} {u : Token} (h : Owned s) (hu : u ∈ tokens s) :
    ∃ c, c.owner = u.ctx.owner ∧ .begun c ∈ s.trace :=
  (shown _ h.own).begun_iff.mp (h.held u hu).2.begun

theorem Done.begun {r : Req} {h : History} (hdone : Done r h) : h.begun = true := by
  rcases hdone with ⟨o, -, rfl⟩ | ⟨-, offers, rfl⟩ <;> rfl

/-- A request with an offered piece has arrived. -/
theorem Owned.begun_of_offer {s : State} {r : Req} {o : Offer} (h : Owned s)
    (ho : o ∈ (history r s.trace).offers) : ∃ c, c.owner = r ∧ .begun c ∈ s.trace := by
  apply (shown r h.own).begun_iff.mp
  rcases h.history_cases r with ⟨u, -, -, hok⟩ | hempty | hdone
  · exact hok.begun
  · rw [hempty] at ho
    exact absurd ho List.not_mem_nil
  · exact hdone.begun

/-- A request that is over and took a piece that begins with a NUL was ended by it,
and once more by the close. -/
theorem Done.not_finished {r : Req} {tr : List Obs} {o : Offer} (hown : ∀ o ∈ tr, o.Own)
    (hdone : Done r (history r tr)) (ho : o ∈ (history r tr).offers) (hfate : o.fate = .queued)
    (hblank : pieceStr o.piece = .empty) : ¬ Finished r tr := by
  intro hfinished
  rcases hdone with ⟨o', -, hhist⟩ | ⟨hlog, offers, hhist⟩
  · rw [hhist] at ho
    exact absurd ho List.not_mem_nil
  · have hcount := hfinished.terminator hlog
    rw [← (shown r hown).calls, hhist] at hcount
    rw [hhist] at ho
    have hmem : [] ∈ accepted offers :=
      List.mem_map.mpr ⟨o, List.mem_filter.mpr ⟨ho, by simpa using hfate⟩, by rw [hblank]; rfl⟩
    have hpos : 0 < (accepted offers).count [] := List.count_pos_iff.mpr hmem
    have hend : endCalls.count (.sendChunk []) = 1 := by decide
    simp only [History.streamed, List.count_append, count_end_dataCalls, hend] at hcount
    omega

/-- When all requests are over, an accepted piece that begins with a NUL has ended
its response twice. -/
theorem Owned.served_of_quiet {s : State} (h : Owned s) (hquiet : Quiet s)
    (honce : ExactlyOnce s) : ∀ o ∈ s.trace, o.Served := by
  have hnone : ∀ u, u ∉ lostTokens s.trace := by
    intro u hu
    obtain ⟨c, howner, hbegun⟩ := h.begun_of_token (lost_mem_tokens hu)
    have hfinished := honce.finished c hbegun (hquiet c hbegun)
    rw [howner] at hfinished
    exact h.not_finished_of_lost hu hfinished
  intro o ho
  cases o with
  | lost c w =>
    cases w with
    | data ch j => trivial
    | close => exact hnone ⟨c, .lostClose⟩ (mem_lostTokens.mpr ⟨_, ho, rfl⟩)
    | finalize => exact hnone ⟨c, .lostFinalize⟩ (mem_lostTokens.mpr ⟨_, ho, rfl⟩)
  | offered c o =>
    intro hfate hblank
    have hoffer : o ∈ (history c.owner s.trace).offers := by
      rw [(shown c.owner h.own).offers]
      exact mem_offersOf.mpr ⟨c, rfl, ho⟩
    obtain ⟨c', howner, hbegun⟩ := h.begun_of_offer hoffer
    have hfinished := honce.finished c' hbegun (hquiet c' hbegun)
    have hdone := h.done hbegun (hquiet c' hbegun) fun u hu => absurd hu (hnone u)
    rw [howner] at hfinished hdone
    exact hdone.not_finished h.own hoffer hfate hblank hfinished
  | begun _ | command _ _ | call _ _ _ | freed _ _ | snapshot _ _ => trivial

/-- The outcomes are those of the posts, the sends and the results of the run. Served requests are
completed exactly once; when all of them are over, only served requests are. -/
theorem exactlyOnce_iff_served {ls : List Label} {t : State} (hrun : run ls = some t) :
    commandEvents t.trace = happenings ls ∧
      ((∀ o ∈ t.trace, o.Served) → ExactlyOnce t) ∧
      (Quiet t → (ExactlyOnce t ↔ ∀ o ∈ t.trace, o.Served)) :=
  have hsound := run_sound hrun
  ⟨commandEvents_eq hrun, hsound.exactlyOnce, fun hquiet =>
    ⟨hsound.inv.owned.served_of_quiet hquiet, hsound.exactlyOnce⟩⟩

/-! ## Runs -/

/-- A gate command that is acked, and a log request of one piece. -/
def servedRun : List Label :=
  [.dispatch .gateOpen 0 (some 0), .post true, .handle true,
    .dispatch .log 1 (some 1), .post true, .handle true, .snapshot [[72, 105]],
    .delegate (.chunk (some 0)), .delegate (.job (some 0)), .delegate (.queue true),
    .ack ⟨0, ⟨0, .gateOpen, 0⟩⟩ true, .startWork, .httpd true, .loop, .httpd true, .loop,
    .delegate (.queue true), .httpd true, .startWork, .httpd true, .httpd true, .httpd true,
    .loop, .startWork, .httpd true]

theorem exactlyOnce_servedRun :
    ExactlyOnce ((run servedRun).getD .init) ∧ ((run servedRun).getD .init).trace ≠ [] := by
  have hrun : run servedRun = some ((run servedRun).getD .init) :=
    run_eq_getD (by decide +kernel)
  exact ⟨(exactlyOnce_iff_served hrun).2.1 (by decide +kernel), by decide +kernel⟩

/-- A log of one NUL byte, up to its last chunk. -/
def nulRun : List Label :=
  [.dispatch .log 0 (some 0), .post true, .handle true, .snapshot [[0]],
    .delegate (.chunk (some 0)), .delegate (.job (some 0)), .delegate (.queue true),
    .delegate (.queue true), .startWork, .httpd true, .httpd true, .httpd true, .startWork,
    .httpd true]

/-- An empty log whose close is rejected. -/
def rejectedRun : List Label :=
  [.dispatch .log 0 (some 0), .post true, .handle true, .snapshot [], .delegate (.queue false)]

theorem not_exactlyOnce :
    (¬ ∀ ls t, run ls = some t → (∀ o ∈ t.trace, o.token = none) → ExactlyOnce t) ∧
      ¬ ∀ ls t, run ls = some t → (∀ c o, .offered c o ∈ t.trace → pieceStr o.piece ≠ .empty) →
        ExactlyOnce t := by
  constructor
  · intro h
    have honce := h nulRun _ (run_eq_getD (by decide +kernel)) (by decide +kernel)
    have htwice : (callsOn ⟨0, .log, 0⟩ ((run nulRun).getD .init).trace).count (.sendChunk []) = 2 := by
      decide +kernel
    have hterminator := honce.terminator ⟨0, .log, 0⟩ rfl
    omega
  · intro h
    have hnone : ∀ o ∈ ((run rejectedRun).getD .init).trace, o = .begun ⟨0, ⟨0, .log, 0⟩⟩ ∨
        o = .command ⟨0, ⟨0, .log, 0⟩⟩ (.posted true) ∨ o = .snapshot ⟨0, ⟨0, .log, 0⟩⟩ [] ∨
        o = .lost ⟨0, ⟨0, .log, 0⟩⟩ .close := by
      decide +kernel
    have honce := h rejectedRun _ (run_eq_getD (by decide +kernel)) fun c o ho => by
      simpa using hnone _ ho
    have hfinished := honce.finished ⟨0, ⟨0, .log, 0⟩⟩ (by decide +kernel) (by decide +kernel)
    have hcount : (callsOn ⟨0, .log, 0⟩ ((run rejectedRun).getD .init).trace).count .complete = 0 := by
      decide +kernel
    rw [hfinished.complete] at hcount
    exact Nat.one_ne_zero hcount

end HomeNode.Http
