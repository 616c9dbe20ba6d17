-- SUMMARY: A log request gets the pieces of its own snapshot in order, without those that found a pool empty, and then its end.
import HomeNode.Http.Completion

/-!
# Log streams

The calls made on a log request, against the snapshot taken for it. The headers
come with the first data chunk, so a stream without one has none.
-/

namespace HomeNode.Http

/-! ## The property -/

/-- The pieces that found a chunk and a job, in their order. -/
def kept (offers : List Offer) : List Piece :=
  (offers.filter fun o => !o.exhausted).map Offer.piece

/-- The calls made on `r` so far. -/
inductive LogStream (r : Req) (tr : List Obs) : Prop where
  | waiting (snapshot : snapshotsOf r tr = []) (calls : callsOn r tr = [])
  | streaming (rest sent : List Piece)
    (snapshot : snapshotsOf r tr = [(offersOf r tr).map Offer.piece ++ rest])
    (calls : callsOn r tr = dataCalls sent) (sent_kept : sent <+: kept (offersOf r tr))
  | ending (cs : List HttpdCall) (snapshot : snapshotsOf r tr = [(offersOf r tr).map Offer.piece])
    (calls : callsOn r tr = dataCalls (kept (offersOf r tr)) ++ cs) (cs_end : cs <+: endCalls)

/-- The whole snapshot was offered, what was kept was sent, and one terminating chunk
came last. -/
structure Ended (r : Req) (tr : List Obs) : Prop where
  snapshot : snapshotsOf r tr = [(offersOf r tr).map Offer.piece]
  calls : callsOn r tr = dataCalls (kept (offersOf r tr)) ++ endCalls
  terminator : (callsOn r tr).count (.sendChunk []) = 1

/-- The calls of the answer to a request whose event was not posted. -/
def failedCalls (r : Req) : List HttpdCall :=
  sendResponse r Outcome.postFailed.text ++ [.complete]

structure LogStreams (s : State) : Prop where
  /-- each call reaches the request it was made for -/
  own : ∀ o ∈ s.trace, o.Own
  stream : ∀ r : Req, r.command = .log →
    (outcomesOf r s.trace = [.postFailed] ∧ callsOn r s.trace <+: failedCalls r) ∨
      (outcomesOf r s.trace = [] ∧ LogStream r s.trace)
  finished : ∀ c, .begun c ∈ s.trace → c.owner.command = .log → ¬ Pending s c.owner →
    (outcomesOf c.owner s.trace = [.postFailed] ∧ callsOn c.owner s.trace = failedCalls c.owner) ∨
      (outcomesOf c.owner s.trace = [] ∧ Ended c.owner s.trace)
  /-- a pending log request waits for none but the three tasks -/
  goes_on : s.httpd ≠ .crashed → ∀ r : Req, r.command = .log → Pending s r → CanMove s
  /-- and these stop when no more requests arrive -/
  ends : Transition.Ends step (fun l => ¬ l.Arrival) s

/-- `httpd_queue_work` takes everything, and the log has no NUL byte. -/
def Obs.Regular : Obs → Prop
  | .lost _ _ => False
  | .offered _ o => o.fate ≠ .rejected
  | .snapshot _ pieces => ∀ p ∈ pieces, 0 ∉ p
  | _ => True

instance (o : Obs) : Decidable o.Regular :=
  match o with
  | .lost _ _ => inferInstanceAs (Decidable False)
  | .offered _ o => inferInstanceAs (Decidable (o.fate ≠ .rejected))
  | .snapshot _ pieces => inferInstanceAs (Decidable (∀ p ∈ pieces, 0 ∉ p))
  | .begun _ | .command _ _ | .call _ _ _ | .freed _ _ => inferInstanceAs (Decidable True)

/-! ## Streams in histories -/

/-- The log stream that a history shows. -/
inductive StreamShape (h : History) : Prop where
  | waiting (snapshots : h.snapshots = []) (calls : h.calls = [])
  | streaming (rest : List Piece) (sent : List (List UInt8))
    (snapshots : h.snapshots = [h.offers.map Offer.piece ++ rest])
    (calls : h.calls = dataCalls sent) (sent_accepted : sent <+: accepted h.offers)
  | ending (cs : List HttpdCall) (snapshots : h.snapshots = [h.offers.map Offer.piece])
    (calls : h.calls = dataCalls (accepted h.offers) ++ cs) (cs_end : cs <+: endCalls)

theorem Outcome.eq_postFailed {o : Outcome} (h : o.Fits .log) : o = .postFailed := by
  cases o with
  | postFailed => rfl
  | sendFailed | acked _ => exact absurd rfl h.1
  | started => cases h

theorem Streaming.streamShape {h : History} {rest : List Piece} {qs : List (List UInt8)}
    {started : Bool} (hstream : Streaming h rest qs started) :
    h.outcomes = [] ∧ StreamShape h := by
  obtain ⟨offers, sent, rfl, haccepted, -⟩ := hstream
  exact ⟨rfl, .streaming rest sent rfl (by simp [History.streamed]) ⟨qs, haccepted⟩⟩

/-- A log request that is not over was either not posted or streams. -/
theorem Place.Ok.streamShape {p : Place} {r : Req} {h : History} {qs : List (List UInt8)}
    {started : Bool} (hlog : r.command = .log) (hok : p.Ok r h qs started) :
    (h.outcomes = [.postFailed] ∧ h.calls <+: failedCalls r) ∨ (h.outcomes = [] ∧ StreamShape h) := by
  cases p with
  | callback | posted => exact .inr (by rw [hok.1]; exact ⟨rfl, .waiting rfl rfl⟩)
  | onAir => exact absurd hlog hok.1
  | delegated => exact .inr (by rw [hok.2.1]; exact ⟨rfl, .waiting rfl rfl⟩)
  | answering pc =>
    obtain ⟨-, o, hfits, -, rfl⟩ := hok
    obtain rfl := Outcome.eq_postFailed (hlog ▸ hfits)
    refine .inl ⟨rfl, ?_⟩
    cases pc with
    | respond text => exact List.nil_prefix
    | complete => exact List.prefix_append _ _
    | free => exact List.prefix_refl _
  | streaming rest | closeQueued => exact .inr hok.2.streamShape
  | closing pc =>
    obtain ⟨-, -, offers, rfl⟩ := hok
    refine .inr ⟨rfl, .ending pc.calls (by simp [History.streamed]) rfl ?_⟩
    cases pc <;> decide
  | finalizeQueued | finalizing | lostFinalize =>
    obtain ⟨-, -, offers, rfl⟩ := hok
    exact .inr ⟨rfl, .ending endCalls (by simp [History.streamed]) rfl (List.prefix_refl _)⟩
  | lostClose =>
    obtain ⟨-, h', rfl, hstream⟩ := hok
    obtain ⟨houtcomes, hshape⟩ := hstream.streamShape
    refine .inr ⟨houtcomes, ?_⟩
    cases hshape with
    | waiting snapshots calls => exact .waiting snapshots calls
    | streaming rest sent snapshots calls accepted => exact .streaming rest sent snapshots calls accepted
    | ending cs snapshots calls cs_end => exact .ending cs snapshots calls cs_end

/-- A log request that is over was either not posted or streamed to its end. -/
theorem Done.streamed {r : Req} {h : History} (hlog : r.command = .log) (hdone : Done r h) :
    (h.outcomes = [.postFailed] ∧ h.calls = failedCalls r) ∨
      (h.outcomes = [] ∧ h.snapshots = [h.offers.map Offer.piece] ∧
        h.calls = dataCalls (accepted h.offers) ++ endCalls) := by
  rcases hdone with ⟨o, hfits, rfl⟩ | ⟨-, offers, rfl⟩
  · obtain rfl := Outcome.eq_postFailed (hlog ▸ hfits)
    exact .inl ⟨rfl, rfl⟩
  · exact .inr ⟨rfl, by simp [History.streamed], rfl⟩

theorem Owned.streamShape {s : State} (h : Owned s) {r : Req} (hlog : r.command = .log) :
    ((history r s.trace).outcomes = [.postFailed] ∧ (history r s.trace).calls <+: failedCalls r) ∨
      ((history r s.trace).outcomes = [] ∧ StreamShape (history r s.trace)) := by
  rcases h.history_cases r with ⟨u, -, -, hok⟩ | hempty | hdone
  · exact hok.streamShape hlog
  · rw [hempty]
    exact .inr ⟨rfl, .waiting rfl rfl⟩
  · rcases hdone.streamed hlog with ⟨houtcomes, hcalls⟩ | ⟨houtcomes, hsnapshots, hcalls⟩
    · exact .inl ⟨houtcomes, by rw [hcalls]⟩
    · exact .inr ⟨houtcomes, .ending endCalls hsnapshots hcalls (List.prefix_refl _)⟩

/-! ## The snapshot that is read -/

theorem Streaming.offers_read {h : History} {rest : List Piece} {qs : List (List UInt8)}
    {started : Bool} (hstream : Streaming h rest qs started) :
    h.offers.map Offer.piece <+: h.snapshots.flatten := by
  obtain ⟨offers, sent, rfl, -, -⟩ := hstream
  exact ⟨rest, by simp [History.streamed]⟩

theorem Place.Ok.offers_read {p : Place} {r : Req} {h : History} {qs : List (List UInt8)}
    {started : Bool} (hok : p.Ok r h qs started) :
    h.offers.map Offer.piece <+: h.snapshots.flatten := by
  cases p with
  | callback | posted => rw [hok.1]; exact List.nil_prefix
  | onAir => rw [hok.2.2.1]; exact List.nil_prefix
  | delegated => rw [hok.2.1]; exact List.nil_prefix
  | answering pc =>
    obtain ⟨-, o, -, -, rfl⟩ := hok
    exact List.nil_prefix
  | streaming rest | closeQueued => exact hok.2.offers_read
  | closing pc | finalizeQueued | finalizing | lostFinalize =>
    obtain ⟨-, -, offers, rfl⟩ := hok
    exact ⟨[], by simp [History.streamed]⟩
  | lostClose =>
    obtain ⟨-, h', rfl, hstream⟩ := hok
    exact hstream.offers_read

theorem Done.offers_read {r : Req} {h : History} (hdone : Done r h) :
    h.offers.map Offer.piece <+: h.snapshots.flatten := by
  rcases hdone with ⟨o, -, rfl⟩ | ⟨-, offers, rfl⟩
  · exact List.nil_prefix
  · exact ⟨[], by simp [History.streamed]⟩

/-- The pieces that are offered for a request are read from its snapshot, from the beginning. -/
theorem Owned.offers_read {s : State} (h : Owned s) (r : Req) :
    (offersOf r s.trace).map Offer.piece <+: (snapshotsOf r s.trace).flatten := by
  have hshown := shown r h.own
  rw [← hshown.offers, ← hshown.snapshots]
  rcases h.history_cases r with ⟨u, -, -, hok⟩ | hempty | hdone
  · exact hok.offers_read
  · rw [hempty]
    exact List.nil_prefix
  · exact hdone.offers_read

theorem mem_snapshotsOf {r : Req} {tr : List Obs} {pieces : List Piece}
    (h : pieces ∈ snapshotsOf r tr) : ∃ c, .snapshot c pieces ∈ tr := by
  obtain ⟨o, ho, hpieces⟩ := List.mem_filterMap.mp h
  cases o with
  | snapshot c ps =>
    obtain ⟨-, rfl⟩ := by simpa using hpieces
    exact ⟨c, ho⟩
  | begun _ | command _ _ | call _ _ _ | freed _ _ | offered _ _ | lost _ _ => cases hpieces

theorem Owned.offered_read {s : State} {r : Req} {o : Offer} (h : Owned s)
    (ho : o ∈ offersOf r s.trace) :
    ∃ c pieces, .snapshot c pieces ∈ s.trace ∧ o.piece ∈ pieces := by
  have hread : o.piece ∈ (snapshotsOf r s.trace).flatten :=
    (h.offers_read r).subset (List.mem_map.mpr ⟨o, ho, rfl⟩)
  obtain ⟨pieces, hpieces, hmem⟩ := List.mem_flatten.mp hread
  obtain ⟨c, hc⟩ := mem_snapshotsOf hpieces
  exact ⟨c, pieces, hc, hmem⟩

/-! ## What is accepted is what is kept -/

/-- A buffer without NUL bytes holds what was read into it. -/
theorem pieceStr_bytes {piece : Piece} (h : 0 ∉ piece) : (pieceStr piece).bytes = piece :=
  congrArg CStr.bytes (CStr.ofBuffer_append_nul ⟨piece, h⟩ [])

section Regular

variable {s : State} {r : Req}

/-- No piece of a snapshot is empty. -/
theorem Sound.piece_ne_nil (h : Sound s) {o : Offer} (ho : o ∈ offersOf r s.trace) :
    o.piece ≠ [] := by
  obtain ⟨c, pieces, hc, hmem⟩ := h.inv.owned.offered_read ho
  have hreadable : Readable pieces := h.fair.trace _ hc
  exact List.ne_nil_of_length_pos (hreadable _ hmem).1

theorem Sound.accepted_eq_kept (h : Sound s) (hregular : ∀ o ∈ s.trace, o.Regular) (r : Req) :
    accepted (offersOf r s.trace) = kept (offersOf r s.trace) := by
  have hfate : ∀ o ∈ offersOf r s.trace, decide (o.fate = .queued) = !o.exhausted := by
    intro o ho
    obtain ⟨c, -, hc⟩ := mem_offersOf.mp ho
    have hfair : o.fate = .dropped ↔ o.exhausted := h.fair.trace _ hc
    have haccepted : o.fate ≠ .rejected := hregular _ hc
    cases hfate : o.fate <;> simp_all
  have hbytes : ∀ o ∈ offersOf r s.trace, (pieceStr o.piece).bytes = o.piece := by
    intro o ho
    obtain ⟨c, pieces, hc, hmem⟩ := h.inv.owned.offered_read ho
    exact pieceStr_bytes (hregular _ hc o.piece hmem)
  unfold accepted kept
  rw [List.filter_congr hfate]
  exact List.map_congr_left fun o ho => hbytes o (List.mem_of_mem_filter ho)

theorem StreamShape.logStream (h : Sound s) (hregular : ∀ o ∈ s.trace, o.Regular)
    (hshape : StreamShape (history r s.trace)) : LogStream r s.trace := by
  have hshown := shown r h.inv.owned.own
  cases hshape with
  | waiting snapshots calls =>
    exact .waiting (hshown.snapshots ▸ snapshots) (hshown.calls ▸ calls)
  | streaming rest sent snapshots calls sent_accepted =>
    rw [hshown.snapshots, hshown.offers] at snapshots
    rw [hshown.offers, h.accepted_eq_kept hregular] at sent_accepted
    exact .streaming rest sent snapshots (hshown.calls ▸ calls) sent_accepted
  | ending cs snapshots calls cs_end =>
    rw [hshown.snapshots, hshown.offers] at snapshots
    rw [hshown.calls, hshown.offers, h.accepted_eq_kept hregular] at calls
    exact .ending cs snapshots calls cs_end

theorem Sound.ended (h : Sound s) (hregular : ∀ o ∈ s.trace, o.Regular)
    (hsnapshot : snapshotsOf r s.trace = [(offersOf r s.trace).map Offer.piece])
    (hcalls : callsOn r s.trace = dataCalls (accepted (offersOf r s.trace)) ++ endCalls) :
    Ended r s.trace := by
  rw [h.accepted_eq_kept hregular] at hcalls
  refine ⟨hsnapshot, hcalls, ?_⟩
  have hnone : (kept (offersOf r s.trace)).count [] = 0 := by
    apply List.count_eq_zero.mpr
    intro hmem
    obtain ⟨o, ho, hnil⟩ := List.mem_map.mp hmem
    exact h.piece_ne_nil (List.mem_of_mem_filter ho) hnil
  rw [hcalls, List.count_append, count_end_dataCalls, hnone]
  decide

end Regular

theorem Sound.logStreams {s : State} (h : Sound s) (hregular : ∀ o ∈ s.trace, o.Regular) :
    LogStreams s := by
  have howned := h.inv.owned
  refine ⟨howned.own, fun r hlog => ?_, fun c hbegun hlog hpending => ?_,
    fun hup r hlog hpending => h.canMove_of_log hup hlog hpending, runs_end s⟩
  · have hshown := shown r howned.own
    rcases howned.streamShape hlog with ⟨houtcomes, hcalls⟩ | ⟨houtcomes, hshape⟩
    · exact .inl ⟨hshown.outcomes ▸ houtcomes, hshown.calls ▸ hcalls⟩
    · exact .inr ⟨hshown.outcomes ▸ houtcomes, hshape.logStream h hregular⟩
  · have hshown := shown c.owner howned.own
    have hnone := not_mem_lostTokens (fun _ => hregular _) (fun _ => hregular _)
    have hdone := howned.done hbegun hpending fun u hu => absurd hu (hnone u)
    rcases hdone.streamed hlog with ⟨houtcomes, hcalls⟩ | ⟨houtcomes, hsnapshots, hcalls⟩
    · exact .inl ⟨hshown.outcomes ▸ houtcomes, hshown.calls ▸ hcalls⟩
    · refine .inr ⟨hshown.outcomes ▸ houtcomes, h.ended hregular ?_ ?_⟩
      · rw [← hshown.snapshots, ← hshown.offers]
        exact hsnapshots
      · rw [← hshown.calls, ← hshown.offers]
        exact hcalls

theorem logStreams_of_regular {ls : List Label} {t : State} (hrun : run ls = some t)
    (hregular : ∀ o ∈ t.trace, o.Regular) : LogStreams t :=
  (run_sound hrun).logStreams hregular

/-! ## Runs -/

/-- One piece is offered and takes the objects `i`. -/
def offerPiece (i : Fin 4) : List Label :=
  [.delegate (.chunk (some i)), .delegate (.job (some i)), .delegate (.queue true)]

/-- The httpd task takes a work item and makes its `n` steps. -/
def serve (n : Nat) : List Label := .startWork :: List.replicate n (.httpd true)

/-- A log of five pieces, read before the httpd task sends any. -/
def crowdedRun : List Label :=
  [.dispatch .log 0 (some 0), .post true, .handle true, .snapshot [[65], [66], [67], [68], [69]]] ++
    offerPiece 0 ++ offerPiece 1 ++ offerPiece 2 ++ offerPiece 3 ++
    [.delegate (.chunk none), .delegate (.job none), .delegate (.queue true),
      .delegate (.queue true)] ++
    serve 3 ++ serve 3 ++ serve 3 ++ serve 3 ++ serve 3 ++ serve 1

/-- The fifth piece is missing. -/
theorem logStreams_crowdedRun :
    LogStreams ((run crowdedRun).getD .init) ∧
      kept (offersOf ⟨0, .log, 0⟩ ((run crowdedRun).getD .init).trace) = [[65], [66], [67], [68]] :=
  ⟨logStreams_of_regular (run_eq_getD (by decide +kernel)) (by decide +kernel), by decide +kernel⟩

/-- A log request gets the headers, pieces of its snapshot and the end, whatever
happens. -/
def AlwaysHeaded (r : Req) (tr : List Obs) : Prop :=
  ∃ sent : List Piece, callsOn r tr = responseHeaders ++ sent.map .sendChunk ++ endCalls

/-- The log is empty. -/
def emptyRun : List Label :=
  [.dispatch .log 0 (some 0), .post true, .handle true, .snapshot [], .delegate (.queue true)] ++
    serve 3 ++ serve 1

/-- The event of the request is not posted. -/
def unpostedRun : List Label :=
  [.dispatch .log 0 (some 0), .post false, .httpd true, .httpd true, .httpd true]

/-- An empty log has no headers, and an unposted request gets a status body. -/
theorem not_alwaysHeaded :
    (¬ ∀ ls t, run ls = some t → (∀ o ∈ t.trace, o.Regular) → ∀ c, .begun c ∈ t.trace →
        c.owner.command = .log → ¬ Pending t c.owner → outcomesOf c.owner t.trace = [] →
        AlwaysHeaded c.owner t.trace) ∧
      ¬ ∀ ls t, run ls = some t → (∀ o ∈ t.trace, o.Regular) → ∀ c, .begun c ∈ t.trace →
        c.owner.command = .log → ¬ Pending t c.owner → outcomesOf c.owner t.trace ≠ [] →
        AlwaysHeaded c.owner t.trace := by
  constructor
  · intro h
    obtain ⟨sent, hcalls⟩ := h emptyRun _ (run_eq_getD (by decide +kernel)) (by decide +kernel)
      ⟨0, ⟨0, .log, 0⟩⟩ (by decide +kernel) rfl (by decide +kernel) (by decide +kernel)
    have hends : callsOn ⟨0, .log, 0⟩ ((run emptyRun).getD .init).trace = endCalls := by
      decide +kernel
    have hlength := congrArg List.length (hends.symm.trans hcalls)
    simp [endCalls, responseHeaders] at hlength
  · intro h
    obtain ⟨sent, hcalls⟩ := h unpostedRun _ (run_eq_getD (by decide +kernel)) (by decide +kernel)
      ⟨0, ⟨0, .log, 0⟩⟩ (by decide +kernel) rfl (by decide +kernel) (by decide +kernel)
    have hlast : (callsOn ⟨0, .log, 0⟩ ((run unpostedRun).getD .init).trace).getLast? =
        some .complete := by decide +kernel
    rw [hcalls, List.getLast?_append] at hlast
    exact absurd hlast (by simp [endCalls])

end HomeNode.Http
