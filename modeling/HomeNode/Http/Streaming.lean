-- SUMMARY: The log streams: filling, queueing and sending the data jobs keeps the invariant, and so does every step.
import HomeNode.Http.Invariant

/-!
# Streaming

The delegate task fills a chunk and a job that only it holds, queues the job, and
the httpd task sends it and gives both back. With the cases of the other steps
this makes the invariant one of every run.
-/

namespace HomeNode.Http

variable {s t : State} {c : Ctx} {p q : Place} {obs : List Obs}

/-! ## Filling a chunk -/

/-- A chunk sends what was loaded into it. -/
theorem Chunk.sent_load (chunk : Chunk) (data : CStr) :
    (chunk.load data).sent = (data.take logChunkSize).bytes := by
  have hbytes := chunk.data.bytes_strncpy_self data
  have hstr : CStr.strnlen (chunk.load data).data.bytes logChunkSize =
      (data.take logChunkSize).length := by
    have hsize := (chunk.load data).data.size
    rw [CStr.strnlen, List.take_of_length_le hsize.le]
    exact congrArg CStr.length (hbytes ▸ CStr.ofBuffer_append_replicate_nul _ _)
  have hlen : (chunk.load data).len = (data.take logChunkSize).bytes.length := hstr
  rw [Chunk.sent, hlen]
  show (chunk.data.strncpy data logChunkSize).bytes.take _ = _
  rw [hbytes]
  exact List.take_left

theorem sent_load_piece (chunk : Chunk) {piece : Piece} (h : piece.length ≤ 255) :
    (chunk.load (pieceStr piece)).sent = (pieceStr piece).bytes := by
  have hlen : (pieceStr piece).length ≤ logChunkSize := by
    apply (CStr.length_ofBuffer_le _).trans
    simp only [List.length_append, List.length_singleton, logChunkSize]
    omega
  rw [Chunk.sent_load, (CStr.take_eq_self_iff _ _).mpr hlen]

/-! ## The data worker -/

/-- The headers come with the first chunk only. -/
theorem Streaming.send {h : History} {rest : List Piece} {bs : List UInt8}
    {qs : List (List UInt8)} {started : Bool} (hstream : Streaming h rest (bs :: qs) started) :
    Streaming { h with
      calls := h.calls ++ ((if started then [] else responseHeaders) ++ [.sendChunk bs]) }
      rest qs true := by
  obtain ⟨offers, sent, rfl, haccepted, rfl⟩ := hstream
  refine ⟨offers, sent ++ [bs], ?_, by simpa using haccepted, by simp⟩
  unfold History.streamed
  rw [dataCalls_concat]
  cases sent <;> simp

theorem Place.Ok.send {r : Req} {h : History} {bs : List UInt8} {qs : List (List UInt8)}
    {started : Bool} (hok : p.Ok r h (bs :: qs) started) (hfeeds : p.feeds) :
    p.Ok r { h with
      calls := h.calls ++ ((if started then [] else responseHeaders) ++ [.sendChunk bs]) }
      qs true := by
  cases p with
  | streaming rest => exact ⟨hok.1, hok.2.send⟩
  | closeQueued => exact ⟨hok.1, hok.2.send⟩
  | lostClose =>
    obtain ⟨hlog, h', rfl, hstream⟩ := hok
    exact ⟨hlog, _, rfl, hstream.send⟩
  | callback | posted | onAir | answering _ | delegated | closing _ | finalizeQueued | finalizing
  | lostFinalize => simp [Place.feeds] at hfeeds

theorem send_inv {j : JobId} {job : SendJob} (h : Inv s) (hpc : s.httpd = .dataWorker j .send)
    (hjob : s.jobs j = some job) (hstep : dataWorkerStep s j job .send = some t) : Inv t := by
  have hj : j ∈ unsentJobs s := by simp [unsentJobs, hpc]
  obtain ⟨p, hmem, hfeeds⟩ := h.jobs.feeding j hj job hjob
  have hreq := h.owned.req hmem
  simp only [dataWorkerStep, hreq, Option.some.injEq] at hstep
  obtain ⟨rest, hs⟩ := Multiset.exists_cons_of_mem hmem
  have htokens : tokens t = tokens s := by
    subst hstep
    simp [tokens, State.log, hpc]
  have hunsent : unsentJobs s = j :: unsentJobs t := by
    subst hstep
    simp [unsentJobs, State.log, hpc]
  have hqueued : ∀ r, queued s r = (payload s r j).toList ++ queued t r := by
    intro r
    have hpayload : payload t r = payload s r := by
      subst hstep
      rfl
    unfold queued
    rw [hunsent, List.filterMap_cons, hpayload]
    cases payload s r j <;> rfl
  have hhead : payload s job.ctx.owner j = some (s.chunks job.chunk).sent := by
    simp [payload, hjob]
  have hholders : chunkHolders t = chunkHolders s := by
    have hjobs : t.jobs = s.jobs := by
      subst hstep
      rfl
    unfold chunkHolders
    rw [chunkOf_congr hjobs]
    subst hstep
    simp [chunkJobs, State.log, hpc]
  have hkeeps : ∀ j' ∈ unsentJobs t, j' ∈ unsentJobs s := by
    intro j' hj'
    rw [hunsent]
    exact List.mem_cons_of_mem j hj'
  subst hstep
  refine ⟨h.owned.move hs (htokens.trans hs) ⟨rfl, calls_own rfl, ?_, ?_⟩ rfl ?_ rfl ?_, ?_, ?_, ?_,
    h.jobs.feeding_of rfl hkeeps (.of_eq htokens), h.jobs.ordered⟩
  · intro i hne
    exact Function.update_of_ne hne _ _
  · intro r hne
    rw [hqueued r]
    simp [payload, hjob, hne.symm]
  · simp [State.log, hreq]
  · intro hok
    rw [hqueued, hhead] at hok
    rw [foldl_add_calls]
    simpa [State.log] using hok.send hfeeds
  · simpa [jobHolders, workJobs, State.log, hpc] using h.jobs.jobs
  · rw [hholders]
    exact h.jobs.chunks
  · simpa [workJobs, State.log, hpc] using h.jobs.written

theorem freeChunk_inv {j : JobId} {job : SendJob} (h : Inv s)
    (hpc : s.httpd = .dataWorker j .freeChunk) (hjob : s.jobs j = some job) :
    Inv { s with chunkBank := s.chunkBank.free job.chunk, httpd := .dataWorker j .freeJob } := by
  set t : State := { s with chunkBank := s.chunkBank.free job.chunk, httpd := .dataWorker j .freeJob }
  have htokens : tokens t = tokens s := by simp [t, tokens, hpc]
  have hunsent : unsentJobs t = unsentJobs s := by simp [t, unsentJobs, hpc]
  have hholders : chunkHolders s = job.chunk ::ₘ chunkHolders t := by
    unfold chunkHolders
    rw [chunkOf_congr (t := t) (s := s) rfl]
    simp [t, chunkJobs, chunkOf, hpc, hjob]
  refine ⟨h.owned.same htokens rfl rfl rfl rfl (queued_congr rfl rfl hunsent), ?_, ?_, ?_,
    h.jobs.feeding_of rfl (fun j hj => hunsent ▸ hj) (.of_eq htokens), h.jobs.ordered⟩
  · simpa [t, jobHolders, workJobs, hpc] using h.jobs.jobs
  · have hchunks := h.jobs.chunks
    rw [hholders] at hchunks
    exact hchunks.free
  · simpa [t, workJobs, hpc] using h.jobs.written

theorem freeJob_inv {j : JobId} (h : Inv s) (hpc : s.httpd = .dataWorker j .freeJob) :
    Inv { s with jobBank := s.jobBank.free j, httpd := .idle } := by
  set t : State := { s with jobBank := s.jobBank.free j, httpd := .idle }
  have htokens : tokens t = tokens s := by simp [t, tokens, hpc]
  have hunsent : unsentJobs t = unsentJobs s := by simp [t, unsentJobs, hpc]
  have hworkJobs : workJobs s = j :: workJobs t := by simp [t, workJobs, hpc]
  have hjobHolders : jobHolders s = j ::ₘ jobHolders t := by
    unfold jobHolders
    rw [hworkJobs]
    rfl
  have hchunkHolders : chunkHolders t = chunkHolders s := by
    unfold chunkHolders
    rw [chunkOf_congr (t := t) (s := s) rfl]
    simp [t, chunkJobs, hpc]
  refine ⟨h.owned.same htokens rfl rfl rfl rfl (queued_congr rfl rfl hunsent), ?_, ?_, ?_,
    h.jobs.feeding_of rfl (fun j hj => hunsent ▸ hj) (.of_eq htokens), h.jobs.ordered⟩
  · have hjobs := h.jobs.jobs
    rw [hjobHolders] at hjobs
    exact hjobs.free
  · rw [hchunkHolders]
    exact h.jobs.chunks
  · intro j' hj'
    exact h.jobs.written j' (by rw [hworkJobs]; exact List.mem_cons_of_mem j hj')

/-! ## The delegate task -/

/-- The delegate task goes on without handing its context over. -/
theorem allocChunk_inv {piece : Piece} {rest : List Piece} {exhausted : Bool} {res : Option ChunkId}
    {bank : Bank ChunkId} (h : Inv s) (hpc : s.delegate = .reading c (piece :: rest))
    (halloc : s.chunkBank.alloc res = some bank) :
    Inv { s with chunkBank := bank, delegate := .allocJob c piece rest exhausted res } := by
  set t : State := { s with chunkBank := bank, delegate := .allocJob c piece rest exhausted res }
  have htokens : tokens t = tokens s := by simp [t, tokens, hpc]
  have hholders : chunkHolders t = ↑res.toList + chunkHolders s := by
    unfold chunkHolders
    rw [chunkOf_congr (t := t) (s := s) rfl]
    simp only [t, chunkJobs, hpc, DelegatePc.chunk, Option.toList_none, Multiset.coe_nil]
    abel
  refine ⟨h.owned.same htokens rfl rfl rfl rfl (queued_congr rfl rfl rfl), ?_, ?_, h.jobs.written,
    h.jobs.feeding_of rfl (fun _ hj => hj) (.of_eq htokens), h.jobs.ordered⟩
  · simpa [t, jobHolders, workJobs, hpc] using h.jobs.jobs
  · rw [hholders]
    exact h.jobs.chunks.alloc_toList halloc

theorem allocJob_inv {piece : Piece} {rest : List Piece} {before exhausted : Bool}
    {chunk : Option ChunkId} {res : Option JobId} {bank : Bank JobId} (h : Inv s)
    (hpc : s.delegate = .allocJob c piece rest before chunk)
    (halloc : s.jobBank.alloc res = some bank) :
    Inv { s with jobBank := bank, delegate := .queueData c piece rest exhausted chunk res } := by
  set t : State := { s with
    jobBank := bank, delegate := .queueData c piece rest exhausted chunk res }
  have htokens : tokens t = tokens s := by simp [t, tokens, hpc]
  have hjobHolders : jobHolders t = ↑res.toList + jobHolders s := by
    unfold jobHolders
    simp only [t, workJobs, hpc, DelegatePc.job, Option.toList_none, Multiset.coe_nil]
    abel
  have hchunkHolders : chunkHolders t = chunkHolders s := by
    unfold chunkHolders
    rw [chunkOf_congr (t := t) (s := s) rfl]
    simp [t, chunkJobs, hpc]
  refine ⟨h.owned.same htokens rfl rfl rfl rfl (queued_congr rfl rfl rfl), ?_, ?_, h.jobs.written,
    h.jobs.feeding_of rfl (fun _ hj => hj) (.of_eq htokens), h.jobs.ordered⟩
  · rw [hjobHolders]
    exact h.jobs.jobs.alloc_toList halloc
  · rw [hchunkHolders]
    exact h.jobs.chunks

/-- The delegate task's chunk and job, written but not queued. -/
def State.fill (s : State) (c : Ctx) (piece : Piece) (ch : ChunkId) (j : JobId) : State :=
  { s with
    chunks := Function.update s.chunks ch ((s.chunks ch).load (pieceStr piece))
    jobs := Function.update s.jobs j (some ⟨c, ch⟩) }

theorem unsent_subset_chunkJobs {j : JobId} (hj : j ∈ unsentJobs s) : j ∈ chunkJobs s := by
  simp only [unsentJobs, chunkJobs, List.mem_append] at *
  apply hj.imp_left
  intro hj
  cases hpc : s.httpd with
  | dataWorker j' pc => cases pc <;> simp_all
  | idle | callback _ | answering _ _ | closeWorker _ _ | finalizeWorker _ | crashed => simp_all

theorem chunkJobs_subset_workJobs {j : JobId} (hj : j ∈ chunkJobs s) : j ∈ workJobs s := by
  simp only [workJobs, chunkJobs, List.mem_append] at *
  apply hj.imp_left
  intro hj
  cases hpc : s.httpd with
  | dataWorker j' pc => cases pc <;> simp_all
  | idle | callback _ | answering _ _ | closeWorker _ _ | finalizeWorker _ | crashed => simp_all

section Fill

variable {piece : Piece} {rest : List Piece} {exhausted : Bool} {ch : ChunkId} {j : JobId}

/-- No queued or running job is the one being filled. -/
theorem Inv.job_ne (h : Inv s) (hpc : s.delegate = .queueData c piece rest exhausted (some ch) (some j))
    {j' : JobId} (hj' : j' ∈ workJobs s) : j' ≠ j := by
  have hnodup := h.jobs.jobs.nodup
  simp only [jobHolders, hpc, DelegatePc.job, Option.toList_some] at hnodup
  rw [Multiset.coe_add, Multiset.coe_add, Multiset.coe_nodup, List.append_assoc] at hnodup
  exact (List.nodup_append.mp hnodup).2.2 j' hj' j (by simp)

/-- Nor is its chunk the one being filled. -/
theorem Inv.chunk_ne (h : Inv s) (hpc : s.delegate = .queueData c piece rest exhausted (some ch) (some j))
    {j' : JobId} {job : SendJob} (hj' : j' ∈ chunkJobs s) (hjob : s.jobs j' = some job) :
    job.chunk ≠ ch := by
  have hnodup := h.jobs.chunks.nodup
  simp only [chunkHolders, hpc, DelegatePc.chunk, Option.toList_some] at hnodup
  rw [Multiset.coe_add, Multiset.coe_add, Multiset.coe_nodup, List.append_assoc] at hnodup
  have hmem : job.chunk ∈ (chunkJobs s).filterMap (chunkOf s) :=
    List.mem_filterMap.mpr ⟨j', hj', by simp [chunkOf, hjob]⟩
  exact (List.nodup_append.mp hnodup).2.2 _ hmem ch (by simp)

theorem fill_jobs (h : Inv s) (hpc : s.delegate = .queueData c piece rest exhausted (some ch) (some j))
    {j' : JobId} (hj' : j' ∈ workJobs s) : (s.fill c piece ch j).jobs j' = s.jobs j' :=
  Function.update_of_ne (h.job_ne hpc hj') _ _

/-- Filling a chunk and a job does not touch what is queued. -/
theorem fill_queued (h : Inv s)
    (hpc : s.delegate = .queueData c piece rest exhausted (some ch) (some j)) (r : Req) :
    queued (s.fill c piece ch j) r = queued s r := by
  refine List.filterMap_congr fun j' hj' => ?_
  have hchunkJob := unsent_subset_chunkJobs hj'
  have hjobs := fill_jobs h hpc (chunkJobs_subset_workJobs hchunkJob)
  cases hjob : s.jobs j' with
  | none => simp [payload, hjobs, hjob]
  | some job =>
    have hchunk : (s.fill c piece ch j).chunks job.chunk = s.chunks job.chunk :=
      Function.update_of_ne (h.chunk_ne hpc hchunkJob hjob) _ _
    simp [payload, hjobs, hjob, hchunk]

theorem fill_inv (h : Inv s) (hpc : s.delegate = .queueData c piece rest exhausted (some ch) (some j)) :
    Inv (s.fill c piece ch j) := by
  have hchunkOf : (chunkJobs s).filterMap (chunkOf (s.fill c piece ch j)) =
      (chunkJobs s).filterMap (chunkOf s) := by
    apply List.filterMap_congr
    intro j' hj'
    rw [chunkOf, chunkOf, fill_jobs h hpc (chunkJobs_subset_workJobs hj')]
  refine ⟨h.owned.same rfl rfl rfl rfl rfl (fill_queued h hpc), h.jobs.jobs, ?_, ?_, ?_, ?_⟩
  · have hholders : chunkHolders (s.fill c piece ch j) = chunkHolders s := by
      have hsame : chunkJobs (s.fill c piece ch j) = chunkJobs s := rfl
      unfold chunkHolders
      rw [hsame, hchunkOf]
      rfl
    rw [hholders]
    exact h.jobs.chunks
  · intro j' hj'
    rw [fill_jobs h hpc hj']
    exact h.jobs.written j' hj'
  · intro j' hj' job hjob
    rw [fill_jobs h hpc (chunkJobs_subset_workJobs (unsent_subset_chunkJobs hj'))] at hjob
    exact h.jobs.feeding j' hj' job hjob
  · refine h.jobs.ordered.imp_of_mem fun {a b} _ hb hab c' j' job ha heq hjob => ?_
    apply hab c' j' job ha heq
    have hj' : j' ∈ workJobs s :=
      List.mem_append_right _ (List.mem_filterMap.mpr ⟨b, hb, by rw [heq]; rfl⟩)
    rwa [fill_jobs h hpc hj'] at hjob

end Fill

/-- One more piece was offered. -/
theorem Streaming.offer {h : History} {rest : List Piece} {qs : List (List UInt8)} {started : Bool}
    (o : Offer) (hstream : Streaming h (o.piece :: rest) qs started) :
    Streaming { h with offers := h.offers ++ [o] } rest
      (qs ++ if o.fate = .queued then [(pieceStr o.piece).bytes] else []) started := by
  obtain ⟨offers, sent, rfl, haccepted, rfl⟩ := hstream
  refine ⟨offers ++ [o], sent, ?_, ?_, rfl⟩
  · simp [History.streamed]
  · rw [accepted_concat, ← haccepted, List.append_assoc]

/-- The filled job is accepted by the work queue. -/
def State.accept (s : State) (c : Ctx) (piece : Piece) (rest : List Piece)
    (exhausted : Bool) (j : JobId) : State :=
  State.log { s with delegate := .reading c rest, work := s.work ++ [.data j] }
    [.offered c ⟨piece, exhausted, .queued⟩]

/-- The filled job is rejected. -/
def State.reject (s : State) (c : Ctx) (piece : Piece) (rest : List Piece)
    (exhausted : Bool) (ch : ChunkId) (j : JobId) : State :=
  State.log { s with delegate := .reading c rest } [.offered c ⟨piece, exhausted, .rejected⟩, .lost c (.data ch j)]

section Queue

variable {piece : Piece} {rest : List Piece} {exhausted : Bool} {ch : ChunkId} {j : JobId}

theorem accept_queued (s : State) (c : Ctx) (piece : Piece) (rest : List Piece) (j : JobId)
    (r : Req) : queued (s.accept c piece rest exhausted j) r = queued s r ++ (payload s r j).toList := by
  have hunsent : unsentJobs (s.accept c piece rest exhausted j) = unsentJobs s ++ [j] := by
    simp [State.accept, unsentJobs, State.log]
  have hpayload : payload (s.accept c piece rest exhausted j) r = payload s r := rfl
  unfold queued
  rw [hunsent, List.filterMap_append, hpayload]
  cases hj : payload s r j <;> simp [hj]

theorem accept_tokens (hpc : s.delegate = .queueData c piece rest exhausted (some ch) (some j)) :
    ∃ others, tokens s = ⟨c, .streaming (piece :: rest)⟩ ::ₘ others ∧
      tokens (s.accept c piece rest exhausted j) = ⟨c, .streaming rest⟩ ::ₘ others := by
  apply exists_rest (by simp [tokens, hpc])
  simp [tokens, State.accept, State.log, hpc, -Multiset.singleton_add]
  abel

theorem accept_owned (h : Owned s) (hpc : s.delegate = .queueData c piece rest exhausted (some ch) (some j))
    (hjob : s.jobs j = some ⟨c, ch⟩) (hsent : (s.chunks ch).sent = (pieceStr piece).bytes) :
    Owned (s.accept c piece rest exhausted j) := by
  obtain ⟨others, hs, ht⟩ := accept_tokens hpc
  refine h.move hs ht ⟨rfl, by simp [Obs.ctx, Obs.Own], fun _ _ => rfl, fun r hr => ?_⟩ rfl rfl rfl ?_
  · rw [accept_queued, payload, hjob]
    simp [hr.symm]
  · rintro ⟨hlog, hstream⟩
    have hown : payload s c.owner j = some (pieceStr piece).bytes := by simp [payload, hjob, hsent]
    rw [accept_queued, hown]
    exact ⟨hlog, hstream.offer ⟨piece, exhausted, .queued⟩⟩

theorem accept_jobs (h : Inv s) (hpc : s.delegate = .queueData c piece rest exhausted (some ch) (some j))
    (hjob : s.jobs j = some ⟨c, ch⟩) : Jobs (s.accept c piece rest exhausted j) := by
  obtain ⟨others, hs, ht⟩ := accept_tokens hpc
  have hworkJobs : workJobs (s.accept c piece rest exhausted j) = workJobs s ++ [j] := by
    simp [State.accept, workJobs, State.log]
  have hchunkJobs : chunkJobs (s.accept c piece rest exhausted j) = chunkJobs s ++ [j] := by
    simp [State.accept, chunkJobs, State.log]
  have hunsent : unsentJobs (s.accept c piece rest exhausted j) = unsentJobs s ++ [j] := by
    simp [State.accept, unsentJobs, State.log]
  refine ⟨?_, ?_, ?_, ?_, ?_⟩
  · have hholders : jobHolders (s.accept c piece rest exhausted j) = jobHolders s := by
      unfold jobHolders
      rw [hworkJobs, hpc, ← Multiset.coe_add]
      simp [State.accept, State.log]
    rw [hholders]
    exact h.jobs.jobs
  · have hholders : chunkHolders (s.accept c piece rest exhausted j) = chunkHolders s := by
      have hsame : chunkOf (s.accept c piece rest exhausted j) = chunkOf s := rfl
      unfold chunkHolders
      rw [hsame, hchunkJobs, hpc, List.filterMap_append, ← Multiset.coe_add]
      simp [State.accept, State.log, chunkOf, hjob]
    rw [hholders]
    exact h.jobs.chunks
  · intro j' hj'
    rw [hworkJobs, List.mem_append, List.mem_singleton] at hj'
    rcases hj' with hj' | rfl
    · exact h.jobs.written j' hj'
    · exact ⟨_, hjob⟩
  · intro j' hj' job hjob'
    rw [hunsent, List.mem_append, List.mem_singleton] at hj'
    rcases hj' with hj' | rfl
    · obtain ⟨p, hp, hfeeds⟩ := h.jobs.feeding j' hj' job hjob'
      exact KeepsFeeding.of_move hs ht (fun _ _ => rfl) _ p hp hfeeds (queued_ne_nil hj' hjob')
    · obtain rfl := Option.some.inj (hjob.symm.trans hjob')
      exact ⟨_, by rw [ht]; exact Multiset.mem_cons_self _ _, rfl⟩
  · refine List.pairwise_append.mpr ⟨h.jobs.ordered, List.pairwise_singleton _ _, ?_⟩
    -- a close in the queue belongs to another request
    rintro a ha b hb c' j' job rfl rfl hjob'
    obtain rfl : j' = j := by simpa using hb
    obtain rfl := Option.some.inj (hjob.symm.trans hjob')
    have hclose : ⟨c', .closeQueued⟩ ∈ tokens s := by
      have hwork : (⟨c', .closeQueued⟩ : Token) ∈ workTokens s.work :=
        Multiset.mem_coe.mpr (List.mem_filterMap.mpr ⟨_, ha, rfl⟩)
      simp [tokens, hwork]
    rw [hs] at hclose
    have hothers := (Multiset.mem_cons.mp hclose).resolve_left (by simp)
    exact (h.owned.other hs hothers).2.symm

theorem reject_inv (h : Inv s) (hpc : s.delegate = .queueData c piece rest exhausted (some ch) (some j)) :
    Inv (s.reject c piece rest exhausted ch j) := by
  have hmem : ⟨c, .streaming (piece :: rest)⟩ ∈ tokens s := by simp [tokens, hpc]
  obtain ⟨others, hs, ht⟩ : ∃ others, tokens s = ⟨c, .streaming (piece :: rest)⟩ ::ₘ others ∧
      tokens (s.reject c piece rest exhausted ch j) = ⟨c, .streaming rest⟩ ::ₘ others := by
    apply exists_rest hmem
    simp [tokens, State.reject, State.log, hpc, -Multiset.singleton_add]
    abel
  have hlost : lostData (s.reject c piece rest exhausted ch j).trace = lostData s.trace ++ [(ch, j)] := by
    simp [State.reject, State.log]
  refine ⟨?_, ?_, ?_, h.jobs.written, ?_, h.jobs.ordered⟩
  · refine h.owned.move hs ht ⟨rfl, by simp [Obs.ctx, Obs.Own], fun _ _ => rfl, fun _ _ => rfl⟩ rfl
      rfl rfl ?_
    rintro ⟨hlog, hstream⟩
    have hoffer := hstream.offer ⟨piece, exhausted, .rejected⟩
    simp only [reduceCtorEq, if_false, List.append_nil] at hoffer
    exact ⟨hlog, hoffer⟩
  · have hholders : jobHolders (s.reject c piece rest exhausted ch j) = jobHolders s := by
      have hsame : workJobs (s.reject c piece rest exhausted ch j) = workJobs s := rfl
      unfold jobHolders
      rw [hsame, hlost, hpc, List.map_append, ← Multiset.coe_add]
      simp only [State.reject, State.log, DelegatePc.job, Option.toList_none, Option.toList_some,
        List.map_cons, List.map_nil, Multiset.coe_nil]
      abel
    rw [hholders]
    exact h.jobs.jobs
  · have hholders : chunkHolders (s.reject c piece rest exhausted ch j) = chunkHolders s := by
      have hsame : chunkOf (s.reject c piece rest exhausted ch j) = chunkOf s := rfl
      have hsameJobs : chunkJobs (s.reject c piece rest exhausted ch j) = chunkJobs s := rfl
      unfold chunkHolders
      rw [hsame, hsameJobs, hlost, hpc, List.map_append, ← Multiset.coe_add]
      simp only [State.reject, State.log, DelegatePc.chunk, Option.toList_none, Option.toList_some,
        List.map_cons, List.map_nil, Multiset.coe_nil]
      abel
    rw [hholders]
    exact h.jobs.chunks
  · exact h.jobs.feeding_of rfl (fun _ hj => hj) (.of_move hs ht fun _ _ => rfl)

/-- The piece is dropped, and what was allocated for it is given back. -/
theorem drop_inv {chunk : Option ChunkId} {job : Option JobId} {chunkBank : Bank ChunkId}
    {jobBank : Bank JobId} (h : Inv s) (hpc : s.delegate = .queueData c piece rest exhausted chunk job)
    (hchunk : ∀ m, s.chunkBank.Holds (↑chunk.toList + m) → chunkBank.Holds m)
    (hjob : ∀ m, s.jobBank.Holds (↑job.toList + m) → jobBank.Holds m) :
    Inv (State.log { s with delegate := .reading c rest, chunkBank := chunkBank, jobBank := jobBank }
      [.offered c ⟨piece, exhausted, .dropped⟩]) := by
  obtain ⟨t, ht⟩ : ∃ t, t = State.log { s with
    delegate := .reading c rest, chunkBank := chunkBank, jobBank := jobBank }
    [.offered c ⟨piece, exhausted, .dropped⟩] := ⟨_, rfl⟩
  have hmem : ⟨c, .streaming (piece :: rest)⟩ ∈ tokens s := by simp [tokens, hpc]
  obtain ⟨others, hs, htokens⟩ : ∃ others, tokens s = ⟨c, .streaming (piece :: rest)⟩ ::ₘ others ∧
      tokens t = ⟨c, .streaming rest⟩ ::ₘ others := by
    apply exists_rest hmem
    simp [ht, tokens, State.log, hpc, -Multiset.singleton_add]
    abel
  have hjobHolders : jobHolders s = ↑job.toList + jobHolders t := by
    have hsame : workJobs t = workJobs s := by rw [ht]; rfl
    unfold jobHolders
    rw [hsame, hpc, ht]
    simp only [State.log, DelegatePc.job, Option.toList_none, Multiset.coe_nil, lostData_append,
      lostData_cons, lostData_nil, Obs.data, List.append_nil]
    abel
  have hchunkHolders : chunkHolders s = ↑chunk.toList + chunkHolders t := by
    have hsame : chunkOf t = chunkOf s := by rw [ht]; rfl
    have hsameJobs : chunkJobs t = chunkJobs s := by rw [ht]; rfl
    unfold chunkHolders
    rw [hsame, hsameJobs, hpc, ht]
    simp only [State.log, DelegatePc.chunk, Option.toList_none, Multiset.coe_nil, lostData_append,
      lostData_cons, lostData_nil, Obs.data, List.append_nil]
    abel
  have hjobs := h.jobs.jobs
  have hchunks := h.jobs.chunks
  rw [hjobHolders] at hjobs
  rw [hchunkHolders] at hchunks
  subst ht
  refine ⟨?_, hjob _ hjobs, hchunk _ hchunks, h.jobs.written,
    h.jobs.feeding_of rfl (fun _ hj => hj) (.of_move hs htokens fun _ _ => rfl), h.jobs.ordered⟩
  refine h.owned.move hs htokens ⟨rfl, by simp [Obs.ctx, Obs.Own], fun _ _ => rfl, fun _ _ => rfl⟩
    rfl rfl rfl ?_
  rintro ⟨hlog, hstream⟩
  have hoffer := hstream.offer ⟨piece, exhausted, .dropped⟩
  simp only [reduceCtorEq, if_false, List.append_nil] at hoffer
  exact ⟨hlog, hoffer⟩

theorem queueData_inv {chunk : Option ChunkId} {job : Option JobId} {accepted : Bool} (h : Inv s)
    (hpc : s.delegate = .queueData c piece rest exhausted chunk job) (hlen : piece.length ≤ 255) :
    Inv (queueData s c piece rest exhausted chunk job accepted) := by
  have hkeepChunk : ∀ m, s.chunkBank.Holds (↑(none : Option ChunkId).toList + m) →
      s.chunkBank.Holds m := fun m hm => by simpa using hm
  have hkeepJob : ∀ m, s.jobBank.Holds (↑(none : Option JobId).toList + m) → s.jobBank.Holds m :=
    fun m hm => by simpa using hm
  cases chunk with
  | none =>
    cases job with
    | none =>
      have hdrop := drop_inv h hpc hkeepChunk hkeepJob
      exact hdrop
    | some j =>
      have hdrop := drop_inv h hpc hkeepChunk fun m hm =>
        Bank.Holds.free (i := j) (by simpa using hm)
      exact hdrop
  | some ch =>
    cases job with
    | none =>
      have hdrop := drop_inv h hpc (fun m hm => Bank.Holds.free (i := ch) (by simpa using hm))
        hkeepJob
      exact hdrop
    | some j =>
      have hfill := fill_inv h hpc
      have hjob : (s.fill c piece ch j).jobs j = some ⟨c, ch⟩ := Function.update_self j _ s.jobs
      have hchunk : (s.fill c piece ch j).chunks ch = (s.chunks ch).load (pieceStr piece) :=
        Function.update_self ch _ s.chunks
      cases accepted with
      | true =>
        have haccept := accept_owned hfill.owned hpc hjob (by rw [hchunk, sent_load_piece _ hlen])
        have hjobs := accept_jobs hfill hpc hjob
        exact ⟨haccept, hjobs⟩
      | false =>
        have hreject := reject_inv hfill hpc
        exact hreject

end Queue

theorem queueClose_inv (h : Inv s) (hpc : s.delegate = .reading c []) :
    Inv { s with delegate := .idle, work := s.work ++ [.close c] } := by
  have hmem : ⟨c, .streaming []⟩ ∈ tokens s := by simp [tokens, hpc]
  refine h.pass (q := .closeQueued) ⟨by simp, by simp, rfl, rfl, rfl, ⟨rfl, rfl, rfl,
    by simp [workJobs], by simp [chunkJobs], by simp [unsentJobs], by simp [hpc], by simp [hpc],
    rfl⟩, ordered_concat h.jobs.ordered rfl⟩ rfl hmem ?_ (fun _ _ => rfl) id
  simp [tokens, hpc, -Multiset.singleton_add]
  abel

theorem loseClose_inv (h : Inv s) (hpc : s.delegate = .reading c []) :
    Inv (State.log { s with delegate := .idle } [.lost c .close]) := by
  have hmem : ⟨c, .streaming []⟩ ∈ tokens s := by simp [tokens, hpc]
  refine h.handover (q := .lostClose) ⟨rfl, by simp [Obs.ctx, Obs.Own], rfl, rfl, rfl, ⟨rfl, rfl,
    rfl, rfl, rfl, rfl, by simp [State.log, hpc], by simp [State.log, hpc], by simp [State.log]⟩,
    h.jobs.ordered⟩ rfl hmem ?_ (fun _ _ => rfl) ?_
  · simp [State.log, tokens, hpc, -Multiset.singleton_add]
    abel
  · rintro ⟨hlog, hstream⟩
    exact ⟨hlog, _, rfl, hstream⟩

/-- What a step of the delegate task can be. -/
inductive DelegateKind (s : State) : State → Prop where
  | allocChunk (c : Ctx) (piece : Piece) (rest : List Piece) (res : Option ChunkId)
    (bank : Bank ChunkId) (pc : s.delegate = .reading c (piece :: rest))
    (alloc : s.chunkBank.alloc res = some bank) :
    DelegateKind s { s with
      chunkBank := bank, delegate := .allocJob c piece rest s.chunkBank.exhausted res }
  | allocJob (c : Ctx) (piece : Piece) (rest : List Piece) (exhausted : Bool)
    (chunk : Option ChunkId) (res : Option JobId) (bank : Bank JobId)
    (pc : s.delegate = .allocJob c piece rest exhausted chunk)
    (alloc : s.jobBank.alloc res = some bank) :
    DelegateKind s { s with
      jobBank := bank
      delegate := .queueData c piece rest (exhausted || s.jobBank.exhausted) chunk res }
  | queueData (c : Ctx) (piece : Piece) (rest : List Piece) (exhausted : Bool)
    (chunk : Option ChunkId) (job : Option JobId) (accepted : Bool)
    (pc : s.delegate = .queueData c piece rest exhausted chunk job) :
    DelegateKind s (queueData s c piece rest exhausted chunk job accepted)
  | queueClose (c : Ctx) (pc : s.delegate = .reading c []) :
    DelegateKind s { s with delegate := .idle, work := s.work ++ [.close c] }
  | loseClose (c : Ctx) (pc : s.delegate = .reading c []) :
    DelegateKind s (State.log { s with delegate := .idle } [.lost c .close])

theorem delegateStep_kind {a : Answer} (hstep : delegateStep s a = some t) : DelegateKind s t := by
  cases hpc : s.delegate with
  | idle => simp [delegateStep, hpc] at hstep
  | reading c rest =>
    cases rest with
    | nil =>
      cases a with
      | chunk res | job res => simp [delegateStep, hpc] at hstep
      | queue accepted =>
        simp only [delegateStep, hpc] at hstep
        cases accepted with
        | true =>
          obtain rfl := Option.some.inj hstep
          exact .queueClose c hpc
        | false =>
          obtain rfl := Option.some.inj hstep
          exact .loseClose c hpc
    | cons piece rest =>
      cases a with
      | job res | queue accepted => simp [delegateStep, hpc] at hstep
      | chunk res =>
        simp only [delegateStep, hpc] at hstep
        obtain ⟨bank, halloc, rfl⟩ := Option.map_eq_some_iff.mp hstep
        exact .allocChunk c piece rest res bank hpc halloc
  | allocJob c piece rest exhausted chunk =>
    cases a with
    | chunk res | queue accepted => simp [delegateStep, hpc] at hstep
    | job res =>
      simp only [delegateStep, hpc] at hstep
      obtain ⟨bank, halloc, rfl⟩ := Option.map_eq_some_iff.mp hstep
      exact .allocJob c piece rest exhausted chunk res bank hpc halloc
  | queueData c piece rest exhausted chunk job =>
    cases a with
    | chunk res | job res => simp [delegateStep, hpc] at hstep
    | queue accepted =>
      simp only [delegateStep, hpc] at hstep
      obtain rfl := Option.some.inj hstep
      exact .queueData c piece rest exhausted chunk job accepted hpc

/-! ## Every step -/

theorem httpdStep_inv {accepted : Bool} (h : Inv s) (hstep : httpdStep s accepted = some t) :
    Inv t := by
  cases hpc : s.httpd with
  | idle | callback c | crashed => simp [httpdStep, hpc] at hstep
  | answering c pc => exact httpdAnswer_inv h hpc hstep
  | dataWorker j pc =>
    obtain ⟨job, hjob⟩ := h.jobs.written j (by simp [workJobs, hpc])
    simp only [httpdStep, hpc, hjob] at hstep
    cases pc with
    | send => exact send_inv h hpc hjob hstep
    | freeChunk =>
      obtain rfl := Option.some.inj hstep
      exact freeChunk_inv h hpc hjob
    | freeJob =>
      obtain rfl := Option.some.inj hstep
      exact freeJob_inv h hpc
  | closeWorker c pc =>
    simp only [httpdStep, hpc] at hstep
    exact closeWorker_inv h hpc hstep
  | finalizeWorker c =>
    simp only [httpdStep, hpc, Option.some.injEq] at hstep
    subst hstep
    exact finalizeWorker_inv h hpc

/-- The pieces still to be offered. -/
def DelegatePc.pieces : DelegatePc → List Piece
  | .idle => []
  | .reading _ rest => rest
  | .allocJob _ piece rest _ _ | .queueData _ piece rest _ _ _ => piece :: rest

theorem delegateStep_inv {a : Answer} (h : Inv s) (hpieces : Readable s.delegate.pieces)
    (hstep : delegateStep s a = some t) : Inv t ∧ Readable t.delegate.pieces := by
  cases delegateStep_kind hstep with
  | allocChunk c piece rest res bank hpc halloc =>
    exact ⟨allocChunk_inv h hpc halloc, by simpa [hpc, DelegatePc.pieces] using hpieces⟩
  | allocJob c piece rest exhausted chunk res bank hpc halloc =>
    exact ⟨allocJob_inv h hpc halloc, by simpa [hpc, DelegatePc.pieces] using hpieces⟩
  | queueData c piece rest exhausted chunk job accepted hpc =>
    rw [hpc] at hpieces
    refine ⟨queueData_inv h hpc (hpieces piece (List.mem_cons_self ..)).2, ?_⟩
    have hreading : (queueData s c piece rest exhausted chunk job accepted).delegate =
        .reading c rest := by
      cases chunk <;> cases job <;> cases accepted <;> rfl
    rw [hreading]
    exact fun p hp => hpieces p (List.mem_cons_of_mem piece hp)
  | queueClose c hpc => exact ⟨queueClose_inv h hpc, fun p hp => absurd hp List.not_mem_nil⟩
  | loseClose c hpc => exact ⟨loseClose_inv h hpc, fun p hp => absurd hp List.not_mem_nil⟩

end HomeNode.Http
