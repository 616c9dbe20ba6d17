-- SUMMARY: Who holds the chunks and the send jobs, and that the data of a request is sent before its end.
import HomeNode.Http.Tokens

/-!
# Chunks and send jobs

The objects of the two data pools are held by the delegate task while it fills
them, by the queued data jobs, by the running one, and for ever by the jobs that
`httpd_queue_work` rejected.
-/

namespace HomeNode.Http

/-! ## Holders -/

@[simp] def HttpdPc.job : HttpdPc → Option JobId
  | .dataWorker j _ => some j
  | _ => none

/-- The running job, while it has its chunk. -/
@[simp] def HttpdPc.chunkJob : HttpdPc → Option JobId
  | .dataWorker j .send | .dataWorker j .freeChunk => some j
  | _ => none

@[simp] def DelegatePc.chunk : DelegatePc → Option ChunkId
  | .allocJob _ _ _ _ chunk | .queueData _ _ _ _ chunk _ => chunk
  | _ => none

@[simp] def DelegatePc.job : DelegatePc → Option JobId
  | .queueData _ _ _ _ _ job => job
  | _ => none

@[simp] def Obs.data : Obs → Option (ChunkId × JobId)
  | .lost _ (.data ch j) => some (ch, j)
  | _ => none

/-- The chunks and jobs of the data work that was rejected. -/
def lostData (tr : List Obs) : List (ChunkId × JobId) := tr.filterMap Obs.data

@[simp] theorem lostData_append (tr obs : List Obs) :
    lostData (tr ++ obs) = lostData tr ++ lostData obs := by
  simp [lostData]

@[simp] theorem lostData_nil : lostData [] = [] := rfl

@[simp] theorem lostData_cons (o : Obs) (tr : List Obs) :
    lostData (o :: tr) = o.data.toList ++ lostData tr := by
  unfold lostData
  rw [List.filterMap_cons]
  cases o.data with
  | none => rfl
  | some d => rfl

@[simp] theorem lostData_calls (c : Ctx) (r : Req) (hs : List HttpdCall) :
    lostData (calls c r hs) = [] := by
  induction hs with
  | nil => rfl
  | cons h hs ih => exact ih

/-- The jobs of the running and of the queued data work. -/
def workJobs (s : State) : List JobId := s.httpd.job.toList ++ s.work.filterMap Work.job

/-- Those that have a chunk. -/
def chunkJobs (s : State) : List JobId := s.httpd.chunkJob.toList ++ s.work.filterMap Work.job

def chunkOf (s : State) (j : JobId) : Option ChunkId := (s.jobs j).map SendJob.chunk

def jobHolders (s : State) : Multiset JobId :=
  ↑(workJobs s) + ↑s.delegate.job.toList + ↑((lostData s.trace).map Prod.snd)

def chunkHolders (s : State) : Multiset ChunkId :=
  ↑((chunkJobs s).filterMap (chunkOf s)) + ↑s.delegate.chunk.toList +
    ↑((lostData s.trace).map Prod.fst)

/-- Some task or queue still has a step to make for `r`. -/
def Pending (s : State) (r : Req) : Prop :=
  (∃ u ∈ tokens s, u.ctx.owner = r ∧ u.place.stuck = false) ∨
    ∃ j ∈ workJobs s, (s.jobs j).map (fun job => job.ctx.owner) = some r

instance (s : State) (r : Req) : Decidable (Pending s r) :=
  @instDecidableOr _ _ Multiset.decidableExistsMultiset inferInstance

/-! ## The invariant -/

/-- `b` is not data of the request that `a` closes. -/
def NotAfterClose (s : State) (a b : Work) : Prop :=
  ∀ c j job, a = .close c → b = .data j → s.jobs j = some job → job.ctx.owner ≠ c.owner

structure Jobs (s : State) : Prop where
  jobs : s.jobBank.Holds (jobHolders s)
  chunks : s.chunkBank.Holds (chunkHolders s)
  written : ∀ j ∈ workJobs s, ∃ job, s.jobs j = some job
  feeding : ∀ j ∈ unsentJobs s, ∀ job, s.jobs j = some job →
    ∃ p, ⟨job.ctx, p⟩ ∈ tokens s ∧ p.feeds
  ordered : s.work.Pairwise (NotAfterClose s)

variable {s t : State} {c : Ctx} {p q : Place} {rest : Multiset Token}

/-- The unsent data of a request is what `queued` lists. -/
theorem queued_ne_nil {j : JobId} {job : SendJob} (hj : j ∈ unsentJobs s)
    (hjob : s.jobs j = some job) : queued s job.ctx.owner ≠ [] := by
  have hpayload : payload s job.ctx.owner j = some (s.chunks job.chunk).sent := by
    simp [payload, hjob]
  exact List.ne_nil_of_mem (List.mem_filterMap.mpr ⟨j, hj, hpayload⟩)

theorem queued_congr (hjobs : t.jobs = s.jobs) (hchunks : t.chunks = s.chunks)
    (hunsent : unsentJobs t = unsentJobs s) (r : Req) : queued t r = queued s r := by
  unfold queued payload
  rw [hunsent, hjobs, hchunks]

theorem chunkOf_congr (hjobs : t.jobs = s.jobs) : chunkOf t = chunkOf s := by
  funext j
  rw [chunkOf, chunkOf, hjobs]

/-- `t` differs from `s` in nothing that the data jobs depend on. -/
structure SameJobs (s t : State) : Prop where
  jobBank : t.jobBank = s.jobBank
  chunkBank : t.chunkBank = s.chunkBank
  jobs : t.jobs = s.jobs
  workJobs : workJobs t = workJobs s
  chunkJobs : chunkJobs t = chunkJobs s
  unsent : unsentJobs t = unsentJobs s
  job : t.delegate.job = s.delegate.job
  chunk : t.delegate.chunk = s.delegate.chunk
  lost : lostData t.trace = lostData s.trace

/-- Each feeding token with unsent data stays a feeding one. -/
def KeepsFeeding (s t : State) : Prop :=
  ∀ c p, ⟨c, p⟩ ∈ tokens s → p.feeds → queued s c.owner ≠ [] → ∃ q, ⟨c, q⟩ ∈ tokens t ∧ q.feeds

theorem Jobs.feeding_of (h : Jobs s) (hjobs : t.jobs = s.jobs)
    (hunsent : ∀ j ∈ unsentJobs t, j ∈ unsentJobs s) (hfeeding : KeepsFeeding s t) :
    ∀ j ∈ unsentJobs t, ∀ job, t.jobs j = some job → ∃ p, ⟨job.ctx, p⟩ ∈ tokens t ∧ p.feeds := by
  intro j hj job hjob
  rw [hjobs] at hjob
  obtain ⟨p, hp, hfeeds⟩ := h.feeding j (hunsent j hj) job hjob
  exact hfeeding _ p hp hfeeds (queued_ne_nil (hunsent j hj) hjob)

theorem Jobs.same (h : Jobs s) (hsame : SameJobs s t) (hfeeding : KeepsFeeding s t)
    (hordered : t.work.Pairwise (NotAfterClose s)) : Jobs t := by
  refine ⟨?_, ?_, ?_, h.feeding_of hsame.jobs (fun j hj => hsame.unsent ▸ hj) hfeeding, ?_⟩
  · unfold jobHolders
    rw [hsame.jobBank, hsame.workJobs, hsame.job, hsame.lost]
    exact h.jobs
  · unfold chunkHolders
    rw [hsame.chunkBank, hsame.chunkJobs, hsame.chunk, hsame.lost, chunkOf_congr hsame.jobs]
    exact h.chunks
  · rw [hsame.workJobs, hsame.jobs]
    exact h.written
  · refine hordered.imp fun hab c j job ha hb hjob => hab c j job ha hb ?_
    rw [← hsame.jobs]
    exact hjob

theorem KeepsFeeding.of_eq (h : tokens t = tokens s) : KeepsFeeding s t :=
  fun _ p hp hfeeds _ => ⟨p, h ▸ hp, hfeeds⟩

/-- A token that moves on must go on feeding, if it has unsent data. -/
theorem KeepsFeeding.of_move (hs : tokens s = ⟨c, p⟩ ::ₘ rest) (ht : tokens t = ⟨c, q⟩ ::ₘ rest)
    (hq : p.feeds → queued s c.owner ≠ [] → q.feeds) : KeepsFeeding s t := by
  intro c' p' hmem hfeeds hqueued
  rw [hs] at hmem
  rw [ht]
  rcases Multiset.mem_cons.mp hmem with heq | hmem
  · obtain ⟨rfl, rfl⟩ := Token.mk.inj heq
    exact ⟨q, Multiset.mem_cons_self _ _, hq hfeeds hqueued⟩
  · exact ⟨p', Multiset.mem_cons_of_mem hmem, hfeeds⟩

theorem KeepsFeeding.of_remove (hs : tokens s = ⟨c, p⟩ ::ₘ rest) (ht : tokens t = rest)
    (hp : p.feeds = false) : KeepsFeeding s t := by
  intro c' p' hmem hfeeds _
  rw [hs] at hmem
  rw [ht]
  rcases Multiset.mem_cons.mp hmem with heq | hmem
  · obtain ⟨rfl, rfl⟩ := Token.mk.inj heq
    rw [hp] at hfeeds
    exact Bool.noConfusion hfeeds
  · exact ⟨p', hmem, hfeeds⟩

theorem KeepsFeeding.of_insert {u : Token} (ht : tokens t = u ::ₘ tokens s) : KeepsFeeding s t :=
  fun _ p hp hfeeds _ => ⟨p, by rw [ht]; exact Multiset.mem_cons_of_mem hp, hfeeds⟩

/-- Nothing is ever sent behind a close. -/
theorem ordered_concat {w : Work} (h : s.work.Pairwise (NotAfterClose s))
    (hw : w.job = none) : (s.work ++ [w]).Pairwise (NotAfterClose s) := by
  refine List.pairwise_append.mpr ⟨h, List.pairwise_singleton _ _, fun a _ b hb => ?_⟩
  obtain rfl : b = w := by simpa using hb
  rintro c j job - rfl -
  simp [Work.job] at hw

end HomeNode.Http
