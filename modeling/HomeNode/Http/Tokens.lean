-- SUMMARY: Where the context of each request is, and the invariant that it is in one place only.
import HomeNode.Http.History
import Mathlib.Data.Multiset.AddSub
import Mathlib.Tactic.Abel

/-!
# Contexts as tokens

A context that some task or queue still holds is a token, and its place says what
the holder will do with it. The invariant `Owned` reads the tokens off the whole
state: each slot in use has one token, the request in the slot is the one the
token was made for, and the history of that request is what its place expects.
A rejected work item leaves its token behind, in a place where nothing moves it.
-/

namespace HomeNode.Http

/-! ## Places -/

inductive Place where
  | callback
  | posted
  | onAir
  | answering (pc : AnswerPc)
  | delegated
  | streaming (rest : List Piece)
  | closeQueued
  | closing (pc : ClosePc)
  | finalizeQueued
  | finalizing
  | lostClose
  | lostFinalize
  deriving DecidableEq

structure Token where
  ctx : Ctx
  place : Place
  deriving DecidableEq

/-- The calls made before each step of an answer. -/
def AnswerPc.calls (r : Req) (o : Outcome) : AnswerPc → List HttpdCall
  | .respond _ => []
  | .complete => sendResponse r o.text
  | .free => sendResponse r o.text ++ [.complete]

/-- The text about to be sent is that of the outcome. -/
def AnswerPc.Reports (o : Outcome) : AnswerPc → Prop
  | .respond text => text = o.text
  | _ => True

/-- The calls of the close worker before each of its steps. -/
def ClosePc.calls : ClosePc → List HttpdCall
  | .sendEnd => []
  | .complete => [.sendChunk []]
  | .queueFinalize => endCalls

/-- A log request that has sent the chunks `sent`, with `queued` still to be sent. -/
def Streaming (h : History) (rest : List Piece) (queued : List (List UInt8)) (started : Bool) :
    Prop :=
  ∃ offers sent, h = .streamed offers rest sent [] ∧ sent ++ queued = accepted offers ∧
    started = !sent.isEmpty

/-- What the history of the request `r` is while its token is at a place. -/
def Place.Ok (r : Req) (h : History) (queued : List (List UInt8)) (started : Bool) :
    Place → Prop
  | .callback | .posted => h = .opened ∧ queued = [] ∧ started = false
  | .onAir =>
    r.command ≠ .log ∧ r.command ≠ .otaUpdate ∧ h = .opened ∧ queued = [] ∧ started = false
  | .answering pc =>
    queued = [] ∧ ∃ o, o.Fits r.command ∧ pc.Reports o ∧ h = .answered o (pc.calls r o)
  | .delegated => r.command = .log ∧ h = .opened ∧ queued = [] ∧ started = false
  | .streaming rest => r.command = .log ∧ Streaming h rest queued started
  | .closeQueued => r.command = .log ∧ Streaming h [] queued started
  | .closing pc =>
    r.command = .log ∧ queued = [] ∧ ∃ offers,
      h = .streamed offers [] (accepted offers) pc.calls
  | .finalizeQueued | .finalizing =>
    r.command = .log ∧ queued = [] ∧ ∃ offers,
      h = .streamed offers [] (accepted offers) endCalls
  | .lostClose =>
    r.command = .log ∧ ∃ h', h = { h' with lostClose := true } ∧ Streaming h' [] queued started
  | .lostFinalize =>
    r.command = .log ∧ queued = [] ∧ ∃ offers,
      h = { History.streamed offers [] (accepted offers) endCalls with lostFinalize := true }

/-- Data of the request may be queued. -/
def Place.feeds : Place → Bool
  | .streaming _ | .closeQueued | .lostClose => true
  | _ => false

/-- Nothing will move the token. -/
def Place.stuck : Place → Bool
  | .lostClose | .lostFinalize => true
  | _ => false

/-! ## The tokens of a state -/

@[simp] def httpdTokens : HttpdPc → Multiset Token
  | .callback c => {⟨c, .callback⟩}
  | .answering c pc => {⟨c, .answering pc⟩}
  | .closeWorker c pc => {⟨c, .closing pc⟩}
  | .finalizeWorker c => {⟨c, .finalizing⟩}
  | .idle | .dataWorker _ _ | .crashed => 0

@[simp] def loopTokens : LoopPc → Multiset Token
  | .idle => 0
  | .answering c pc => {⟨c, .answering pc⟩}

@[simp] def delegateTokens : DelegatePc → Multiset Token
  | .idle => 0
  | .reading c rest => {⟨c, .streaming rest⟩}
  | .allocJob c piece rest _ _ => {⟨c, .streaming (piece :: rest)⟩}
  | .queueData c piece rest _ _ _ => {⟨c, .streaming (piece :: rest)⟩}

/-- The tokens of the contexts in a queue. -/
def placed (p : Place) (cs : List Ctx) : Multiset Token := ↑(cs.map fun c => Token.mk c p)

@[simp] def Work.token : Work → Option Token
  | .data _ => none
  | .close c => some ⟨c, .closeQueued⟩
  | .finalize c => some ⟨c, .finalizeQueued⟩

def workTokens (work : List Work) : Multiset Token := ↑(work.filterMap Work.token)

@[simp] def Obs.token : Obs → Option Token
  | .lost c .close => some ⟨c, .lostClose⟩
  | .lost c .finalize => some ⟨c, .lostFinalize⟩
  | _ => none

def lostTokens (tr : List Obs) : Multiset Token := ↑(tr.filterMap Obs.token)

def tokens (s : State) : Multiset Token :=
  httpdTokens s.httpd + loopTokens s.loop + delegateTokens s.delegate + placed .posted s.events +
    placed .onAir s.onAir + placed .delegated s.delegated + workTokens s.work +
    lostTokens s.trace

@[simp] theorem placed_nil (p : Place) : placed p [] = 0 := rfl

@[simp] theorem placed_cons (p : Place) (c : Ctx) (cs : List Ctx) :
    placed p (c :: cs) = {⟨c, p⟩} + placed p cs := rfl

@[simp] theorem placed_append (p : Place) (cs ds : List Ctx) :
    placed p (cs ++ ds) = placed p cs + placed p ds := by
  simp [placed]

theorem placed_erase {p : Place} {c : Ctx} {cs : List Ctx} (h : c ∈ cs) :
    placed p cs = {⟨c, p⟩} + placed p (cs.erase c) := by
  have hperm : placed p cs = placed p (c :: cs.erase c) := by
    unfold placed
    exact Multiset.coe_eq_coe.mpr ((List.perm_cons_erase h).map _)
  rw [hperm, placed_cons]

@[simp] theorem workTokens_cons (w : Work) (work : List Work) :
    workTokens (w :: work) = ↑w.token.toList + workTokens work := by
  cases w <;> simp [workTokens, List.filterMap_cons]

@[simp] theorem workTokens_append (work rest : List Work) :
    workTokens (work ++ rest) = workTokens work + workTokens rest := by
  simp [workTokens]

@[simp] theorem lostTokens_append (tr obs : List Obs) :
    lostTokens (tr ++ obs) = lostTokens tr + lostTokens obs := by
  simp [lostTokens]

@[simp] theorem lostTokens_cons (o : Obs) (tr : List Obs) :
    lostTokens (o :: tr) = ↑o.token.toList + lostTokens tr := by
  unfold lostTokens
  rw [List.filterMap_cons]
  cases o.token with
  | none => exact (Multiset.zero_add _).symm
  | some u => rfl

@[simp] theorem lostTokens_nil : lostTokens [] = 0 := rfl

@[simp] theorem lostTokens_calls (c : Ctx) (r : Req) (hs : List HttpdCall) :
    lostTokens (calls c r hs) = 0 := by
  induction hs with
  | nil => rfl
  | cons h hs ih => exact ih

/-! ## Rejected work items -/

theorem mem_lostTokens {tr : List Obs} {u : Token} :
    u ∈ lostTokens tr ↔ ∃ o ∈ tr, o.token = some u := by
  simp [lostTokens]

theorem stuck_of_lost {tr : List Obs} {u : Token} (hu : u ∈ lostTokens tr) : u.place.stuck := by
  obtain ⟨o, -, ho⟩ := mem_lostTokens.mp hu
  cases o with
  | lost c w =>
    cases w with
    | data ch j => simp at ho
    | close | finalize =>
      obtain rfl := Option.some.inj ho
      rfl
  | begun _ | command _ _ | call _ _ _ | freed _ _ | snapshot _ _ | offered _ _ => simp at ho

theorem not_stuck_of_placed {p : Place} {cs : List Ctx} {u : Token} (hu : u ∈ placed p cs)
    (hp : p.stuck = false) : u.place.stuck = false := by
  obtain ⟨c, -, rfl⟩ := List.mem_map.mp (Multiset.mem_coe.mp hu)
  exact hp

/-- A token that nothing moves is one whose close or finalize was rejected. -/
theorem lost_of_stuck {s : State} {u : Token} (hu : u ∈ tokens s) (hstuck : u.place.stuck) :
    u ∈ lostTokens s.trace := by
  by_contra hlost
  have hfree : u.place.stuck = false := by
    simp only [tokens, Multiset.mem_add, hlost, or_false] at hu
    rcases hu with (((((hu | hu) | hu) | hu) | hu) | hu) | hu
    · cases hpc : s.httpd <;> simp_all [Place.stuck]
    · cases hpc : s.loop <;> simp_all [Place.stuck]
    · cases hpc : s.delegate <;> simp_all [Place.stuck]
    · exact not_stuck_of_placed hu rfl
    · exact not_stuck_of_placed hu rfl
    · exact not_stuck_of_placed hu rfl
    · obtain ⟨w, -, hw⟩ := List.mem_filterMap.mp (Multiset.mem_coe.mp hu)
      cases w <;> simp at hw <;> (obtain rfl := hw; rfl)
  rw [hfree] at hstuck
  exact Bool.noConfusion hstuck

theorem lost_mem_tokens {s : State} {u : Token} (hu : u ∈ lostTokens s.trace) : u ∈ tokens s :=
  Multiset.mem_add.mpr (.inr hu)

theorem not_mem_lostTokens {tr : List Obs} (hclose : ∀ c, .lost c .close ∉ tr)
    (hfinalize : ∀ c, .lost c .finalize ∉ tr) (u : Token) : u ∉ lostTokens tr := by
  intro hu
  obtain ⟨o, ho, htoken⟩ := mem_lostTokens.mp hu
  cases o with
  | lost c w =>
    cases w with
    | data ch j => simp at htoken
    | close => exact hclose c ho
    | finalize => exact hfinalize c ho
  | begun _ | command _ _ | call _ _ _ | freed _ _ | snapshot _ _ | offered _ _ => simp at htoken

/-! ## Queued data -/

@[simp] def Work.job : Work → Option JobId
  | .data j => some j
  | _ => none

/-- The job that the data worker has not sent yet. -/
@[simp] def HttpdPc.unsent : HttpdPc → List JobId
  | .dataWorker j .send => [j]
  | _ => []

/-- The jobs whose data is still to be sent, in order. -/
def unsentJobs (s : State) : List JobId := s.httpd.unsent ++ s.work.filterMap Work.job

/-- The chunk a job will send, if it is a job of `r`. -/
def payload (s : State) (r : Req) (j : JobId) : Option (List UInt8) :=
  match s.jobs j with
  | some job => if job.ctx.owner = r then some (s.chunks job.chunk).sent else none
  | none => none

/-- The chunks of `r` still to be sent. -/
def queued (s : State) (r : Req) : List (List UInt8) := (unsentJobs s).filterMap (payload s r)

/-! ## The invariant -/

structure Owned (s : State) : Prop where
  slots : s.slotBank.Holds ((tokens s).map fun t => t.ctx.slot)
  owners : ((tokens s).map fun t => t.ctx.owner).Nodup
  held : ∀ t ∈ tokens s, (s.slots t.ctx.slot).req = some t.ctx.owner ∧
    t.place.Ok t.ctx.owner (history t.ctx.owner s.trace) (queued s t.ctx.owner)
      (s.slots t.ctx.slot).responseStarted
  fresh : ∀ r : Req, s.nextId ≤ r.id → history r s.trace = .empty
  ended : ∀ r : Req, (∀ t ∈ tokens s, t.ctx.owner ≠ r) →
    history r s.trace = .empty ∨ Done r (history r s.trace)
  own : ∀ o ∈ s.trace, o.Own

theorem Place.Ok.begun {r : Req} {h : History} {qs : List (List UInt8)} {started : Bool}
    {p : Place} (hok : p.Ok r h qs started) : h.begun = true := by
  cases p with
  | callback | posted => rw [hok.1]; rfl
  | onAir => rw [hok.2.2.1]; rfl
  | answering pc =>
    obtain ⟨-, o, -, -, rfl⟩ := hok
    rfl
  | delegated => rw [hok.2.1]; rfl
  | streaming rest | closeQueued =>
    obtain ⟨-, offers, sent, rfl, -⟩ := hok
    rfl
  | closing pc | finalizeQueued | finalizing | lostFinalize =>
    obtain ⟨-, -, offers, rfl⟩ := hok
    rfl
  | lostClose =>
    obtain ⟨-, h', rfl, offers, sent, rfl, -⟩ := hok
    rfl

/-- The history of a request is what its token says, or the request has not arrived,
or it is over. -/
theorem Owned.history_cases {s : State} (h : Owned s) (r : Req) :
    (∃ u ∈ tokens s, u.ctx.owner = r ∧ u.place.Ok r (history r s.trace) (queued s r)
      (s.slots u.ctx.slot).responseStarted) ∨
    history r s.trace = .empty ∨ Done r (history r s.trace) := by
  by_cases htoken : ∃ u ∈ tokens s, u.ctx.owner = r
  · obtain ⟨u, hu, rfl⟩ := htoken
    exact .inl ⟨u, hu, rfl, (h.held u hu).2⟩
  · exact .inr (h.ended r (by simpa using htoken))

/-- What a step that works for the context `c` leaves alone. -/
structure Frame (s t : State) (c : Ctx) (obs : List Obs) : Prop where
  trace : t.trace = s.trace ++ obs
  obs : ∀ o ∈ obs, o.ctx = c ∧ o.Own
  slots : ∀ i, i ≠ c.slot → t.slots i = s.slots i
  queued : ∀ r, r ≠ c.owner → queued t r = queued s r

variable {s t : State} {c : Ctx} {p q : Place} {rest : Multiset Token} {obs : List Obs}

theorem Frame.history_own (h : Frame s t c obs) :
    history c.owner t.trace = obs.foldl History.add (history c.owner s.trace) := by
  rw [h.trace]
  exact history_append_own _ fun o ho => by rw [(h.obs o ho).1]

theorem Frame.history_other (h : Frame s t c obs) {r : Req} (hr : r ≠ c.owner) :
    history r t.trace = history r s.trace := by
  rw [h.trace]
  exact history_append_other _ fun o ho => by rw [(h.obs o ho).1]; exact hr.symm

theorem Frame.own (h : Frame s t c obs) (hs : ∀ o ∈ s.trace, o.Own) : ∀ o ∈ t.trace, o.Own := by
  intro o ho
  rw [h.trace] at ho
  rcases List.mem_append.mp ho with ho | ho
  · exact hs o ho
  · exact (h.obs o ho).2

/-- The tokens beside that of `c` belong to other slots and other requests. -/
theorem Owned.other (h : Owned s) (hs : tokens s = ⟨c, p⟩ ::ₘ rest) {u : Token} (hu : u ∈ rest) :
    u.ctx.slot ≠ c.slot ∧ u.ctx.owner ≠ c.owner := by
  have hslots := h.slots.nodup
  have howners := h.owners
  rw [hs, Multiset.map_cons, Multiset.nodup_cons] at hslots howners
  refine ⟨fun heq => hslots.1 ?_, fun heq => howners.1 ?_⟩
  · exact Multiset.mem_map.mpr ⟨u, hu, heq⟩
  · exact Multiset.mem_map.mpr ⟨u, hu, heq⟩

/-- The other tokens stay as they are. -/
theorem Owned.held_other (h : Owned s) (hs : tokens s = ⟨c, p⟩ ::ₘ rest) (hf : Frame s t c obs)
    {u : Token} (hu : u ∈ rest) : (t.slots u.ctx.slot).req = some u.ctx.owner ∧
      u.place.Ok u.ctx.owner (history u.ctx.owner t.trace) (queued t u.ctx.owner)
        (t.slots u.ctx.slot).responseStarted := by
  obtain ⟨hslot, howner⟩ := h.other hs hu
  rw [hf.slots _ hslot, hf.history_other howner, hf.queued _ howner]
  exact h.held u (by rw [hs]; exact Multiset.mem_cons_of_mem hu)

/-- The request of a token is not a new one. -/
theorem Owned.id_lt (h : Owned s) {u : Token} (hu : u ∈ tokens s) : u.ctx.owner.id < s.nextId := by
  by_contra hid
  have hbegun := (h.held u hu).2.begun
  rw [h.fresh _ (not_lt.mp hid)] at hbegun
  exact Bool.noConfusion hbegun

/-- The token of `c` is exchanged for another one. -/
theorem exists_rest (hmem : ⟨c, p⟩ ∈ tokens s)
    (hmove : tokens t + {⟨c, p⟩} = tokens s + {⟨c, q⟩}) :
    ∃ rest, tokens s = ⟨c, p⟩ ::ₘ rest ∧ tokens t = ⟨c, q⟩ ::ₘ rest := by
  obtain ⟨rest, hs⟩ := Multiset.exists_cons_of_mem hmem
  refine ⟨rest, hs, ?_⟩
  rw [hs, Multiset.add_comm, Multiset.singleton_add, Multiset.cons_add,
    Multiset.cons_inj_right] at hmove
  rw [hmove, Multiset.add_comm, Multiset.singleton_add]

/-- A step moves the token of `c` from one place to another. -/
theorem Owned.move (h : Owned s) (hs : tokens s = ⟨c, p⟩ ::ₘ rest)
    (ht : tokens t = ⟨c, q⟩ ::ₘ rest) (hf : Frame s t c obs) (hbank : t.slotBank = s.slotBank)
    (hreq : (t.slots c.slot).req = (s.slots c.slot).req) (hid : t.nextId = s.nextId)
    (hplace : p.Ok c.owner (history c.owner s.trace) (queued s c.owner)
        (s.slots c.slot).responseStarted →
      q.Ok c.owner (obs.foldl History.add (history c.owner s.trace)) (queued t c.owner)
        (t.slots c.slot).responseStarted) : Owned t := by
  have hmem : ⟨c, p⟩ ∈ tokens s := by rw [hs]; exact Multiset.mem_cons_self _ _
  obtain ⟨hown, hok⟩ := h.held _ hmem
  refine ⟨?_, ?_, ?_, ?_, ?_, hf.own h.own⟩
  · rw [hbank, ht, Multiset.map_cons]
    simpa [hs] using h.slots
  · rw [ht, Multiset.map_cons]
    simpa [hs] using h.owners
  · intro u hu
    rw [ht] at hu
    rcases Multiset.mem_cons.mp hu with rfl | hu
    · refine ⟨hreq.trans hown, ?_⟩
      rw [hf.history_own]
      exact hplace hok
    · exact h.held_other hs hf hu
  · intro r hr
    have hne : r ≠ c.owner := by
      rintro rfl
      exact absurd (h.id_lt hmem) (by rw [hid] at hr; exact not_lt.mpr hr)
    rw [hf.history_other hne]
    exact h.fresh r (hid ▸ hr)
  · intro r hr
    have hne : r ≠ c.owner := fun heq => hr ⟨c, q⟩ (by simp [ht]) heq.symm
    rw [hf.history_other hne]
    apply h.ended r
    intro u hu
    rw [hs] at hu
    rcases Multiset.mem_cons.mp hu with rfl | hu
    · exact hne.symm
    · exact hr u (by rw [ht]; exact Multiset.mem_cons_of_mem hu)

/-- A step that touches no token, and neither the slots nor the trace. -/
theorem Owned.same (h : Owned s) (ht : tokens t = tokens s) (htrace : t.trace = s.trace)
    (hslots : t.slots = s.slots) (hbank : t.slotBank = s.slotBank) (hid : t.nextId = s.nextId)
    (hqueued : ∀ r, queued t r = queued s r) : Owned t := by
  refine ⟨?_, ?_, ?_, ?_, ?_, ?_⟩
  · rw [hbank, ht]; exact h.slots
  · rw [ht]; exact h.owners
  · rw [ht, htrace, hslots]
    intro u hu
    rw [hqueued]
    exact h.held u hu
  · rw [hid, htrace]; exact h.fresh
  · rw [ht, htrace]; exact h.ended
  · rw [htrace]; exact h.own

/-- A step frees the slot of `c`, whose request is then over. -/
theorem Owned.remove (h : Owned s) (hs : tokens s = ⟨c, p⟩ ::ₘ rest) (ht : tokens t = rest)
    (hf : Frame s t c obs) (hbank : t.slotBank = s.slotBank.free c.slot) (hid : t.nextId = s.nextId)
    (hplace : p.Ok c.owner (history c.owner s.trace) (queued s c.owner)
        (s.slots c.slot).responseStarted →
      Done c.owner (obs.foldl History.add (history c.owner s.trace))) : Owned t := by
  have hmem : ⟨c, p⟩ ∈ tokens s := by rw [hs]; exact Multiset.mem_cons_self _ _
  refine ⟨?_, ?_, ?_, ?_, ?_, hf.own h.own⟩
  · rw [hbank, ht]
    have hslots := h.slots
    rw [hs, Multiset.map_cons] at hslots
    exact hslots.free
  · have howners := h.owners
    rw [hs, Multiset.map_cons, Multiset.nodup_cons] at howners
    rw [ht]
    exact howners.2
  · intro u hu
    exact h.held_other hs hf (ht ▸ hu)
  · intro r hr
    have hne : r ≠ c.owner := by
      rintro rfl
      exact absurd (h.id_lt hmem) (by rw [hid] at hr; exact not_lt.mpr hr)
    rw [hf.history_other hne]
    exact h.fresh r (hid ▸ hr)
  · intro r hr
    by_cases hne : r = c.owner
    · subst hne
      rw [hf.history_own]
      exact .inr (hplace (h.held _ hmem).2)
    · rw [hf.history_other hne]
      apply h.ended r
      intro u hu
      rw [hs] at hu
      rcases Multiset.mem_cons.mp hu with rfl | hu
      · exact fun heq => hne heq.symm
      · exact hr u (by rw [ht]; exact hu)

/-- A step hands a free slot to a new request. -/
theorem Owned.insert (h : Owned s) (ht : tokens t = ⟨c, p⟩ ::ₘ tokens s) (hf : Frame s t c obs)
    (hbank : s.slotBank.alloc (some c.slot) = some t.slotBank)
    (hreq : (t.slots c.slot).req = some c.owner) (hnew : c.owner.id = s.nextId)
    (hid : t.nextId = s.nextId + 1)
    (hplace : p.Ok c.owner (obs.foldl History.add .empty) (queued t c.owner)
      (t.slots c.slot).responseStarted) : Owned t := by
  obtain ⟨hslots, hfree⟩ := h.slots.alloc hbank
  have hother : ∀ u ∈ tokens s, u.ctx.slot ≠ c.slot ∧ u.ctx.owner ≠ c.owner := by
    refine fun u hu => ⟨fun heq => hfree (Multiset.mem_map.mpr ⟨u, hu, heq⟩), fun heq => ?_⟩
    exact absurd (h.id_lt hu) (by rw [heq, hnew]; exact lt_irrefl _)
  refine ⟨?_, ?_, ?_, ?_, ?_, hf.own h.own⟩
  · rw [ht, Multiset.map_cons]
    exact hslots
  · rw [ht, Multiset.map_cons, Multiset.nodup_cons]
    refine ⟨fun hmem => ?_, h.owners⟩
    obtain ⟨u, hu, heq⟩ := Multiset.mem_map.mp hmem
    exact (hother u hu).2 heq
  · intro u hu
    rw [ht] at hu
    rcases Multiset.mem_cons.mp hu with rfl | hu
    · refine ⟨hreq, ?_⟩
      rw [hf.history_own, h.fresh c.owner hnew.ge]
      exact hplace
    · obtain ⟨hslot, howner⟩ := hother u hu
      rw [hf.slots _ hslot, hf.history_other howner, hf.queued _ howner]
      exact h.held u hu
  · intro r hr
    have hne : r ≠ c.owner := by
      rintro rfl
      omega
    rw [hf.history_other hne]
    exact h.fresh r (by omega)
  · intro r hr
    have hne : r ≠ c.owner := fun heq => hr ⟨c, p⟩ (by simp [ht]) heq.symm
    rw [hf.history_other hne]
    exact h.ended r fun u hu => hr u (by rw [ht]; exact Multiset.mem_cons_of_mem hu)

end HomeNode.Http
