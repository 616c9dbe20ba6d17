-- SUMMARY: Every step of the request system keeps the ownership of slots, chunks and jobs.
import HomeNode.Http.Jobs

/-!
# The invariant of the request system

The proof has one case for each thing a task does. Most cases hand one context
on (`Inv.handover`) or give its slot back (`Inv.release`); the rest deals with
the data jobs.
-/

namespace HomeNode.Http

structure Inv (s : State) : Prop where
  owned : Owned s
  jobs : Jobs s

variable {s t : State} {c : Ctx} {p q : Place} {obs : List Obs}

/-! ## Handing a context on -/

/-- `t` comes from `s` by observations for `c`, without touching slots or data. -/
structure Handover (s t : State) (c : Ctx) (obs : List Obs) : Prop where
  trace : t.trace = s.trace ++ obs
  obs : ∀ o ∈ obs, o.ctx = c ∧ o.Own
  slots : t.slots = s.slots
  nextId : t.nextId = s.nextId
  chunks : t.chunks = s.chunks
  same : SameJobs s t
  ordered : t.work.Pairwise (NotAfterClose s)

theorem Handover.frame (h : Handover s t c obs) : Frame s t c obs where
  trace := h.trace
  obs := h.obs
  slots _ _ := by rw [h.slots]
  queued r _ := queued_congr h.same.jobs h.chunks h.same.unsent r

/-- The token of `c` moves from `p` to `q`. -/
theorem Inv.handover (h : Inv s) (hh : Handover s t c obs) (hbank : t.slotBank = s.slotBank)
    (hmem : ⟨c, p⟩ ∈ tokens s) (hmove : tokens t + {⟨c, p⟩} = tokens s + {⟨c, q⟩})
    (hfeeds : p.feeds → queued s c.owner ≠ [] → q.feeds)
    (hplace : p.Ok c.owner (history c.owner s.trace) (queued s c.owner)
        (s.slots c.slot).responseStarted →
      q.Ok c.owner (obs.foldl History.add (history c.owner s.trace)) (queued s c.owner)
        (s.slots c.slot).responseStarted) : Inv t := by
  obtain ⟨rest, hs, ht⟩ := exists_rest hmem hmove
  refine ⟨?_, h.jobs.same hh.same (.of_move hs ht hfeeds) hh.ordered⟩
  apply h.owned.move hs ht hh.frame hbank (by rw [hh.slots]) hh.nextId
  intro hok
  rw [hh.slots, queued_congr hh.same.jobs hh.chunks hh.same.unsent]
  exact hplace hok

/-- The token moves without a trace. -/
theorem Inv.pass (h : Inv s) (hh : Handover s t c []) (hbank : t.slotBank = s.slotBank)
    (hmem : ⟨c, p⟩ ∈ tokens s) (hmove : tokens t + {⟨c, p⟩} = tokens s + {⟨c, q⟩})
    (hfeeds : p.feeds → queued s c.owner ≠ [] → q.feeds)
    (hplace : p.Ok c.owner (history c.owner s.trace) (queued s c.owner)
        (s.slots c.slot).responseStarted →
      q.Ok c.owner (history c.owner s.trace) (queued s c.owner)
        (s.slots c.slot).responseStarted) : Inv t :=
  h.handover hh hbank hmem hmove hfeeds hplace

/-- The slot of `c` is freed, and its request is over. -/
theorem Inv.release (h : Inv s) (hh : Handover s t c obs)
    (hbank : t.slotBank = s.slotBank.free c.slot) (hmove : tokens s = ⟨c, p⟩ ::ₘ tokens t)
    (hfeeds : p.feeds = false)
    (hplace : p.Ok c.owner (history c.owner s.trace) (queued s c.owner)
        (s.slots c.slot).responseStarted →
      Done c.owner (obs.foldl History.add (history c.owner s.trace))) : Inv t :=
  ⟨h.owned.remove hmove rfl hh.frame hbank hh.nextId hplace,
    h.jobs.same hh.same (.of_remove hmove rfl hfeeds) hh.ordered⟩

theorem Owned.req (h : Owned s) (hmem : ⟨c, p⟩ ∈ tokens s) :
    (s.slots c.slot).req = some c.owner :=
  (h.held _ hmem).1

/-- A slot is freed by the request that has it. -/
theorem Owned.holder (h : Owned s) (hmem : ⟨c, p⟩ ∈ tokens s) :
    (if s.slotBank c.slot then (s.slots c.slot).req else none) = some c.owner := by
  have hbank : s.slotBank c.slot = true :=
    h.slots.mem_iff.mp (Multiset.mem_map.mpr ⟨_, hmem, rfl⟩)
  rw [if_pos hbank, h.req hmem]

theorem calls_own {r : Req} {hs : List HttpdCall} (hr : r = c.owner) :
    ∀ o ∈ calls c r hs, o.ctx = c ∧ o.Own := by
  intro o ho
  obtain ⟨call, -, rfl⟩ := List.mem_map.mp ho
  exact ⟨rfl, hr⟩

/-! ## Answers -/

/-- A step of an answer makes the calls that come next, or frees the slot. -/
theorem answerStep_cases {pc : AnswerPc} {u : State} {res : Option AnswerPc}
    (hreq : (s.slots c.slot).req = some c.owner) (h : answerStep s c pc = some (u, res)) :
    (∃ hs pc', u = s.log (calls c c.owner hs) ∧ res = some pc' ∧
      ∀ o, pc.Reports o → pc'.Reports o ∧ pc'.calls c.owner o = pc.calls c.owner o ++ hs) ∨
    (pc = .free ∧ u = s.freeSlot c ∧ res = none) := by
  cases pc with
  | respond text =>
    simp only [answerStep, hreq, Option.some.injEq, Prod.mk.injEq] at h
    refine .inl ⟨_, _, h.1.symm, h.2.symm, fun o ho => ⟨trivial, ?_⟩⟩
    obtain rfl : text = o.text := ho
    rfl
  | complete =>
    simp only [answerStep, hreq, Option.some.injEq, Prod.mk.injEq] at h
    exact .inl ⟨_, _, h.1.symm, h.2.symm, fun o _ => ⟨trivial, rfl⟩⟩
  | free =>
    simp only [answerStep, Option.some.injEq, Prod.mk.injEq] at h
    exact .inr ⟨rfl, h.1.symm, h.2.symm⟩

/-- The next calls of an answer keep its place in order. -/
theorem answering_ok {pc pc' : AnswerPc} {hs : List HttpdCall} {r : Req} {h : History}
    {qs : List (List UInt8)} {started : Bool}
    (hnext : ∀ o, pc.Reports o → pc'.Reports o ∧ pc'.calls r o = pc.calls r o ++ hs)
    (hok : (Place.answering pc).Ok r h qs started) :
    (Place.answering pc').Ok r { h with calls := h.calls ++ hs } qs started := by
  obtain ⟨hqueued, o, hfits, hreports, rfl⟩ := hok
  obtain ⟨hreports', hcalls⟩ := hnext o hreports
  exact ⟨hqueued, o, hfits, hreports', by rw [hcalls]; rfl⟩

theorem answering_done {r : Req} {h : History} {qs : List (List UInt8)} {started : Bool}
    {holder : Option Req} (hok : (Place.answering .free).Ok r h qs started) :
    Done r ([Obs.freed c holder].foldl History.add h) := by
  obtain ⟨-, o, hfits, -, rfl⟩ := hok
  exact .inl ⟨o, hfits, rfl⟩

/-- `t` is `u` up to what the task at hand does next. -/
structure SameShared (u t : State) : Prop where
  trace : t.trace = u.trace
  slots : t.slots = u.slots
  slotBank : t.slotBank = u.slotBank
  nextId : t.nextId = u.nextId
  chunks : t.chunks = u.chunks
  work : t.work = u.work

/-- The token of an answer with `next` to come. -/
def answerTokens (c : Ctx) : Option AnswerPc → Multiset Token
  | some pc => {⟨c, .answering pc⟩}
  | none => 0

/-- A step of an answer, by whichever task. -/
theorem answer_inv {pc : AnswerPc} {u : State} {next : Option AnswerPc} (h : Inv s)
    (hmem : ⟨c, .answering pc⟩ ∈ tokens s) (hanswer : answerStep s c pc = some (u, next))
    (hu : SameShared u t) (hsame : SameJobs s t)
    (hmove : tokens t + {⟨c, .answering pc⟩} = tokens s + answerTokens c next) : Inv t := by
  rcases answerStep_cases (h.owned.req hmem) hanswer with ⟨hs, pc', rfl, rfl, hnext⟩ | ⟨rfl, rfl, rfl⟩
  · refine h.handover ⟨hu.trace, calls_own rfl, hu.slots, hu.nextId, hu.chunks, hsame, ?_⟩
      hu.slotBank hmem hmove (by simp [Place.feeds]) ?_
    · rw [hu.work]
      exact h.jobs.ordered
    · intro hok
      simpa using answering_ok hnext hok
  · have hfree : tokens s = ⟨c, .answering .free⟩ ::ₘ tokens t := by
      simp only [answerTokens, Multiset.add_zero] at hmove
      rw [← hmove, Multiset.add_comm, Multiset.singleton_add]
    refine h.release ⟨hu.trace, ?_, hu.slots, hu.nextId, hu.chunks, hsame, ?_⟩ hu.slotBank hfree rfl
      answering_done
    · simpa [Obs.ctx, Obs.Own] using h.owned.holder hmem
    · rw [hu.work]
      exact h.jobs.ordered

/-- A step of an answer leaves all tasks and queues alone. -/
theorem answerStep_same {pc : AnswerPc} {u : State} {next : Option AnswerPc}
    (hreq : (s.slots c.slot).req = some c.owner) (h : answerStep s c pc = some (u, next)) :
    SameJobs s u ∧ u.httpd = s.httpd ∧ u.loop = s.loop ∧ u.work = s.work ∧
      tokens u = tokens s := by
  rcases answerStep_cases hreq h with ⟨hs, pc', rfl, -, -⟩ | ⟨-, rfl, -⟩
  · exact ⟨⟨rfl, rfl, rfl, rfl, rfl, rfl, rfl, rfl, by simp [State.log]⟩, rfl, rfl, rfl,
      by simp [tokens, State.log]⟩
  · exact ⟨⟨rfl, rfl, rfl, rfl, rfl, rfl, rfl, rfl, by simp [State.freeSlot, State.log]⟩, rfl, rfl,
      rfl, by simp [tokens, State.freeSlot, State.log]⟩

theorem tokens_httpd (s : State) (pc : HttpdPc) :
    tokens { s with httpd := pc } + httpdTokens s.httpd = tokens s + httpdTokens pc := by
  simp only [tokens]
  abel

theorem tokens_loop (s : State) (pc : LoopPc) :
    tokens { s with loop := pc } + loopTokens s.loop = tokens s + loopTokens pc := by
  simp only [tokens]
  abel

/-- Where the httpd task is after a step of an answer. -/
def HttpdPc.after (c : Ctx) : Option AnswerPc → HttpdPc
  | some pc => .answering c pc
  | none => .idle

def LoopPc.after (c : Ctx) : Option AnswerPc → LoopPc
  | some pc => .answering c pc
  | none => .idle

theorem httpdStep_answering {pc : AnswerPc} {accepted : Bool} (hpc : s.httpd = .answering c pc)
    (hstep : httpdStep s accepted = some t) :
    ∃ u next, answerStep s c pc = some (u, next) ∧ t = { u with httpd := .after c next } := by
  simp only [httpdStep, hpc] at hstep
  cases hanswer : answerStep s c pc with
  | none => simp [hanswer] at hstep
  | some res =>
    obtain ⟨u, next⟩ := res
    refine ⟨u, next, rfl, ?_⟩
    cases next <;> simpa [HttpdPc.after, hanswer, eq_comm] using hstep

theorem loopStep_answering {pc : AnswerPc} (hpc : s.loop = .answering c pc)
    (hstep : loopStep s = some t) :
    ∃ u next, answerStep s c pc = some (u, next) ∧ t = { u with loop := .after c next } := by
  simp only [loopStep, hpc] at hstep
  cases hanswer : answerStep s c pc with
  | none => simp [hanswer] at hstep
  | some res =>
    obtain ⟨u, next⟩ := res
    refine ⟨u, next, rfl, ?_⟩
    cases next <;> simpa [LoopPc.after, hanswer, eq_comm] using hstep

theorem httpdAnswer_inv {pc : AnswerPc} {accepted : Bool} (h : Inv s)
    (hpc : s.httpd = .answering c pc) (hstep : httpdStep s accepted = some t) : Inv t := by
  have hmem : ⟨c, .answering pc⟩ ∈ tokens s := by simp [tokens, hpc]
  obtain ⟨u, next, hanswer, rfl⟩ := httpdStep_answering hpc hstep
  obtain ⟨hsame, hhttpd, -, hwork, htokens⟩ := answerStep_same (h.owned.req hmem) hanswer
  have hmove := tokens_httpd u (.after c next)
  rw [hhttpd, hpc, htokens] at hmove
  refine answer_inv h hmem hanswer ⟨rfl, rfl, rfl, rfl, rfl, rfl⟩ ⟨hsame.jobBank, hsame.chunkBank,
    hsame.jobs, ?_, ?_, ?_, hsame.job, hsame.chunk, hsame.lost⟩ ?_
  · cases next <;> simp [workJobs, HttpdPc.after, hpc, hwork]
  · cases next <;> simp [chunkJobs, HttpdPc.after, hpc, hwork]
  · cases next <;> simp [unsentJobs, HttpdPc.after, hpc, hwork]
  · cases next <;> exact hmove

theorem loopAnswer_inv {pc : AnswerPc} (h : Inv s) (hpc : s.loop = .answering c pc)
    (hstep : loopStep s = some t) : Inv t := by
  have hmem : ⟨c, .answering pc⟩ ∈ tokens s := by simp [tokens, hpc]
  obtain ⟨u, next, hanswer, rfl⟩ := loopStep_answering hpc hstep
  obtain ⟨hsame, -, hloop, hwork, htokens⟩ := answerStep_same (h.owned.req hmem) hanswer
  have hmove := tokens_loop u (.after c next)
  rw [hloop, hpc, htokens] at hmove
  refine answer_inv h hmem hanswer ⟨rfl, rfl, rfl, rfl, rfl, rfl⟩ ⟨hsame.jobBank, hsame.chunkBank,
    hsame.jobs, hsame.workJobs, hsame.chunkJobs, hsame.unsent, hsame.job, hsame.chunk, hsame.lost⟩ ?_
  cases next <;> exact hmove

/-! ## New requests -/

/-- Only a feeding request has queued data. -/
theorem Inv.queued_eq_nil (h : Inv s) {r : Req}
    (hr : ∀ u ∈ tokens s, u.place.feeds → u.ctx.owner ≠ r) : queued s r = [] := by
  apply List.filterMap_eq_nil_iff.mpr
  intro j hj
  cases hjob : s.jobs j with
  | none => simp [payload, hjob]
  | some job =>
    obtain ⟨p, hp, hfeeds⟩ := h.jobs.feeding j hj job hjob
    simpa [payload, hjob] using hr _ hp hfeeds

theorem dispatch_inv {command : Command} {socket : Socket} {slot : Option SlotId} (h : Inv s)
    (hidle : s.httpd = .idle) (hstep : masterRequestHandler s command socket slot = some t) :
    Inv t := by
  unfold masterRequestHandler at hstep
  cases halloc : s.slotBank.alloc slot with
  | none => simp [halloc] at hstep
  | some bank =>
    cases slot with
    | none =>
      obtain rfl : { s with httpd := .crashed } = t := by simpa [halloc] using hstep
      have htokens : tokens { s with httpd := .crashed } = tokens s := by simp [tokens, hidle]
      have hsame : SameJobs s { s with httpd := .crashed } :=
        ⟨rfl, rfl, rfl, by simp [workJobs, hidle], by simp [chunkJobs, hidle],
          by simp [unsentJobs, hidle], rfl, rfl, rfl⟩
      exact ⟨h.owned.same htokens rfl rfl rfl rfl (queued_congr rfl rfl hsame.unsent),
        h.jobs.same hsame (.of_eq htokens) h.jobs.ordered⟩
    | some i =>
      simp only [halloc, Option.some.injEq] at hstep
      have hnil : queued s ⟨s.nextId, command, socket⟩ = [] := by
        apply h.queued_eq_nil
        intro u hu _ heq
        exact absurd (h.owned.id_lt hu) (by rw [heq]; exact lt_irrefl _)
      subst hstep
      set r : Req := ⟨s.nextId, command, socket⟩
      set t : State := State.log { s with
        slotBank := bank
        slots := Function.update s.slots i ⟨some r, false⟩
        httpd := .callback ⟨i, r⟩
        nextId := s.nextId + 1 } [.begun ⟨i, r⟩]
      have htokens : tokens t = ⟨⟨i, r⟩, .callback⟩ ::ₘ tokens s := by
        simp [t, tokens, State.log, hidle]
      have hsame : SameJobs s t :=
        ⟨rfl, rfl, rfl, by simp [t, workJobs, State.log, hidle], by simp [t, chunkJobs, State.log, hidle],
          by simp [t, unsentJobs, State.log, hidle], rfl, rfl, by simp [t, State.log]⟩
      have hqueued := queued_congr hsame.jobs (t := t) rfl hsame.unsent
      refine ⟨h.owned.insert (c := ⟨i, r⟩) htokens ⟨rfl, ?_, ?_, fun r' _ => hqueued r'⟩ halloc ?_ rfl
        rfl ?_, h.jobs.same hsame (.of_insert htokens) h.jobs.ordered⟩
      · intro o ho
        obtain rfl := List.mem_singleton.mp ho
        exact ⟨rfl, trivial⟩
      · intro i' hne
        exact Function.update_of_ne hne _ _
      · simp [t, State.log]
      · rw [hqueued, hnil]
        exact ⟨rfl, rfl, by simp [t, State.log]⟩

theorem post_inv {ok : Bool} (h : Inv s) (hpc : s.httpd = .callback c) :
    Inv (postEvent s c ok) := by
  have hmem : ⟨c, .callback⟩ ∈ tokens s := by simp [tokens, hpc]
  cases ok with
  | true =>
    have hsame : SameJobs s (postEvent s c true) :=
      ⟨rfl, rfl, rfl, by simp [postEvent, State.log, workJobs, hpc],
        by simp [postEvent, State.log, chunkJobs, hpc],
        by simp [postEvent, State.log, unsentJobs, hpc], rfl, rfl, by simp [postEvent, State.log]⟩
    refine h.handover (q := .posted) ⟨rfl, ?_, rfl, rfl, rfl, hsame, h.jobs.ordered⟩ rfl hmem ?_
      (by simp [Place.feeds]) ?_
    · simp [Obs.ctx, Obs.Own]
    · simp [postEvent, State.log, tokens, hpc, -Multiset.singleton_add]
      abel
    · rintro ⟨hopened, hrest⟩
      rw [hopened]
      exact ⟨rfl, hrest⟩
  | false =>
    have hsame : SameJobs s (postEvent s c false) :=
      ⟨rfl, rfl, rfl, by simp [postEvent, State.log, workJobs, hpc],
        by simp [postEvent, State.log, chunkJobs, hpc],
        by simp [postEvent, State.log, unsentJobs, hpc], rfl, rfl, by simp [postEvent, State.log]⟩
    refine h.handover (q := .answering (.respond "failure")) ⟨rfl, ?_, rfl, rfl, rfl, hsame,
      h.jobs.ordered⟩ rfl hmem ?_ (by simp [Place.feeds]) ?_
    · simp [Obs.ctx, Obs.Own]
    · simp [postEvent, State.log, tokens, hpc, -Multiset.singleton_add]
      abel
    · rintro ⟨hopened, hqueued, -⟩
      rw [hopened]
      exact ⟨hqueued, .postFailed, trivial, rfl, rfl⟩

/-! ## The work queue -/

theorem startWork_inv (h : Inv s) (hidle : s.httpd = .idle) (hstep : startWork s = some t) :
    Inv t := by
  unfold startWork at hstep
  cases hwork : s.work with
  | nil => simp [hwork] at hstep
  | cons w rest =>
    have hordered := h.jobs.ordered
    rw [hwork] at hordered
    obtain ⟨hhead, htail⟩ := List.pairwise_cons.mp hordered
    cases w with
    | data j =>
      obtain rfl : { s with httpd := .dataWorker j .send, work := rest } = t := by
        simpa [hwork] using hstep
      have hsame : SameJobs s { s with httpd := .dataWorker j .send, work := rest } :=
        ⟨rfl, rfl, rfl, by simp [workJobs, hidle, hwork], by simp [chunkJobs, hidle, hwork],
          by simp [unsentJobs, hidle, hwork], rfl, rfl, rfl⟩
      have htokens : tokens { s with httpd := .dataWorker j .send, work := rest } = tokens s := by
        simp [tokens, hidle, hwork]
      exact ⟨h.owned.same htokens rfl rfl rfl rfl (queued_congr rfl rfl hsame.unsent),
        h.jobs.same hsame (.of_eq htokens) htail⟩
    | close c =>
      obtain rfl : { s with httpd := .closeWorker c .sendEnd, work := rest } = t := by
        simpa [hwork] using hstep
      have hmem : ⟨c, .closeQueued⟩ ∈ tokens s := by simp [tokens, hwork]
      -- what is queued behind the close is not data of its request
      have hnil : queued s c.owner = [] := by
        apply List.filterMap_eq_nil_iff.mpr
        intro j hj
        have hj : Work.data j ∈ rest := by
          simp only [unsentJobs, hidle, hwork, HttpdPc.unsent, List.nil_append] at hj
          obtain ⟨w, hw, hjob⟩ := List.mem_filterMap.mp hj
          cases w with
          | data j' =>
            obtain rfl : j' = j := by simpa using hjob
            exact (List.mem_cons.mp hw).resolve_left (by simp)
          | close c' | finalize c' => simp at hjob
        cases hjob : s.jobs j with
        | none => simp [payload, hjob]
        | some job => simpa [payload, hjob] using hhead _ hj c j job rfl rfl hjob
      have hsame : SameJobs s { s with httpd := .closeWorker c .sendEnd, work := rest } :=
        ⟨rfl, rfl, rfl, by simp [workJobs, hidle, hwork, List.filterMap_cons],
          by simp [chunkJobs, hidle, hwork, List.filterMap_cons],
          by simp [unsentJobs, hidle, hwork, List.filterMap_cons], rfl, rfl, rfl⟩
      refine h.pass (q := .closing .sendEnd) ⟨by simp, by simp, rfl, rfl, rfl, hsame,
        htail⟩ rfl hmem ?_ (fun _ hne => absurd hnil hne) ?_
      · simp [tokens, hidle, hwork, -Multiset.singleton_add]
        abel
      · rintro ⟨hlog, offers, sent, hhist, haccepted, -⟩
        rw [hnil, List.append_nil] at haccepted
        exact ⟨hlog, hnil, offers, by rw [← haccepted]; exact hhist⟩
    | finalize c =>
      obtain rfl : { s with httpd := .finalizeWorker c, work := rest } = t := by
        simpa [hwork] using hstep
      have hmem : ⟨c, .finalizeQueued⟩ ∈ tokens s := by simp [tokens, hwork]
      have hsame : SameJobs s { s with httpd := .finalizeWorker c, work := rest } :=
        ⟨rfl, rfl, rfl, by simp [workJobs, hidle, hwork, List.filterMap_cons],
          by simp [chunkJobs, hidle, hwork, List.filterMap_cons],
          by simp [unsentJobs, hidle, hwork, List.filterMap_cons], rfl, rfl, rfl⟩
      refine h.pass (q := .finalizing) ⟨by simp, by simp, rfl, rfl, rfl, hsame,
        htail⟩ rfl hmem ?_ (by simp [Place.feeds]) id
      simp [tokens, hidle, hwork, -Multiset.singleton_add]
      abel

theorem closeWorker_inv {pc : ClosePc} {accepted : Bool} (h : Inv s)
    (hpc : s.httpd = .closeWorker c pc) (hstep : closeWorkerStep s c accepted pc = some t) :
    Inv t := by
  have hmem : ⟨c, .closing pc⟩ ∈ tokens s := by simp [tokens, hpc]
  have hreq := h.owned.req hmem
  have hmove := tokens_httpd (s := s)
  rw [hpc] at hmove
  cases pc with
  | sendEnd =>
    simp only [closeWorkerStep, hreq, Option.some.injEq] at hstep
    subst hstep
    refine h.handover (q := .closing .complete) ⟨rfl, calls_own rfl, rfl, rfl, rfl, ⟨rfl, rfl, rfl,
      by simp [State.log, workJobs, hpc], by simp [State.log, chunkJobs, hpc],
      by simp [State.log, unsentJobs, hpc], rfl, rfl, by simp [State.log]⟩, h.jobs.ordered⟩ rfl hmem
      ?_ (by simp [Place.feeds]) ?_
    · simpa [State.log, tokens] using hmove (.closeWorker c .complete)
    · rintro ⟨hlog, hqueued, offers, hhist⟩
      rw [hhist, foldl_add_calls]
      refine ⟨hlog, hqueued, offers, ?_⟩
      simp [History.streamed, ClosePc.calls]
  | complete =>
    simp only [closeWorkerStep, hreq, Option.some.injEq] at hstep
    subst hstep
    refine h.handover (q := .closing .queueFinalize) ⟨rfl, calls_own rfl, rfl, rfl, rfl, ⟨rfl, rfl,
      rfl, by simp [State.log, workJobs, hpc], by simp [State.log, chunkJobs, hpc],
      by simp [State.log, unsentJobs, hpc], rfl, rfl, by simp [State.log]⟩, h.jobs.ordered⟩ rfl hmem
      ?_ (by simp [Place.feeds]) ?_
    · simpa [State.log, tokens] using hmove (.closeWorker c .queueFinalize)
    · rintro ⟨hlog, hqueued, offers, hhist⟩
      rw [hhist, foldl_add_calls]
      refine ⟨hlog, hqueued, offers, ?_⟩
      simp [History.streamed, ClosePc.calls, endCalls]
  | queueFinalize =>
    cases accepted with
    | true =>
      simp only [closeWorkerStep, if_true, Option.some.injEq] at hstep
      subst hstep
      refine h.pass (q := .finalizeQueued) ⟨by simp, by simp, rfl, rfl, rfl, ⟨rfl,
        rfl, rfl, by simp [workJobs, hpc], by simp [chunkJobs, hpc], by simp [unsentJobs, hpc], rfl,
        rfl, rfl⟩, ordered_concat h.jobs.ordered rfl⟩ rfl hmem ?_ (by simp [Place.feeds]) id
      simp [tokens, hpc, -Multiset.singleton_add]
      abel
    | false =>
      simp only [closeWorkerStep, Bool.false_eq_true, if_false, Option.some.injEq] at hstep
      subst hstep
      refine h.handover (q := .lostFinalize) ⟨rfl, ?_, rfl, rfl, rfl, ⟨rfl, rfl, rfl,
        by simp [State.log, workJobs, hpc], by simp [State.log, chunkJobs, hpc],
        by simp [State.log, unsentJobs, hpc], rfl, rfl, by simp [State.log]⟩, h.jobs.ordered⟩ rfl
        hmem ?_ (by simp [Place.feeds]) ?_
      · simp [Obs.ctx, Obs.Own]
      · simp [State.log, tokens, hpc, -Multiset.singleton_add]
        abel
      · rintro ⟨hlog, hqueued, offers, hhist⟩
        rw [hhist]
        exact ⟨hlog, hqueued, offers, rfl⟩

theorem finalizeWorker_inv (h : Inv s) (hpc : s.httpd = .finalizeWorker c) :
    Inv { s.freeSlot c with httpd := .idle } := by
  have hmem : ⟨c, .finalizing⟩ ∈ tokens s := by simp [tokens, hpc]
  refine h.release (p := .finalizing) ⟨rfl, ?_, rfl, rfl, rfl, ⟨rfl, rfl, rfl,
    by simp [State.freeSlot, State.log, workJobs, hpc],
    by simp [State.freeSlot, State.log, chunkJobs, hpc],
    by simp [State.freeSlot, State.log, unsentJobs, hpc], rfl, rfl,
    by simp [State.freeSlot, State.log]⟩, h.jobs.ordered⟩ rfl ?_ rfl ?_
  · simpa [Obs.ctx, Obs.Own] using h.owned.holder hmem
  · simp [State.freeSlot, State.log, tokens, hpc]
  · rintro ⟨hlog, -, offers, hhist⟩
    rw [hhist]
    exact .inr ⟨hlog, offers, rfl⟩

/-! ## The event loop -/

/-- The event loop takes `c` out of its queue, which leaves `u`, and answers with the outcome of
the event `e`. -/
theorem inform_inv {u : State} {e : CommandEvent} {o : Outcome} {success : Bool} (h : Inv s)
    (hmem : ⟨c, p⟩ ∈ tokens s) (hu : SameShared s u) (hsame : SameJobs s u) (hloop : u.loop = .idle)
    (htaken : tokens s = ⟨c, p⟩ ::ₘ tokens u) (hfeeds : p.feeds = false)
    (houtcome : e.outcome = some o) (htext : (if success then "success" else "Failed") = o.text)
    (hplace : ∀ hist qs started, p.Ok c.owner hist qs started →
      hist = .opened ∧ qs = [] ∧ o.Fits c.owner.command) :
    Inv (inform (u.log [.command c e]) c success) := by
  have hh : Handover s (inform (u.log [.command c e]) c success) c [.command c e] :=
    { trace := by simp [inform, State.log, hu.trace]
      obs := by simp [Obs.ctx, Obs.Own]
      slots := hu.slots
      nextId := hu.nextId
      chunks := hu.chunks
      same := ⟨hsame.jobBank, hsame.chunkBank, hsame.jobs, hsame.workJobs, hsame.chunkJobs,
        hsame.unsent, hsame.job, hsame.chunk, by simpa [inform, State.log] using hsame.lost⟩
      ordered := by simpa [inform, State.log, hu.work] using h.jobs.ordered }
  refine h.handover (q := .answering (.respond o.text)) hh hu.slotBank hmem ?_ (by simp [hfeeds]) ?_
  · rw [htaken, inform, htext]
    simp [State.log, tokens, hloop, -Multiset.singleton_add, ← Multiset.singleton_add]
    abel
  · intro hok
    obtain ⟨hopened, hqueued, hfits⟩ := hplace _ _ _ hok
    rw [hopened]
    refine ⟨hqueued, o, hfits, rfl, ?_⟩
    simp [History.add, houtcome, History.opened, History.answered, AnswerPc.calls]

/-- A command of the gate node goes on the air, or its failure is answered. -/
theorem sendCommand_inv {m : MessageCommand} {ok : Bool} {events : List Ctx} (h : Inv s)
    (hloop : s.loop = .idle) (hevents : s.events = c :: events) (hlog : c.owner.command ≠ .log)
    (hota : c.owner.command ≠ .otaUpdate) :
    Inv (sendCommand { s with events := events } c m ok) := by
  have hmem : ⟨c, .posted⟩ ∈ tokens s := by simp [tokens, hevents]
  cases ok with
  | true =>
    have hh : Handover s (sendCommand { s with events := events } c m true) c
        [.command c (.sent m true)] :=
      { trace := rfl
        obs := by simp [Obs.ctx, Obs.Own]
        slots := rfl
        nextId := rfl
        chunks := rfl
        same := ⟨rfl, rfl, rfl, rfl, rfl, rfl, rfl, rfl, by simp [sendCommand, State.log]⟩
        ordered := h.jobs.ordered }
    refine h.handover (q := .onAir) hh rfl hmem ?_ (by simp [Place.feeds]) ?_
    · simp [sendCommand, State.log, tokens, hevents, -Multiset.singleton_add]
      abel
    · rintro ⟨hopened, hrest⟩
      rw [hopened]
      exact ⟨hlog, hota, rfl, hrest⟩
  | false =>
    have htaken : tokens s = ⟨c, .posted⟩ ::ₘ tokens { s with events := events } := by
      simp only [tokens, hevents, placed_cons, ← Multiset.singleton_add]
      abel
    exact inform_inv h hmem ⟨rfl, rfl, rfl, rfl, rfl, rfl⟩
      ⟨rfl, rfl, rfl, rfl, rfl, rfl, rfl, rfl, rfl⟩ hloop htaken rfl (o := .sendFailed) rfl rfl
      fun _ _ _ hok => ⟨hok.1, hok.2.1, hlog, hota⟩

theorem handle_inv {sent : Bool} {events : List Ctx} (h : Inv s) (hloop : s.loop = .idle)
    (hevents : s.events = c :: events)
    (hstep : handleEvent { s with events := events } c sent = some t) : Inv t := by
  have hmem : ⟨c, .posted⟩ ∈ tokens s := by simp [tokens, hevents]
  unfold handleEvent at hstep
  cases hcommand : c.owner.command with
  | gateOpen | gateClose | gateStatus =>
    simp only [hcommand, Option.some.injEq] at hstep
    subst hstep
    exact sendCommand_inv h hloop hevents (by simp [hcommand]) (by simp [hcommand])
  | log =>
    by_cases hfull : s.delegated.length < delegateQueueLength
    · simp only [hcommand, hfull, if_true, Option.some.injEq] at hstep
      subst hstep
      refine h.pass (q := .delegated) ⟨by simp, by simp, rfl, rfl, rfl,
        ⟨rfl, rfl, rfl, rfl, rfl, rfl, rfl, rfl, rfl⟩, h.jobs.ordered⟩ rfl hmem ?_
        (by simp [Place.feeds]) (fun hok => ⟨hcommand, hok⟩)
      simp [tokens, hevents, -Multiset.singleton_add]
      abel
    · simp [hcommand, hfull] at hstep
  | otaUpdate =>
    simp only [hcommand, Option.some.injEq] at hstep
    subst hstep
    have htaken : tokens s = ⟨c, .posted⟩ ::ₘ tokens { s with events := events } := by
      simp only [tokens, hevents, placed_cons, ← Multiset.singleton_add]
      abel
    exact inform_inv h hmem ⟨rfl, rfl, rfl, rfl, rfl, rfl⟩
      ⟨rfl, rfl, rfl, rfl, rfl, rfl, rfl, rfl, rfl⟩ hloop htaken rfl (o := .started) rfl rfl
      fun _ _ _ hok => ⟨hok.1, hok.2.1, hcommand⟩

theorem ack_inv {success : Bool} (h : Inv s) (hloop : s.loop = .idle) (hc : c ∈ s.onAir) :
    Inv (handleSendStatus s c success) := by
  have hmem : ⟨c, .onAir⟩ ∈ tokens s := by
    simp [tokens, placed_erase hc]
  have htext : (if success then "success" else "Failed") = (Outcome.acked success).text := by
    cases success <;> rfl
  refine inform_inv h hmem ⟨rfl, rfl, rfl, rfl, rfl, rfl⟩
    ⟨rfl, rfl, rfl, rfl, rfl, rfl, rfl, rfl, rfl⟩ hloop ?_ rfl rfl htext
    fun _ _ _ hok => ⟨hok.2.2.1, hok.2.2.2.1, hok.1, hok.2.1⟩
  simp only [tokens, placed_erase hc, ← Multiset.singleton_add]
  abel

/-! ## The delegate task -/

theorem snapshot_inv {pieces : List Piece} {delegated : List Ctx} (h : Inv s)
    (hidle : s.delegate = .idle) (hdelegated : s.delegated = c :: delegated) :
    Inv (State.log { s with delegated := delegated, delegate := .reading c pieces }
      [.snapshot c pieces]) := by
  have hmem : ⟨c, .delegated⟩ ∈ tokens s := by simp [tokens, hdelegated]
  refine h.handover (q := .streaming pieces) ⟨rfl, ?_, rfl, rfl, rfl, ⟨rfl, rfl, rfl, rfl, rfl, rfl,
    by simp [State.log, hidle], by simp [State.log, hidle], by simp [State.log]⟩, h.jobs.ordered⟩ rfl
    hmem ?_ (by simp [Place.feeds]) ?_
  · simp [Obs.ctx, Obs.Own]
  · simp [State.log, tokens, hidle, hdelegated, -Multiset.singleton_add]
    abel
  · rintro ⟨hlog, hopened, hqueued, hstarted⟩
    rw [hopened]
    exact ⟨hlog, [], [], rfl, by rw [hqueued]; rfl, hstarted⟩

end HomeNode.Http
