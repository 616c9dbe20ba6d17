-- SUMMARY: The slot pool runs out exactly when too many completed requests still have their slots.
import HomeNode.Http.Completion
import Mathlib.Data.Finset.Card

/-!
# Slots

A request is completed before its slot is freed, so a slot can outlive the request
on its socket. The slots in use are those of the open requests and of the
`lingering` ones.
-/

namespace HomeNode.Http

/-! ## Requests and sockets -/

def begunReqs (tr : List Obs) : Finset Req :=
  (tr.filterMap fun
    | .begun c => some c.owner
    | _ => none).toFinset

/-- The requests that `httpd_req_async_handler_complete` was not called on. -/
def openReqs (tr : List Obs) : Finset Req := {r ∈ begunReqs tr | .complete ∉ callsOn r tr}

/-- The completed requests whose slot was not freed. -/
def lingering (tr : List Obs) : Finset Req :=
  {r ∈ begunReqs tr | .complete ∈ callsOn r tr ∧ freesOf r tr = 0}

/-- The sockets other than `socket` without an open request. -/
def idleOthers (tr : List Obs) (socket : Socket) : Finset Socket :=
  (insert socket ((openReqs tr).image Req.socket))ᶜ

/-- A request comes on a socket that has no open one. -/
def OnePerSocket (s : State) : Label → Prop
  | .dispatch _ socket _ => ∀ r ∈ openReqs s.trace, r.socket ≠ socket
  | _ => True

/-- When a request comes, the lingering ones are no more than the other idle
sockets. -/
def Roomy (s : State) : Label → Prop
  | .dispatch _ socket _ => (lingering s.trace).card ≤ (idleOthers s.trace socket).card
  | _ => True

theorem mem_begunReqs {r : Req} {tr : List Obs} :
    r ∈ begunReqs tr ↔ ∃ c, c.owner = r ∧ .begun c ∈ tr := by
  simp only [begunReqs, List.mem_toFinset, List.mem_filterMap]
  constructor
  · rintro ⟨o, ho, hr⟩
    cases o with
    | begun c => exact ⟨c, Option.some.inj hr, ho⟩
    | command _ _ | call _ _ _ | freed _ _ | snapshot _ _ | offered _ _ | lost _ _ => cases hr
  · rintro ⟨c, rfl, hc⟩
    exact ⟨_, hc, rfl⟩

/-! ## Slots in use -/

theorem Streaming.frees {h : History} {rest : List Piece} {qs : List (List UInt8)}
    {started : Bool} (hstream : Streaming h rest qs started) : h.frees = 0 := by
  obtain ⟨offers, sent, rfl, -⟩ := hstream
  rfl

/-- No slot is freed while its token is somewhere. -/
theorem Place.Ok.frees {p : Place} {r : Req} {h : History} {qs : List (List UInt8)}
    {started : Bool} (hok : p.Ok r h qs started) : h.frees = 0 := by
  cases p with
  | callback | posted => rw [hok.1]; rfl
  | onAir => rw [hok.2.2.1]; rfl
  | delegated => rw [hok.2.1]; rfl
  | answering pc =>
    obtain ⟨-, o, -, -, rfl⟩ := hok
    rfl
  | streaming rest | closeQueued => exact hok.2.frees
  | closing pc | finalizeQueued | finalizing | lostFinalize =>
    obtain ⟨-, -, offers, rfl⟩ := hok
    rfl
  | lostClose =>
    obtain ⟨-, h', rfl, hstream⟩ := hok
    exact hstream.frees

theorem Done.frees {r : Req} {h : History} (hdone : Done r h) : h.frees = 1 := by
  rcases hdone with ⟨o, -, rfl⟩ | ⟨-, offers, rfl⟩ <;> rfl

theorem Done.completed {r : Req} {h : History} (hdone : Done r h) : .complete ∈ h.calls := by
  rcases hdone with ⟨o, -, rfl⟩ | ⟨-, offers, rfl⟩
  · simp [History.answered]
  · simp [History.streamed, endCalls]

variable {s t : State}

/-- A request has a slot from its beginning until it is freed. -/
theorem Owned.mem_owners (h : Owned s) {r : Req} :
    r ∈ (tokens s).map (fun u => u.ctx.owner) ↔ r ∈ begunReqs s.trace ∧ freesOf r s.trace = 0 := by
  have hfrees := (shown r h.own).frees
  constructor
  · intro hr
    obtain ⟨u, hu, rfl⟩ := Multiset.mem_map.mp hr
    exact ⟨mem_begunReqs.mpr (h.begun_of_token hu), hfrees ▸ (h.held u hu).2.frees⟩
  · rintro ⟨hbegun, hzero⟩
    by_contra hr
    have hopened := (shown r h.own).begun_iff.mpr (mem_begunReqs.mp hbegun)
    rcases h.ended r fun u hu heq => hr (Multiset.mem_map.mpr ⟨u, hu, heq⟩) with hempty | hdone
    · rw [hempty] at hopened
      exact Bool.noConfusion hopened
    · rw [hdone.frees, hzero] at hfrees
      exact Nat.one_ne_zero hfrees

theorem Owned.card_tokens (h : Owned s) :
    (tokens s).card = (openReqs s.trace).card + (lingering s.trace).card := by
  set owners := ((tokens s).map fun u => u.ctx.owner).toFinset
  have hcard : owners.card = (tokens s).card := by
    rw [Multiset.toFinset_card_of_nodup h.owners, Multiset.card_map]
  have hopen : {r ∈ owners | ¬ .complete ∈ callsOn r s.trace} = openReqs s.trace := by
    ext r
    simp only [owners, openReqs, Finset.mem_filter, Multiset.mem_toFinset, h.mem_owners]
    refine ⟨fun hr => ⟨hr.1.1, hr.2⟩, fun hr => ⟨⟨hr.1, ?_⟩, hr.2⟩⟩
    -- an uncompleted request is not over
    have hcalls := (shown r h.own).calls
    have hfrees := (shown r h.own).frees
    rcases h.history_cases r with ⟨u, -, -, hok⟩ | hempty | hdone
    · exact hfrees ▸ hok.frees
    · rw [← hfrees, hempty]
      rfl
    · exact absurd (hcalls ▸ hdone.completed) hr.2
  have hlingering : {r ∈ owners | .complete ∈ callsOn r s.trace} = lingering s.trace := by
    ext r
    simp only [owners, lingering, Finset.mem_filter, Multiset.mem_toFinset, h.mem_owners]
    tauto
  rw [← hcard, ← hopen, ← hlingering, Nat.add_comm]
  exact (Finset.card_filter_add_card_filter_not _).symm

/-! ## Sockets -/

/-- The open requests are on different sockets. -/
def Distinct (tr : List Obs) : Prop := Set.InjOn Req.socket (openReqs tr : Set Req)

/-- An open request was open before, or has just begun. -/
theorem openReqs_append {tr obs : List Obs} {r : Req} (hr : r ∈ openReqs (tr ++ obs)) :
    r ∈ openReqs tr ∨ ∃ c, c.owner = r ∧ .begun c ∈ obs := by
  obtain ⟨hbegun, hcomplete⟩ := Finset.mem_filter.mp hr
  obtain ⟨c, rfl, hc⟩ := mem_begunReqs.mp hbegun
  rcases List.mem_append.mp hc with hc | hc
  · refine .inl (Finset.mem_filter.mpr ⟨mem_begunReqs.mpr ⟨c, rfl, hc⟩, fun hmem => hcomplete ?_⟩)
    rw [callsOn, List.filterMap_append]
    exact List.mem_append_left _ hmem
  · exact .inr ⟨c, rfl, hc⟩

theorem distinct_step {l : Label} (h : Distinct s.trace) (hone : OnePerSocket s l)
    (hstep : step s l = some t) : Distinct t.trace := by
  obtain ⟨obs, htrace, hobs⟩ := step_log hstep
  rw [htrace]
  intro r hr r' hr' hsocket
  rcases openReqs_append hr with hold | ⟨c, rfl, hc⟩
  · rcases openReqs_append hr' with hold' | ⟨c', rfl, hc'⟩
    · exact h hold hold' hsocket
    · obtain ⟨-, command, slot, rfl⟩ := hobs c' hc'
      exact absurd hsocket (hone r hold)
  · obtain ⟨heq, command, slot, rfl⟩ := hobs c hc
    rcases openReqs_append hr' with hold' | ⟨c', rfl, hc'⟩
    · exact absurd hsocket.symm (hone r' hold')
    · rw [heq] at hc'
      obtain rfl := Obs.begun.inj (List.mem_singleton.mp hc')
      rfl

theorem distinct_run {ls : List Label} (hone : Transition.Throughout step OnePerSocket .init ls)
    (hrun : run ls = some t) : Distinct t.trace := by
  refine Transition.run_induction
    (P := fun ls t => Transition.Throughout step OnePerSocket .init ls → Distinct t.trace)
    ?_ ?_ ls t hrun hone
  · intro _
    have hnone : openReqs State.init.trace = ∅ := rfl
    simp [Distinct, hnone]
  · intro ls t l u hls ih hl hone
    obtain ⟨hone, hlast⟩ := (Transition.throughout_concat hls).mp hone
    exact distinct_step (ih hone) hlast hl

/-- Apart from the socket of a new request, a socket is idle or has one open
request. -/
theorem card_idleOthers {tr : List Obs} {socket : Socket} (h : Distinct tr)
    (hone : ∀ r ∈ openReqs tr, r.socket ≠ socket) :
    (idleOthers tr socket).card + (openReqs tr).card + 1 = maxOpenSockets := by
  have hnot : socket ∉ (openReqs tr).image Req.socket := by
    intro hmem
    obtain ⟨r, hr, heq⟩ := Finset.mem_image.mp hmem
    exact hone r hr heq
  have hcard : (insert socket ((openReqs tr).image Req.socket)).card = (openReqs tr).card + 1 := by
    rw [Finset.card_insert_of_notMem hnot, Finset.card_image_of_injOn h]
  have hcompl := Finset.card_compl_add_card (insert socket ((openReqs tr).image Req.socket))
  rw [hcard, Fintype.card_fin] at hcompl
  exact hcompl

/-- The pool is exhausted when a request comes exactly when there is no room. -/
theorem exhausted_iff (h : Owned s) (hdistinct : Distinct s.trace) {socket : Socket}
    (hone : ∀ r ∈ openReqs s.trace, r.socket ≠ socket) :
    s.slotBank.exhausted ↔ (idleOthers s.trace socket).card < (lingering s.trace).card := by
  have hcount := card_idleOthers hdistinct hone
  -- the pool has as many slots as the server has sockets
  have hsize : maxOpenSockets = maxAsyncRequests := rfl
  rw [h.slots.exhausted_iff, Multiset.card_map, h.card_tokens, Fintype.card_fin]
  omega

/-! ## The pool does not run out -/

/-- `bank_alloc` never answers `NULL` exactly when every request finds room. -/
theorem slotsSuffice_iff_roomy {ls : List Label} {t : State} (hrun : run ls = some t)
    (hone : Transition.Throughout step OnePerSocket .init ls) :
    (∀ command socket, .dispatch command socket none ∉ ls) ↔
      Transition.Throughout step Roomy .init ls := by
  have hroomy : ∀ pre command socket slot u, pre ++ [.dispatch command socket slot] <+: ls →
      run pre = some u → (slot = none ↔ ¬ Roomy u (.dispatch command socket slot)) := by
    intro pre command socket slot u hpre hu
    obtain ⟨v, hv⟩ := Transition.run_prefix hrun hpre
    obtain ⟨u', hu', hstep⟩ := Transition.run_concat.mp hv
    obtain rfl : u' = u := Option.some.inj (hu'.symm.trans hu)
    have hpast := hone.initial ((List.prefix_append _ _).trans hpre)
    have hexhausted := exhausted_iff (run_sound hu).inv.owned (distinct_run hpast hu)
      (hone pre _ u' hpre hu)
    cases step_kind hstep with
    | dispatch _ _ _ _ _ hdispatch =>
      cases halloc : u'.slotBank.alloc slot with
      | none => simp [masterRequestHandler, halloc] at hdispatch
      | some bank =>
        rw [Bank.alloc_eq_none_iff halloc, hexhausted]
        exact not_le.symm
  constructor
  · intro hnone pre l u hpre hu
    cases l with
    | dispatch command socket slot =>
      by_contra hnot
      obtain rfl := (hroomy pre command socket slot u hpre hu).mpr hnot
      exact hnone command socket (hpre.subset (by simp))
    | post _ | httpd _ | startWork | handle _ | ack _ _ | loop | snapshot _ | delegate _ => trivial
  · intro hthroughout command socket hmem
    obtain ⟨pre, post, rfl⟩ := List.append_of_mem hmem
    have hpre : pre ++ [.dispatch command socket none] <+: pre ++ .dispatch command socket none :: post :=
      ⟨post, by simp⟩
    obtain ⟨u, hu⟩ := Transition.run_prefix hrun ((List.prefix_append _ _).trans hpre)
    exact (hroomy pre command socket none u hpre hu).mp rfl (hthroughout pre _ u hpre hu)

/-! ## Runs -/

instance (s : State) (l : Label) : Decidable (OnePerSocket s l) :=
  match l with
  | .dispatch _ socket _ => inferInstanceAs (Decidable (∀ r ∈ openReqs s.trace, r.socket ≠ socket))
  | .post _ | .httpd _ | .startWork | .handle _ | .ack _ _ | .loop | .snapshot _ | .delegate _ =>
    inferInstanceAs (Decidable True)

/-- Four gate commands that cannot be sent, on the four sockets. -/
def fourRequests : List Label :=
  [.dispatch .gateOpen 0 (some 0), .post true, .dispatch .gateOpen 1 (some 1), .post true,
    .dispatch .gateOpen 2 (some 2), .post true, .dispatch .gateOpen 3 (some 3), .post true,
    .handle false, .loop, .loop]

/-- The next request on the first socket comes when its slot has been freed. -/
def patientRun : List Label := fourRequests ++ [.loop, .dispatch .gateClose 0 (some 0)]

/-- It comes when the first request is completed. -/
def hastyRun : List Label := fourRequests ++ [.dispatch .gateClose 0 none]

theorem roomy_patientRun :
    (∃ t, run patientRun = some t) ∧ Transition.Throughout step OnePerSocket .init patientRun ∧
      Transition.Throughout step Roomy .init patientRun := by
  have hrun : run patientRun = some ((run patientRun).getD .init) :=
    run_eq_getD (by decide +kernel)
  have hone : Transition.Throughout step OnePerSocket .init patientRun := by decide +kernel
  refine ⟨⟨_, hrun⟩, hone, (slotsSuffice_iff_roomy hrun hone).mp ?_⟩
  simp [patientRun, fourRequests]

/-- The slot of a completed request is missing. -/
theorem not_slotsSuffice_hastyRun :
    ¬ ∀ ls t, run ls = some t → Transition.Throughout step OnePerSocket .init ls →
      ∀ command socket, .dispatch command socket none ∉ ls := by
  intro h
  have hnone := h hastyRun _ (run_eq_getD (by decide +kernel)) (by decide +kernel) .gateClose 0
  simp [hastyRun] at hnone

end HomeNode.Http
