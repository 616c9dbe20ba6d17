-- SUMMARY: The request handles given to the callbacks, and which object each operation of the interface acts on.
import HomeNode.Http.Server

/-!
# Request handles

`http_request_t` is declared and never defined: the callbacks get a pointer to an
`async_slot_t` under that name, and each operation of `http_server_interface_t`
casts it back on its own, some of them in a work item later on. The model lets
the callbacks do anything with a handle until it is closed, and keeps with each
handle the request it was made for.
-/

namespace HomeNode.Http.Handles

/-! ## Data -/

/-- A pointer to a slot, and the request that was in it when it was handed out. -/
structure Handle where
  slot : SlotId
  owner : Nat
  deriving DecidableEq

/-- What a call of the httpd is made on. A request that was completed is freed. -/
inductive Object where
  | request (r : Nat)
  | freed (r : Nat)
  | slot (i : SlotId)
  | null
  deriving DecidableEq

/-- The operations as they reach the httpd: three on the spot, two by a work item. -/
inductive Op where
  | sendResponse
  | sendError
  | closeAsyncConnection
  | asyncData
  | asyncClose
  deriving DecidableEq

structure Act where
  handle : Handle
  op : Op
  object : Object
  deriving DecidableEq

/-- The work queue of the httpd. -/
inductive Work where
  | data (h : Handle)
  | close (h : Handle)
  | finalize (h : Handle)
  deriving DecidableEq

/-- `live` are the handles that were given to a callback and not closed. A slot that was
freed keeps its pointer. -/
structure State where
  bank : Bank SlotId
  slots : SlotId → Option Nat
  live : List Handle
  work : List Work
  completed : List Nat
  nextId : Nat
  acts : List Act

def State.init : State where
  bank := .empty
  slots _ := none
  live := []
  work := []
  completed := []
  nextId := 0
  acts := []

/-! ## Steps -/

/-- What `slot->req` points to. -/
def State.target (s : State) (i : SlotId) : Object :=
  match s.slots i with
  | none => .null
  | some r => if r ∈ s.completed then .freed r else .request r

def State.act (s : State) (h : Handle) (op : Op) (object : Object) : State :=
  { s with acts := s.acts ++ [⟨h, op, object⟩] }

/-- `httpd_req_async_handler_complete(slot->req)` -/
def State.complete (s : State) (h : Handle) : State :=
  { s with completed := (s.slots h.slot).toList ++ s.completed, live := s.live.erase h }

/-- `master_request_handler`, when `bank_alloc` answers the slot `i` -/
def masterRequestHandler (s : State) (i : SlotId) : Option State :=
  (s.bank.alloc (some i)).map fun bank =>
    { s with
      bank := bank
      slots := Function.update s.slots i (some s.nextId)
      live := ⟨i, s.nextId⟩ :: s.live
      nextId := s.nextId + 1 }

/-- `http_server_send_response` -/
def sendResponse (s : State) (h : Handle) (text : Option String) : State :=
  match text with
  | none => s
  | some _ => s.act h .sendResponse (s.target h.slot)

/-- `http_server_send_error` takes the handle itself for the `httpd_req_t`. -/
def sendError (s : State) (h : Handle) : State := s.act h .sendError (.slot h.slot)

/-- `http_server_send_chunked_response`. A piece is queued if there was a chunk and a job for
it and `httpd_queue_work` took it. -/
def sendChunkedResponse (s : State) (h : Handle) (data queued : Bool) : State :=
  if queued then { s with work := s.work ++ [if data then .data h else .close h] } else s

/-- `http_server_close_async_connection` -/
def closeAsyncConnection (s : State) (h : Handle) : State :=
  let s := (s.act h .closeAsyncConnection (s.target h.slot)).complete h
  { s with bank := s.bank.free h.slot }

/-- `http_async_data_worker` -/
def asyncDataWorker (s : State) (h : Handle) : State := s.act h .asyncData (s.target h.slot)

/-- `http_async_close_worker` -/
def asyncCloseWorker (s : State) (h : Handle) (queued : Bool) : State :=
  let s := (s.act h .asyncClose (s.target h.slot)).complete h
  if queued then { s with work := s.work ++ [.finalize h] } else s

/-- `http_async_finalize_worker` -/
def asyncFinalizeWorker (s : State) (h : Handle) : State :=
  { s with bank := s.bank.free h.slot }

inductive Label where
  /-- a request on a registered URI, and the slot that it gets -/
  | dispatch (slot : SlotId)
  | sendResponse (h : Handle) (text : Option String)
  | sendError (h : Handle)
  | sendChunkedResponse (h : Handle) (data queued : Bool)
  | closeAsyncConnection (h : Handle)
  /-- the httpd takes the next work item, and what `httpd_queue_work` answers to it -/
  | work (queued : Bool)
  deriving DecidableEq

def step (s : State) (l : Label) : Option State :=
  match l with
  | .dispatch slot => masterRequestHandler s slot
  | .sendResponse h text => if h ∈ s.live then some (sendResponse s h text) else none
  | .sendError h => if h ∈ s.live then some (sendError s h) else none
  | .sendChunkedResponse h data queued =>
    if h ∈ s.live then some (sendChunkedResponse s h data queued) else none
  | .closeAsyncConnection h => if h ∈ s.live then some (closeAsyncConnection s h) else none
  | .work queued =>
    match s.work with
    | [] => none
    | .data h :: rest => some (asyncDataWorker { s with work := rest } h)
    | .close h :: rest => some (asyncCloseWorker { s with work := rest } h queued)
    | .finalize h :: rest => some (asyncFinalizeWorker { s with work := rest } h)

/-! ## One meaning -/

/-- Every operation so far has acted on the request its handle was made for. -/
def OneMeaning (s : State) : Prop := ∀ a ∈ s.acts, a.object = .request a.handle.owner

/-- The handle whose request a work item uses. -/
def Work.uses : Work → Option Handle
  | .data h | .close h => some h
  | .finalize _ => none

/-- No error response, and no work item whose handle was closed in the meantime. -/
def Proper (s : State) : Label → Prop
  | .sendError _ => False
  | .work _ => ∀ h ∈ s.work.head?.bind Work.uses, h ∈ s.live
  | _ => True

def finalizing (work : List Work) : Multiset SlotId :=
  ↑(work.filterMap fun
    | .finalize h => some h.slot
    | .data _ | .close _ => none)

/-- The slots that somebody will free: those of the live handles, and those that wait to be
finalized. -/
def State.held (s : State) : Multiset SlotId := ↑(s.live.map Handle.slot) + finalizing s.work

/-- Nobody else has a slot that is held, and each live handle has its own request in its
slot. -/
structure Owned (s : State) : Prop where
  nodup : s.held.Nodup
  inUse : ∀ i ∈ s.held, s.bank i = true
  stored : ∀ h ∈ s.live, s.slots h.slot = some h.owner
  owners : (s.live.map Handle.owner).Nodup
  fresh : ∀ h ∈ s.live, h.owner < s.nextId
  uncompleted : ∀ h ∈ s.live, h.owner ∉ s.completed
  past : ∀ r ∈ s.completed, r < s.nextId
  queued : ∀ w ∈ s.work, ∀ h ∈ w.uses, h ∈ s.live ∨ h.owner ∈ s.completed

theorem owned_init : Owned .init where
  nodup := by simp [State.held, State.init, finalizing]
  inUse := by simp [State.held, State.init, finalizing]
  stored := by simp [State.init]
  owners := by simp [State.init]
  fresh := by simp [State.init]
  uncompleted := by simp [State.init]
  past := by simp [State.init]
  queued := by simp [State.init]

variable {s t : State} {h : Handle}

theorem Owned.target (ho : Owned s) (hh : h ∈ s.live) : s.target h.slot = .request h.owner := by
  simp [State.target, ho.stored h hh, ho.uncompleted h hh]

/-- A completed request is in no slot any more. -/
theorem target_ne_of_completed (hc : h.owner ∈ s.completed) :
    s.target h.slot ≠ .request h.owner := by
  unfold State.target
  cases hr : s.slots h.slot with
  | none => simp
  | some r =>
    by_cases hr' : r ∈ s.completed
    · simp [hr']
    · simp only [hr', if_false, ne_eq, Object.request.injEq]
      rintro rfl
      exact hr' hc

theorem Owned.target_iff (ho : Owned s) (h' : h ∈ s.live ∨ h.owner ∈ s.completed) :
    s.target h.slot = .request h.owner ↔ h ∈ s.live := by
  constructor
  · exact fun ht => h'.resolve_right fun hc => target_ne_of_completed hc ht
  · exact ho.target

theorem oneMeaning_act (op : Op) (object : Object) :
    OneMeaning (s.act h op object) ↔ OneMeaning s ∧ object = .request h.owner := by
  simp [OneMeaning, State.act, or_imp, forall_and]

@[simp] theorem finalizing_cons (w : Work) (work : List Work) :
    finalizing (w :: work) = (match w with
      | .finalize h => {h.slot}
      | .data _ | .close _ => 0) + finalizing work := by
  cases w <;> simp [finalizing]

@[simp] theorem finalizing_append (work rest : List Work) :
    finalizing (work ++ rest) = finalizing work + finalizing rest := by
  simp [finalizing]

@[simp] theorem finalizing_nil : finalizing [] = 0 := rfl

/-! ## What a step keeps -/

theorem Owned.dispatch (ho : Owned s) {i : SlotId} (hstep : masterRequestHandler s i = some t) :
    Owned t := by
  obtain ⟨bank, halloc, rfl⟩ := Option.map_eq_some_iff.mp hstep
  obtain ⟨hfree, rfl⟩ := Bank.alloc_some.mp halloc
  have hnew : i ∉ s.held := fun hi => by simp [ho.inUse i hi] at hfree
  have hlive : ∀ h ∈ s.live, h.slot ≠ i := by
    rintro h hh rfl
    exact hnew (Multiset.mem_add.mpr (.inl (List.mem_map_of_mem hh)))
  have howner : ∀ h ∈ s.live, h.owner ≠ s.nextId := fun h hh => (ho.fresh h hh).ne
  constructor
  case nodup => exact Multiset.nodup_cons.mpr ⟨hnew, ho.nodup⟩
  case inUse =>
    intro j hj
    change j ∈ i ::ₘ s.held at hj
    rcases Multiset.mem_cons.mp hj with rfl | hj
    · simp
    · by_cases hji : j = i
      · simp [hji]
      · simpa [hji] using ho.inUse j hj
  case stored =>
    intro h hh
    rcases List.mem_cons.mp hh with rfl | hh
    · simp
    · simpa [hlive h hh] using ho.stored h hh
  case owners =>
    apply List.nodup_cons.mpr ⟨fun hmem => ?_, ho.owners⟩
    obtain ⟨h, hh, heq⟩ := List.mem_map.mp hmem
    exact howner h hh heq
  case fresh =>
    intro h hh
    rcases List.mem_cons.mp hh with rfl | hh
    · exact Nat.lt_succ_self _
    · exact (ho.fresh h hh).trans (Nat.lt_succ_self _)
  case uncompleted =>
    intro h hh hc
    rcases List.mem_cons.mp hh with rfl | hh
    · exact absurd (ho.past _ hc) (Nat.lt_irrefl _)
    · exact ho.uncompleted h hh hc
  case past => exact fun r hr => (ho.past r hr).trans (Nat.lt_succ_self _)
  case queued =>
    intro w hw h hh
    exact (ho.queued w hw h hh).imp_left (List.mem_cons_of_mem _)

/-- Taking a handle out of the live ones, with its request completed. Whether its slot is
freed, kept for the finalizer or forgotten shows in `bank` and `work`. -/
theorem Owned.closed (ho : Owned s) (hh : h ∈ s.live) {bank : Bank SlotId} {work : List Work}
    {acts : List Act} (hnodup : (↑((s.live.erase h).map Handle.slot) + finalizing work).Nodup)
    (hinUse : ∀ i ∈ (↑((s.live.erase h).map Handle.slot) + finalizing work : Multiset SlotId),
      bank i = true)
    (hwork : ∀ w ∈ work, w ∈ s.work ∨ w.uses = none) :
    Owned { s with
      bank := bank
      work := work
      acts := acts
      completed := (s.slots h.slot).toList ++ s.completed
      live := s.live.erase h } := by
  have hcompleted : (s.slots h.slot).toList ++ s.completed = h.owner :: s.completed := by
    simp [ho.stored h hh]
  rw [hcompleted]
  have hsub : s.live.erase h ⊆ s.live := List.erase_subset
  have hnot : h ∉ s.live.erase h := (List.Nodup.of_map _ ho.owners).not_mem_erase
  constructor
  case nodup => exact hnodup
  case inUse => exact hinUse
  case stored => exact fun h' hh' => ho.stored h' (hsub hh')
  case owners => exact ho.owners.sublist (List.erase_sublist.map _)
  case fresh => exact fun h' hh' => ho.fresh h' (hsub hh')
  case uncompleted =>
    intro h' hh' hc
    rcases List.mem_cons.mp hc with heq | hc
    · obtain rfl := List.inj_on_of_nodup_map ho.owners (hsub hh') hh heq
      exact hnot hh'
    · exact ho.uncompleted h' (hsub hh') hc
  case past =>
    intro r hr
    rcases List.mem_cons.mp hr with rfl | hr
    · exact ho.fresh h hh
    · exact ho.past r hr
  case queued =>
    intro w hw h' hh'
    rcases hwork w hw with hw | hnone
    · rcases ho.queued w hw h' hh' with hlive | hc
      · by_cases heq : h' = h
        · exact .inr (heq ▸ List.mem_cons_self)
        · exact .inl ((List.mem_erase_of_ne heq).mpr hlive)
      · exact .inr (List.mem_cons_of_mem _ hc)
    · simp [hnone] at hh'

/-- The slot of a live handle, and the other slots that are held. -/
theorem held_eq_cons (hh : h ∈ s.live) :
    s.held = h.slot ::ₘ (↑((s.live.erase h).map Handle.slot) + finalizing s.work) := by
  have hperm := (List.perm_cons_erase hh).map Handle.slot
  have hlive : (↑(s.live.map Handle.slot) : Multiset SlotId) =
      h.slot ::ₘ ↑((s.live.erase h).map Handle.slot) := Multiset.coe_eq_coe.mpr hperm
  rw [State.held, hlive, Multiset.cons_add]

theorem Owned.closeAsyncConnection (ho : Owned s) (hh : h ∈ s.live) :
    Owned (closeAsyncConnection s h) := by
  have hheld := held_eq_cons hh
  have hnodup := ho.nodup
  rw [hheld] at hnodup
  obtain ⟨hnot, hnodup⟩ := Multiset.nodup_cons.mp hnodup
  apply ho.closed hh hnodup
  · exact Bank.free_of_notMem hnot fun i hi => ho.inUse i (hheld ▸ hi)
  · exact fun w hw => .inl hw

/-- A step that leaves the handles and the requests alone has to care for the slots that are
held and for what is queued. -/
theorem Owned.frame (ho : Owned s) {bank : Bank SlotId} {work : List Work}
    (hnodup : (↑(s.live.map Handle.slot) + finalizing work).Nodup)
    (hinUse : ∀ i ∈ (↑(s.live.map Handle.slot) + finalizing work : Multiset SlotId),
      bank i = true)
    (hqueued : ∀ w ∈ work, ∀ h ∈ w.uses, h ∈ s.live ∨ h.owner ∈ s.completed) :
    Owned { s with bank := bank, work := work } where
  nodup := hnodup
  inUse := hinUse
  stored := ho.stored
  owners := ho.owners
  fresh := ho.fresh
  uncompleted := ho.uncompleted
  past := ho.past
  queued := hqueued

theorem Owned.takeWork (ho : Owned s) {w : Work} {rest : List Work} (hwork : s.work = w :: rest)
    (hfinal : ∀ h, w ≠ .finalize h) : Owned { s with work := rest } := by
  have hheld : ↑(s.live.map Handle.slot) + finalizing rest = s.held := by
    cases w with
    | data h | close h => simp [State.held, hwork]
    | finalize h => exact absurd rfl (hfinal h)
  apply ho.frame
  · exact hheld ▸ ho.nodup
  · exact fun i hi => ho.inUse i (hheld ▸ hi)
  · exact fun w hw => ho.queued w (hwork ▸ List.mem_cons_of_mem _ hw)

theorem Owned.act (ho : Owned s) (h : Handle) (op : Op) (object : Object) :
    Owned (s.act h op object) :=
  ⟨ho.nodup, ho.inUse, ho.stored, ho.owners, ho.fresh, ho.uncompleted, ho.past, ho.queued⟩

theorem Owned.queue (ho : Owned s) (hh : h ∈ s.live) {w : Work} (hw : w.uses = some h) :
    Owned { s with work := s.work ++ [w] } := by
  have hheld : ↑(s.live.map Handle.slot) + finalizing (s.work ++ [w]) = s.held := by
    cases w with
    | data h' | close h' => simp [State.held]
    | finalize h' => simp [Work.uses] at hw
  apply ho.frame
  · exact hheld ▸ ho.nodup
  · exact fun i hi => ho.inUse i (hheld ▸ hi)
  · intro w' hw' h' hh'
    rcases List.mem_append.mp hw' with hw' | hw'
    · exact ho.queued w' hw' h' hh'
    · obtain rfl := List.mem_singleton.mp hw'
      obtain rfl := Option.some.inj (hw.symm.trans hh')
      exact .inl hh

/-- The close worker keeps the slot for the finalizer, or nobody frees it. -/
theorem Owned.asyncCloseWorker (ho : Owned s) (hh : h ∈ s.live) (queued : Bool) :
    Owned (asyncCloseWorker s h queued) := by
  have hheld := held_eq_cons hh
  cases queued with
  | true =>
    have heq : ↑((s.live.erase h).map Handle.slot) + finalizing (s.work ++ [.finalize h]) =
        s.held := by
      rw [hheld]
      simp [← add_assoc, ← Multiset.singleton_add, add_comm]
    apply ho.closed hh
    · exact heq ▸ ho.nodup
    · exact fun i hi => ho.inUse i (heq ▸ hi)
    · intro w hw
      rcases List.mem_append.mp hw with hw | hw
      · exact .inl hw
      · exact .inr (List.mem_singleton.mp hw ▸ rfl)
  | false =>
    have hnodup := ho.nodup
    rw [hheld] at hnodup
    apply ho.closed hh (Multiset.nodup_cons.mp hnodup).2
    · exact fun i hi => ho.inUse i (hheld ▸ Multiset.mem_cons_of_mem hi)
    · exact fun w hw => .inl hw

theorem Owned.finalize (ho : Owned s) {rest : List Work} (hwork : s.work = .finalize h :: rest) :
    Owned (asyncFinalizeWorker { s with work := rest } h) := by
  have hheld : s.held = h.slot ::ₘ (↑(s.live.map Handle.slot) + finalizing rest) := by
    simp [State.held, hwork, Multiset.singleton_add, Multiset.add_cons]
  have hnodup := ho.nodup
  rw [hheld] at hnodup
  obtain ⟨hnot, hnodup⟩ := Multiset.nodup_cons.mp hnodup
  apply ho.frame hnodup
  · exact Bank.free_of_notMem hnot fun i hi => ho.inUse i (hheld ▸ hi)
  · exact fun w hw => ho.queued w (hwork ▸ List.mem_cons_of_mem _ hw)

theorem owned_step {l : Label} (ho : Owned s) (hproper : Proper s l) (hstep : step s l = some t) :
    Owned t := by
  cases l with
  | dispatch slot => exact ho.dispatch hstep
  | sendError h => exact hproper.elim
  | sendResponse h text =>
    simp only [step, Option.ite_none_right_eq_some, Option.some.injEq] at hstep
    obtain ⟨-, rfl⟩ := hstep
    cases text with
    | none => exact ho
    | some text => exact ho.act h .sendResponse _
  | sendChunkedResponse h data queued =>
    simp only [step, Option.ite_none_right_eq_some, Option.some.injEq] at hstep
    obtain ⟨hh, rfl⟩ := hstep
    cases queued with
    | false => exact ho
    | true =>
      cases data with
      | true => exact ho.queue hh rfl
      | false => exact ho.queue hh rfl
  | closeAsyncConnection h =>
    simp only [step, Option.ite_none_right_eq_some, Option.some.injEq] at hstep
    obtain ⟨hh, rfl⟩ := hstep
    exact ho.closeAsyncConnection hh
  | work queued =>
    cases hwork : s.work with
    | nil => simp [step, hwork] at hstep
    | cons w rest =>
      cases w with
      | data h =>
        simp only [step, hwork, Option.some.injEq] at hstep
        subst hstep
        exact (ho.takeWork hwork (by simp)).act h .asyncData _
      | close h =>
        simp only [step, hwork, Option.some.injEq] at hstep
        have hh : h ∈ s.live := hproper h (by simp [hwork, Work.uses])
        subst hstep
        exact (ho.takeWork hwork (by simp)).asyncCloseWorker hh queued
      | finalize h =>
        simp only [step, hwork, Option.some.injEq] at hstep
        subst hstep
        exact ho.finalize hwork

/-- A step keeps to the right objects exactly when it is proper. -/
theorem oneMeaning_step {l : Label} (ho : OneMeaning s → Owned s) (hstep : step s l = some t) :
    OneMeaning t ↔ OneMeaning s ∧ Proper s l := by
  cases l with
  | dispatch slot =>
    obtain ⟨bank, -, rfl⟩ := Option.map_eq_some_iff.mp hstep
    simp [OneMeaning, Proper]
  | sendError h =>
    simp only [step, Option.ite_none_right_eq_some, Option.some.injEq] at hstep
    obtain ⟨-, rfl⟩ := hstep
    simp [sendError, oneMeaning_act, Proper]
  | sendResponse h text =>
    simp only [step, Option.ite_none_right_eq_some, Option.some.injEq] at hstep
    obtain ⟨hh, rfl⟩ := hstep
    cases text with
    | none => simp [sendResponse, Proper]
    | some text =>
      simp only [sendResponse, oneMeaning_act, Proper, and_true, and_iff_left_iff_imp]
      exact fun h => (ho h).target hh
  | sendChunkedResponse h data queued =>
    simp only [step, Option.ite_none_right_eq_some, Option.some.injEq] at hstep
    obtain ⟨hh, rfl⟩ := hstep
    cases queued with
    | false => simp [sendChunkedResponse, Proper]
    | true => simp [sendChunkedResponse, Proper, OneMeaning]
  | closeAsyncConnection h =>
    simp only [step, Option.ite_none_right_eq_some, Option.some.injEq] at hstep
    obtain ⟨hh, rfl⟩ := hstep
    have hact : OneMeaning (closeAsyncConnection s h) ↔
        OneMeaning (s.act h .closeAsyncConnection (s.target h.slot)) := Iff.rfl
    simp only [hact, oneMeaning_act, Proper, and_true, and_iff_left_iff_imp]
    exact fun h => (ho h).target hh
  | work queued =>
    cases hwork : s.work with
    | nil => simp [step, hwork] at hstep
    | cons w rest =>
      have hqueued (h : Handle) (hu : w.uses = some h) (hone : OneMeaning s) :
          s.target h.slot = .request h.owner ↔ h ∈ s.live :=
        (ho hone).target_iff ((ho hone).queued w (by simp [hwork]) h hu)
      have hnext : Proper s (.work queued) ↔ ∀ h ∈ w.uses, h ∈ s.live := by
        simp [Proper, hwork]
      cases w with
      | data h =>
        simp only [step, hwork, Option.some.injEq] at hstep
        subst hstep
        simp only [asyncDataWorker, oneMeaning_act, hnext]
        exact and_congr_right fun hone => (hqueued h rfl hone).trans (by simp [Work.uses])
      | close h =>
        simp only [step, hwork, Option.some.injEq] at hstep
        subst hstep
        have hact : OneMeaning (asyncCloseWorker { s with work := rest } h queued) ↔
            OneMeaning (s.act h .asyncClose (s.target h.slot)) := by
          cases queued <;> exact Iff.rfl
        simp only [hact, oneMeaning_act, hnext]
        exact and_congr_right fun hone => (hqueued h rfl hone).trans (by simp [Work.uses])
      | finalize h =>
        simp only [step, hwork, Option.some.injEq] at hstep
        subst hstep
        simp [OneMeaning, asyncFinalizeWorker, hnext, Work.uses]

/-- All operations have acted on the requests their handles were made for exactly when each
step was proper. -/
theorem oneMeaning_iff {ls : List Label} (hrun : Transition.run step .init ls = some s) :
    OneMeaning s ↔ Transition.Throughout step Proper .init ls := by
  have hinv : Transition.Preserved step fun s => OneMeaning s → Owned s := by
    intro s l t ho hstep hone
    obtain ⟨hs, hproper⟩ := (oneMeaning_step ho hstep).mp hone
    exact owned_step (ho hs) hproper hstep
  exact Transition.good_iff_throughout hinv (fun _ _ _ ho hstep => oneMeaning_step ho hstep)
    (fun _ => owned_init) (by simp [OneMeaning, State.init]) hrun

/-! ## Runs -/

instance (s : State) (l : Label) : Decidable (Proper s l) :=
  match l with
  | .sendError _ => inferInstanceAs (Decidable False)
  | .work _ => inferInstanceAs (Decidable (∀ h ∈ s.work.head?.bind Work.uses, h ∈ s.live))
  | .dispatch _ | .sendResponse _ _ | .sendChunkedResponse _ _ _ | .closeAsyncConnection _ =>
    inferInstanceAs (Decidable True)

instance (s : State) : Decidable (OneMeaning s) :=
  inferInstanceAs (Decidable (∀ a ∈ s.acts, a.object = .request a.handle.owner))

/-- A request that is answered and closed, and one in the same slot that is sent a piece and
closed by the end of its response. -/
def orderlyRun : List Label :=
  [.dispatch 0, .sendResponse ⟨0, 0⟩ (some "success"), .closeAsyncConnection ⟨0, 0⟩, .dispatch 0,
    .sendChunkedResponse ⟨0, 1⟩ true true, .sendChunkedResponse ⟨0, 1⟩ false true, .work true,
    .work true, .work true]

/-- An error response on a handle. -/
def errorRun : List Label := [.dispatch 0, .sendError ⟨0, 0⟩]

/-- A request that is closed while a piece of it is queued, and another one in its slot. -/
def overtakenRun : List Label :=
  [.dispatch 0, .sendChunkedResponse ⟨0, 0⟩ true true, .closeAsyncConnection ⟨0, 0⟩, .dispatch 0,
    .work true]

theorem oneMeaning_orderlyRun :
    ∃ s, Transition.run step .init orderlyRun = some s ∧ OneMeaning s := by
  obtain ⟨s, hs⟩ : ∃ s, Transition.run step .init orderlyRun = some s := by
    apply Option.isSome_iff_exists.mp
    decide
  exact ⟨s, hs, (oneMeaning_iff hs).mpr (by decide)⟩

/-- The error response goes to the slot itself, the piece to the request that has come. -/
theorem not_oneMeaning :
    ((Transition.run step .init errorRun).any fun s =>
      ¬ OneMeaning s ∧ s.acts = [⟨⟨0, 0⟩, .sendError, .slot 0⟩]) = true ∧
    ((Transition.run step .init overtakenRun).any fun s =>
      ¬ OneMeaning s ∧ s.acts = [⟨⟨0, 0⟩, .closeAsyncConnection, .request 0⟩,
        ⟨⟨0, 0⟩, .asyncData, .request 1⟩]) = true := by
  decide

end HomeNode.Http.Handles
