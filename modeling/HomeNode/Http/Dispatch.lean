-- SUMMARY: master_request_handler call by call, with its error paths, and when it leaves the server intact.
import HomeNode.Http.Server
import HomeNode.Http.UriTable

/-!
# The dispatcher

`master_request_handler` takes an asynchronous copy of the request and a slot for
it, and hands both to the callback. It looks at neither result in time: the slot
is written to before it is tested, and the copy is used whether or not there is one.
-/

namespace HomeNode.Http.Dispatch

/-! ## What the handler can do -/

/-- The request that came in, or an asynchronous copy. -/
inductive Target (ρ : Type) where
  | original
  | async (r : ρ)
  deriving DecidableEq

/-- The calls of the handler. -/
inductive Call (ρ : Type) where
  | asyncBegin (r : Option ρ)
  | bankAlloc (slot : Option SlotId)
  | setStatus (on : Target ρ) (status : String)
  | setType (on : Target ρ) (type : String)
  | setHdr (on : Target ρ) (field value : String)
  | send (on : Target ρ) (msg : String)
  | complete (on : Target ρ)
  | callback (f : Callback) (slot : SlotId) (uri : CStr)

/-- A null slot written to, an unset request or a null callback used. -/
inductive Fault where
  | nullSlot
  | unsetRequest
  | nullCallback
  deriving DecidableEq

/-- `async_slot_t`, for requests of any kind. -/
structure AsyncSlot (ρ : Type) where
  req : Option ρ := none
  responseStarted : Bool := false

/-- The pool of slots, and the calls made so far. -/
structure Handling (ρ : Type) where
  bank : Bank SlotId
  slots : SlotId → AsyncSlot ρ
  calls : List (Call ρ) := []

/-- What the calls on the response return. -/
structure Answers where
  setStatus : EspErr := espOk
  setType : EspErr := espOk
  setHdr : EspErr := espOk
  send : EspErr := espOk

abbrev HandlerM (ρ : Type) := StateT (Handling ρ) (Except Fault)

section

variable {ρ : Type}

def record (c : Call ρ) : HandlerM ρ Unit := modify fun h => { h with calls := h.calls ++ [c] }

@[simp] theorem run_record (c : Call ρ) (h : Handling ρ) :
    (record c).run h = pure ((), { h with calls := h.calls ++ [c] }) := rfl

/-- `bank_alloc(g_async_bank)` -/
def bankAlloc (slot : Option SlotId) : HandlerM ρ (Option SlotId) := do
  record (.bankAlloc slot)
  match slot with
  | some i => modify fun h => { h with bank := Function.update h.bank i true }
  | none => pure ()
  return slot

/-- A write to a field of a slot. -/
def store (slot : Option SlotId) (f : AsyncSlot ρ → AsyncSlot ρ) : HandlerM ρ SlotId :=
  match slot with
  | none => throw .nullSlot
  | some i => do
    modify fun h => { h with slots := Function.update h.slots i (f (h.slots i)) }
    return i

/-- A pointer that is followed. -/
def deref {α : Type} (fault : Fault) (p : Option α) : HandlerM ρ α :=
  match p with
  | none => throw fault
  | some a => pure a

@[simp] theorem run_bankAlloc_some (i : SlotId) (h : Handling ρ) :
    (bankAlloc (some i)).run h = pure (some i, { h with
      bank := Function.update h.bank i true
      calls := h.calls ++ [.bankAlloc (some i)] }) := rfl

@[simp] theorem run_store_some (i : SlotId) (f : AsyncSlot ρ → AsyncSlot ρ) (h : Handling ρ) :
    (store (some i) f).run h =
      pure (i, { h with slots := Function.update h.slots i (f (h.slots i)) }) := rfl

@[simp] theorem run_deref_some {α : Type} (fault : Fault) (x : α) (h : Handling ρ) :
    (deref fault (some x)).run h = pure (x, h) := rfl

/-! ## Replies -/

/-- Status, type, header and text of a reply, up to the first call that fails. -/
def reply (on : Target ρ) (status msg : String) (a : Answers) : HandlerM ρ EspErr := do
  record (.setStatus on status)
  if a.setStatus ≠ espOk then return a.setStatus else
  record (.setType on "text/plain")
  if a.setType ≠ espOk then return a.setType else
  record (.setHdr on "Cache-Control" "no-cache")
  if a.setHdr ≠ espOk then return a.setHdr else
  record (.send on msg)
  return a.send

/-- `http_server_send_error` -/
def sendError (on : Option (Target ρ)) (msg : Option String) (a : Answers) : HandlerM ρ EspErr :=
  match on with
  | none => return espErrInvalidArg
  | some on => reply on "404 Not Found" (msg.getD "Resource not found") a

def statusText (code : Nat) : String :=
  match code with
  | 400 => "400 Bad Request"
  | 401 => "401 Unauthorized"
  | 403 => "403 Forbidden"
  | 404 => "404 Not Found"
  | 405 => "405 Method Not Allowed"
  | 500 => "500 Internal Server Error"
  | 503 => "503 Service Unavailable"
  | _ => toString code ++ " Error"

/-- `http_server_send_status_error` -/
def sendStatusError (on : Option (Target ρ)) (code : Nat) (msg : Option String) (a : Answers) :
    HandlerM ρ EspErr :=
  match on with
  | none => return espErrInvalidArg
  | some on => reply on (statusText code) (msg.getD "An error occurred") a

/-! ## The handler -/

/-- The branch for a request that has got no slot. -/
def refuse (a : Answers) : HandlerM ρ EspErr := do
  let _ ← sendStatusError (some .original) 503 (some "Server Busy") a
  record (.complete .original)
  return espOk

/-- `master_request_handler` on a request for `uri`. `begin` is the copy that
`httpd_req_async_handler_begin` makes, `slot` what `bank_alloc` answers. -/
def masterRequestHandler (t : UriTable) (uri : CStr) (begin : Option ρ) (slot : Option SlotId)
    (a : Answers) : HandlerM ρ EspErr :=
  match t.find uri with
  | some i => do
    record (.asyncBegin begin)
    let asyncSlot ← bankAlloc slot
    let _ ← store asyncSlot fun slot => { slot with responseStarted := false }
    match asyncSlot with
    | none => refuse a
    | some _ =>
      let j ← store asyncSlot fun slot => { slot with req := begin }
      let f ← deref .nullCallback (t.record i).callback
      let _ ← deref .unsetRequest begin
      record (.callback f j uri)
      return espOk
  | none => do
    let _ ← sendError (some .original) (some "404 Not Found") a
    return espOk

/-! ## What it must leave -/

/-- The replies, each with the status it was sent under. -/
def replies (status : String) : List (Call ρ) → List (Target ρ × String)
  | [] => []
  | .setStatus _ status :: cs => replies status cs
  | .send on _ :: cs => (on, status) :: replies status cs
  | _ :: cs => replies status cs

def Call.completes : Call ρ → Option (Target ρ)
  | .complete on => some on
  | _ => none

def Call.calls : Call ρ → Option (Callback × SlotId × CStr)
  | .callback f slot uri => some (f, slot, uri)
  | _ => none

/-- The callback of the URI was called once, with a slot that holds the copy just begun. -/
structure Served (t : UriTable) (uri : CStr) (begin : Option ρ) (h : Handling ρ) : Prop where
  callback : ∃ i f j, t.find uri = some i ∧ (t.record i).callback = some f ∧
    h.calls.filterMap Call.calls = [(f, j, uri)] ∧ begin.isSome = true ∧ (h.slots j).req = begin
  replies : replies "200 OK" h.calls = []

/-- One 503 was sent, the copy just begun was completed, if there is one, and nothing else,
and the pool is as it was. -/
structure Refused (begin : Option ρ) (bank : Bank SlotId) (h : Handling ρ) : Prop where
  callback : h.calls.filterMap Call.calls = []
  replies : (replies "200 OK" h.calls).map Prod.snd = ["503 Service Unavailable"]
  completes : h.calls.filterMap Call.completes = begin.toList.map .async
  bank : h.bank = bank

/-- The handler comes to its end, and has served the request or refused it. -/
def Intact (t : UriTable) (uri : CStr) (begin : Option ρ) (bank : Bank SlotId)
    (res : Except Fault (EspErr × Handling ρ)) : Prop :=
  ∃ err h, res = .ok (err, h) ∧ (Served t uri begin h ∨ Refused begin bank h)

/-! ## Runs of the handler -/

/-- A record that was found has a callback. -/
theorem find_callback {t : UriTable} {uri : CStr} {i : Fin maxUris} (h : t.find uri = some i) :
    ∃ f, (t.record i).callback = some f := by
  have hcounted := List.find?_some h
  simp only [Bool.and_eq_true, decide_eq_true_eq] at hcounted
  exact Option.isSome_iff_exists.mp (t.registered i hcounted.1)

section

variable {t : UriTable} {uri : CStr} {i : Fin maxUris} {begin : Option ρ} {a : Answers}
  {h : Handling ρ}

/-- Without a slot the handler faults at its first write. -/
theorem masterRequestHandler_noSlot (hfind : t.find uri = some i) :
    (masterRequestHandler t uri begin none a).run h = .error .nullSlot := by
  rw [masterRequestHandler, hfind]
  rfl

/-- Without a copy it faults at the call of the callback. -/
theorem masterRequestHandler_noCopy (hfind : t.find uri = some i) (j : SlotId) :
    (masterRequestHandler t uri (none : Option ρ) (some j) a).run h = .error .unsetRequest := by
  obtain ⟨f, hf⟩ := find_callback hfind
  rw [masterRequestHandler, hfind]
  simp only [hf]
  rfl

/-- With both it calls the callback. -/
theorem masterRequestHandler_served {f : Callback} (hfind : t.find uri = some i)
    (hf : (t.record i).callback = some f) (r : ρ) (j : SlotId) :
    (masterRequestHandler t uri (some r) (some j) a).run h = .ok (espOk, {
      bank := Function.update h.bank j true
      slots := Function.update h.slots j ⟨some r, false⟩
      calls := h.calls ++ [.asyncBegin (some r), .bankAlloc (some j), .callback f j uri] }) := by
  change _ = pure _
  simp [masterRequestHandler, hfind, hf]

/-- The handler leaves the server intact exactly when the copy could be made and there was a
slot for it. -/
theorem intact_iff (hfind : t.find uri = some i) (slot : Option SlotId) (bank : Bank SlotId)
    (slots : SlotId → AsyncSlot ρ) :
    Intact t uri begin bank ((masterRequestHandler t uri begin slot a).run ⟨bank, slots, []⟩) ↔
      begin.isSome = true ∧ slot.isSome = true := by
  obtain ⟨f, hf⟩ := find_callback hfind
  cases slot with
  | none =>
    rw [masterRequestHandler_noSlot hfind]
    simp [Intact]
  | some j =>
    cases begin with
    | none =>
      rw [masterRequestHandler_noCopy hfind]
      simp [Intact]
    | some r =>
      rw [masterRequestHandler_served hfind hf]
      simp only [Option.isSome_some, and_self, iff_true]
      exact ⟨_, _, rfl, .inl ⟨⟨i, f, j, hfind, hf, rfl, rfl, by simp⟩, rfl⟩⟩

end

end

/-- A table with one record. -/
def sampleTable : UriTable :=
  UriTable.empty.push
    { uri := (CharArray.zeros _).write 0 shortUri.bytes, callback := some 1 } (by decide) rfl

theorem sampleTable_find : sampleTable.find shortUri = some 0 := by decide +kernel

theorem intact_served :
    Intact sampleTable shortUri (some 7) Bank.empty
      ((masterRequestHandler sampleTable shortUri (some 7) (some 0) {}).run
        ⟨Bank.empty, fun _ => {}, []⟩) :=
  (intact_iff sampleTable_find (some 0) Bank.empty fun _ => {}).mpr ⟨rfl, rfl⟩

/-- With all slots in use, or without a copy, it does not. -/
theorem not_intact :
    ¬ Intact sampleTable shortUri (some 7) (fun _ => true)
        ((masterRequestHandler sampleTable shortUri (some 7) none {}).run
          ⟨fun _ => true, fun _ => {}, []⟩) ∧
      ¬ Intact sampleTable shortUri (none : Option Nat) Bank.empty
        ((masterRequestHandler sampleTable shortUri none (some 0) {}).run
          ⟨Bank.empty, fun _ => {}, []⟩) := by
  rw [masterRequestHandler_noSlot sampleTable_find, masterRequestHandler_noCopy sampleTable_find]
  simp [Intact]

/-! ## The dispatcher of the server -/

/-- The slots of the server. -/
def asyncSlots (s : State) (i : SlotId) : AsyncSlot Req :=
  ⟨(s.slots i).req, (s.slots i).responseStarted⟩

/-- The step of the server on a request is a run of the handler for which the copy was made. -/
theorem masterRequestHandler_server {s s' : State} {command : Command} {socket : Socket}
    {slot : Option SlotId} {t : UriTable} {uri : CStr} {i : Fin maxUris} {a : Answers}
    (hfind : t.find uri = some i)
    (hstep : Http.masterRequestHandler s command socket slot = some s') :
    let r : Req := ⟨s.nextId, command, socket⟩
    let res := (masterRequestHandler t uri (some r) slot a).run ⟨s.slotBank, asyncSlots s, []⟩
    (s'.httpd = .crashed ∧ res = .error .nullSlot) ∨
      ∃ j h, s'.httpd = .callback ⟨j, r⟩ ∧ res = .ok (espOk, h) ∧
        h.bank = s'.slotBank ∧ h.slots = asyncSlots s' := by
  obtain ⟨f, hf⟩ := find_callback hfind
  unfold Http.masterRequestHandler at hstep
  cases slot with
  | none =>
    cases halloc : s.slotBank.alloc none with
    | none => simp [halloc] at hstep
    | some bank =>
      simp only [halloc, Option.some.injEq] at hstep
      subst hstep
      exact .inl ⟨rfl, masterRequestHandler_noSlot hfind⟩
  | some j =>
    cases halloc : s.slotBank.alloc (some j) with
    | none => simp [halloc] at hstep
    | some bank =>
      simp only [halloc, Option.some.injEq] at hstep
      subst hstep
      refine .inr ⟨j, _, rfl, masterRequestHandler_served hfind hf _ j, ?_, ?_⟩
      · exact (Bank.alloc_some.mp halloc).2.symm
      · funext k
        by_cases hk : k = j
        · subst hk
          simp [asyncSlots, State.log]
        · simp [asyncSlots, State.log, hk]

end HomeNode.Http.Dispatch
