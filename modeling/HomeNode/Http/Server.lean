-- SUMMARY: The asynchronous HTTP requests: httpd task, event loop and delegate task over the three object pools.
import HomeNode.Command
import HomeNode.Lib.Bank
import HomeNode.Lib.CString
import HomeNode.Lib.Transition
import Mathlib.Algebra.GroupWithZero.Nat

/-!
# Asynchronous requests

A request is served by three tasks. The httpd task runs
`master_request_handler` and the work items queued to it, the event loop runs
`routine_event_handler.c`, and the delegate task streams the log. What travels
between them is a pointer to a slot of the request pool. A step is one access to
what the tasks share, or the calls that one function makes on one request.

The model keeps with each context the request it was made for. The code has no
such thing: every call goes to the request the slot holds at that time, and the
trace records both.
-/

namespace HomeNode.Http

/-! ## Data -/

/-- `MAX_ASYNC_REQUESTS` -/
abbrev maxAsyncRequests : Nat := 4

/-- `LOG_CHUNK_POOL` -/
abbrev logChunkPool : Nat := 4

/-- `SEND_JOB_POOL` -/
abbrev sendJobPool : Nat := 4

/-- `LOG_CHUNK_SIZE` -/
abbrev logChunkSize : Nat := 256

/-- `max_open_sockets`, from `HTTP_SERVER_DEFAULT_CONFIG` -/
abbrev maxOpenSockets : Nat := 4

/-- `DELEGATE_QUEUE_LENGTH` -/
def delegateQueueLength : Nat := 4

/-- The pools are of one size, and none is empty. -/
theorem maxAsyncRequests_ne_zero : maxAsyncRequests ≠ 0 := by decide

instance : NeZero maxAsyncRequests := ⟨maxAsyncRequests_ne_zero⟩

abbrev SlotId := Fin maxAsyncRequests
abbrev ChunkId := Fin logChunkPool
abbrev JobId := Fin sendJobPool
abbrev Socket := Fin maxOpenSockets

/-- A read of the log: the bytes in the buffer, before its terminator. -/
abbrev Piece := List UInt8

/-- An asynchronous `httpd_req_t`: the endpoint it came in on and its socket.
`id` tells requests apart. -/
structure Req where
  id : Nat
  command : Command
  socket : Socket
  deriving DecidableEq

/-- The context handed from task to task, and the request it was made for. -/
structure Ctx where
  slot : SlotId
  owner : Req
  deriving DecidableEq

/-- `async_slot_t` -/
structure Slot where
  req : Option Req := none
  responseStarted : Bool := false
  deriving DecidableEq

/-- `http_chunk_t`. Its `is_last` is never read. -/
structure Chunk where
  data : CharArray logChunkSize := .zeros _
  len : Nat := 0
  deriving DecidableEq

/-- `http_send_job_t` -/
structure SendJob where
  ctx : Ctx
  chunk : ChunkId
  deriving DecidableEq

/-- The calls on a request. `NULL` with length 0 is the chunk of no bytes. -/
inductive HttpdCall where
  | setType (type : String)
  | setHdr (field value : String)
  | sendChunk (bs : List UInt8)
  | complete
  | triggerClose
  deriving DecidableEq

/-- `MESSAGE_COMMAND_*` -/
inductive MessageCommand where
  | openLock
  | closeLock
  | lockStatus
  deriving DecidableEq

/-- What happens to the command of a request, with the result of each call. -/
inductive CommandEvent where
  /-- `USER_REQUEST_post_event` -/
  | posted (ok : Bool)
  /-- `message_codec_send_command` on `gate_node_mac` -/
  | sent (m : MessageCommand) (ok : Bool)
  /-- `MESSAGE_SERVICE_ROUTINE_EVENT_SEND_STATUS` -/
  | acked (success : Bool)
  /-- `ota_process_start` -/
  | otaStarted
  deriving DecidableEq

/-- What became of a piece of the log. -/
inductive Fate where
  | queued
  | rejected
  | dropped
  deriving DecidableEq

/-- A piece given to `http_server_send_chunked_response`. `exhausted` tells whether
the chunk or the job pool was empty when it allocated. -/
structure Offer where
  piece : Piece
  exhausted : Bool
  fate : Fate
  deriving DecidableEq

/-- A work item that `httpd_queue_work` has not accepted. -/
inductive Lost where
  | data (chunk : ChunkId) (job : JobId)
  | close
  | finalize
  deriving DecidableEq

inductive Obs where
  /-- the request is handed to its callback -/
  | begun (c : Ctx)
  | command (c : Ctx) (e : CommandEvent)
  /-- a call made for the context, on the request in its slot -/
  | call (c : Ctx) (on : Req) (h : HttpdCall)
  /-- `bank_free` of the slot, while `holder` had it -/
  | freed (c : Ctx) (holder : Option Req)
  | snapshot (c : Ctx) (pieces : List Piece)
  | offered (c : Ctx) (o : Offer)
  | lost (c : Ctx) (w : Lost)
  deriving DecidableEq

def Obs.ctx : Obs → Ctx
  | .begun c | .command c _ | .call c _ _ | .freed c _ | .snapshot c _ | .offered c _
  | .lost c _ => c

/-- The work queue of the httpd task. -/
inductive Work where
  | data (j : JobId)
  | close (c : Ctx)
  | finalize (c : Ctx)
  deriving DecidableEq

/-! ## Where the tasks are -/

/-- `send_response`, then the two steps of `http_server_close_async_connection`. -/
inductive AnswerPc where
  | respond (text : String)
  | complete
  | free
  deriving DecidableEq

/-- `http_async_data_worker` -/
inductive DataPc where
  | send
  | freeChunk
  | freeJob
  deriving DecidableEq

/-- `http_async_close_worker` -/
inductive ClosePc where
  | sendEnd
  | complete
  | queueFinalize
  deriving DecidableEq

/-- The httpd task. `crashed` is a null slot dereferenced. -/
inductive HttpdPc where
  | idle
  | callback (c : Ctx)
  | answering (c : Ctx) (pc : AnswerPc)
  | dataWorker (j : JobId) (pc : DataPc)
  | closeWorker (c : Ctx) (pc : ClosePc)
  | finalizeWorker (c : Ctx)
  | crashed
  deriving DecidableEq

/-- The event loop. -/
inductive LoopPc where
  | idle
  | answering (c : Ctx) (pc : AnswerPc)
  deriving DecidableEq

/-- The delegate task, in `delegated_to_task_send_log`. The last two are inside
`http_server_send_chunked_response`, with what its allocations gave so far. -/
inductive DelegatePc where
  | idle
  | reading (c : Ctx) (rest : List Piece)
  | allocJob (c : Ctx) (piece : Piece) (rest : List Piece) (exhausted : Bool)
    (chunk : Option ChunkId)
  | queueData (c : Ctx) (piece : Piece) (rest : List Piece) (exhausted : Bool)
    (chunk : Option ChunkId) (job : Option JobId)
  deriving DecidableEq

structure State where
  slotBank : Bank SlotId
  slots : SlotId → Slot
  chunkBank : Bank ChunkId
  chunks : ChunkId → Chunk
  jobBank : Bank JobId
  jobs : JobId → Option SendJob
  httpd : HttpdPc
  work : List Work
  events : List Ctx
  loop : LoopPc
  onAir : List Ctx
  delegated : List Ctx
  delegate : DelegatePc
  nextId : Nat
  trace : List Obs

def State.init : State where
  slotBank := .empty
  slots _ := {}
  chunkBank := .empty
  chunks _ := {}
  jobBank := .empty
  jobs _ := none
  httpd := .idle
  work := []
  events := []
  loop := .idle
  onAir := []
  delegated := []
  delegate := .idle
  nextId := 0
  trace := []

/-! ## Steps of the httpd task -/

def State.log (s : State) (obs : List Obs) : State := { s with trace := s.trace ++ obs }

/-- Calls made for `c`, on `r`. -/
def calls (c : Ctx) (r : Req) (hs : List HttpdCall) : List Obs := hs.map (.call c r)

/-- The headers that every response sets. -/
def responseHeaders : List HttpdCall :=
  [.setType "text/plain", .setHdr "Cache-Control" "no-cache", .setHdr "Connection" "close"]

/-- `http_server_send_response` -/
def sendResponse (r : Req) (text : String) : List HttpdCall :=
  responseHeaders ++ [.sendChunk (CStr.ascii (r.command.endpoint.getD "")),
    .sendChunk (CStr.ascii ": "), .sendChunk (CStr.ascii text), .sendChunk []]

/-- `bank_free(g_async_bank, slot)` -/
def State.freeSlot (s : State) (c : Ctx) : State :=
  let holder := if s.slotBank c.slot then (s.slots c.slot).req else none
  { s with slotBank := s.slotBank.free c.slot }.log [.freed c holder]

/-- One step of `send_response` followed by `close_async_connection`, and what is
left to do. -/
def answerStep (s : State) (c : Ctx) : AnswerPc → Option (State × Option AnswerPc)
  | .respond text =>
    match (s.slots c.slot).req with
    | none => none
    | some r => some (s.log (calls c r (sendResponse r text)), some .complete)
  | .complete =>
    match (s.slots c.slot).req with
    | none => some (s, some .free)
    | some r => some (s.log (calls c r [.complete]), some .free)
  | .free => some (s.freeSlot c, none)

/-- The bytes that `http_async_data_worker` sends of a chunk. -/
def Chunk.sent (chunk : Chunk) : List UInt8 := chunk.data.bytes.take chunk.len

/-- `http_async_data_worker` -/
def dataWorkerStep (s : State) (j : JobId) (job : SendJob) : DataPc → Option State
  | .send =>
    let slot := s.slots job.ctx.slot
    match slot.req with
    | none => none
    | some r =>
      let headers : List HttpdCall := if slot.responseStarted then [] else responseHeaders
      let slots := Function.update s.slots job.ctx.slot { slot with responseStarted := true }
      let sent := HttpdCall.sendChunk (s.chunks job.chunk).sent
      some ({ s with slots := slots, httpd := .dataWorker j .freeChunk }.log
        (calls job.ctx r (headers ++ [sent])))
  | .freeChunk =>
    some { s with chunkBank := s.chunkBank.free job.chunk, httpd := .dataWorker j .freeJob }
  | .freeJob => some { s with jobBank := s.jobBank.free j, httpd := .idle }

/-- `http_async_close_worker` -/
def closeWorkerStep (s : State) (c : Ctx) (accepted : Bool) : ClosePc → Option State
  | .sendEnd =>
    match (s.slots c.slot).req with
    | none => none
    | some r =>
      some ({ s with httpd := .closeWorker c .complete }.log (calls c r [.sendChunk []]))
  | .complete =>
    match (s.slots c.slot).req with
    | none => none
    | some r =>
      some ({ s with httpd := .closeWorker c .queueFinalize }.log
        (calls c r [.complete, .triggerClose]))
  | .queueFinalize =>
    if accepted then some { s with httpd := .idle, work := s.work ++ [.finalize c] }
    else some ({ s with httpd := .idle }.log [.lost c .finalize])

/-- The next step of the callback's failure branch or of the running work item.
`accepted` is what `httpd_queue_work` answers. -/
def httpdStep (s : State) (accepted : Bool) : Option State :=
  match s.httpd with
  | .answering c pc =>
    match answerStep s c pc with
    | none => none
    | some (s, some pc) => some { s with httpd := .answering c pc }
    | some (s, none) => some { s with httpd := .idle }
  | .dataWorker j pc =>
    match s.jobs j with
    | none => none
    | some job => dataWorkerStep s j job pc
  | .closeWorker c pc => closeWorkerStep s c accepted pc
  | .finalizeWorker c => some { s.freeSlot c with httpd := .idle }
  | .idle | .callback _ | .crashed => none

/-- `master_request_handler` on a request whose URI is registered, up to the call
of the callback. `slot` is what `bank_alloc` answers; the slot is written to
before it is tested. -/
def masterRequestHandler (s : State) (command : Command) (socket : Socket)
    (slot : Option SlotId) : Option State :=
  match s.slotBank.alloc slot, slot with
  | some bank, some i =>
    let r : Req := ⟨s.nextId, command, socket⟩
    some ({ s with
      slotBank := bank
      slots := Function.update s.slots i ⟨some r, false⟩
      httpd := .callback ⟨i, r⟩
      nextId := s.nextId + 1 }.log [.begun ⟨i, r⟩])
  | some _, none => some { s with httpd := .crashed }
  | none, _ => none

/-- The rest of the callback: `USER_REQUEST_post_event`, or the failure branch. -/
def postEvent (s : State) (c : Ctx) (ok : Bool) : State :=
  let s := s.log [.command c (.posted ok)]
  if ok then { s with httpd := .idle, events := s.events ++ [c] }
  else { s with httpd := .answering c (.respond "failure") }

/-- The httpd task takes a work item. -/
def startWork (s : State) : Option State :=
  match s.work with
  | [] => none
  | .data j :: rest => some { s with httpd := .dataWorker j .send, work := rest }
  | .close c :: rest => some { s with httpd := .closeWorker c .sendEnd, work := rest }
  | .finalize c :: rest => some { s with httpd := .finalizeWorker c, work := rest }

/-! ## Steps of the event loop -/

/-- `user_request_response_inform_command_status` is about to run. -/
def inform (s : State) (c : Ctx) (success : Bool) : State :=
  { s with loop := .answering c (.respond (if success then "success" else "Failed")) }

/-- `message_codec_send_command`, and the answer when it fails. -/
def sendCommand (s : State) (c : Ctx) (m : MessageCommand) (ok : Bool) : State :=
  let s := s.log [.command c (.sent m ok)]
  if ok then { s with onAir := s.onAir ++ [c] } else inform s c false

/-- `routine_user_request_events_handler`. It waits while the delegate queue is
full. -/
def handleEvent (s : State) (c : Ctx) (sent : Bool) : Option State :=
  match c.owner.command with
  | .gateOpen => some (sendCommand s c .openLock sent)
  | .gateClose => some (sendCommand s c .closeLock sent)
  | .gateStatus => some (sendCommand s c .lockStatus sent)
  | .log =>
    if s.delegated.length < delegateQueueLength then some { s with delegated := s.delegated ++ [c] }
    else none
  | .otaUpdate => some (inform (s.log [.command c .otaStarted]) c true)

/-- `routine_message_service_events_handler`, for a command that was on the radio. -/
def handleSendStatus (s : State) (c : Ctx) (success : Bool) : State :=
  let s := State.log { s with onAir := s.onAir.erase c } [.command c (.acked success)]
  inform s c success

def loopStep (s : State) : Option State :=
  match s.loop with
  | .idle => none
  | .answering c pc =>
    match answerStep s c pc with
    | none => none
    | some (s, some pc) => some { s with loop := .answering c pc }
    | some (s, none) => some { s with loop := .idle }

/-! ## Steps of the delegate task -/

/-- The buffer of `delegated_to_task_send_log`, read as the C string it is passed
on as. -/
def pieceStr (piece : Piece) : CStr := CStr.ofBuffer (piece ++ [0])

/-- `strncpy` and `strnlen` of `http_server_send_chunked_response` -/
def Chunk.load (chunk : Chunk) (data : CStr) : Chunk :=
  let data := chunk.data.strncpy data logChunkSize
  ⟨data, CStr.strnlen data.bytes logChunkSize⟩

/-- `http_server_send_chunked_response` after its two allocations. -/
def queueData (s : State) (c : Ctx) (piece : Piece) (rest : List Piece) (exhausted : Bool)
    (chunk : Option ChunkId) (job : Option JobId) (accepted : Bool) : State :=
  let s := { s with delegate := .reading c rest }
  match chunk, job with
  | some ch, some j =>
    let s := { s with
      chunks := Function.update s.chunks ch ((s.chunks ch).load (pieceStr piece))
      jobs := Function.update s.jobs j (some ⟨c, ch⟩) }
    if accepted then
      State.log { s with work := s.work ++ [.data j] } [.offered c ⟨piece, exhausted, .queued⟩]
    else s.log [.offered c ⟨piece, exhausted, .rejected⟩, .lost c (.data ch j)]
  | some ch, none =>
    { s with chunkBank := s.chunkBank.free ch }.log [.offered c ⟨piece, exhausted, .dropped⟩]
  | none, some j =>
    { s with jobBank := s.jobBank.free j }.log [.offered c ⟨piece, exhausted, .dropped⟩]
  | none, none => s.log [.offered c ⟨piece, exhausted, .dropped⟩]

/-- The delegate task's next step, with what `bank_alloc` and `httpd_queue_work`
answer. -/
inductive Answer where
  | chunk (res : Option ChunkId)
  | job (res : Option JobId)
  | queue (accepted : Bool)

def delegateStep (s : State) (a : Answer) : Option State :=
  match s.delegate, a with
  | .reading c (piece :: rest), .chunk res =>
    (s.chunkBank.alloc res).map fun bank =>
      { s with chunkBank := bank, delegate := .allocJob c piece rest s.chunkBank.exhausted res }
  | .reading c [], .queue accepted =>
    if accepted then some { s with delegate := .idle, work := s.work ++ [.close c] }
    else some ({ s with delegate := .idle }.log [.lost c .close])
  | .allocJob c piece rest exhausted chunk, .job res =>
    (s.jobBank.alloc res).map fun bank =>
      { s with
        jobBank := bank
        delegate := .queueData c piece rest (exhausted || s.jobBank.exhausted) chunk res }
  | .queueData c piece rest exhausted chunk job, .queue accepted =>
    some (queueData s c piece rest exhausted chunk job accepted)
  | _, _ => none

/-! ## The system -/

inductive Label where
  /-- a request on a registered URI, and what `bank_alloc` answers -/
  | dispatch (command : Command) (socket : Socket) (slot : Option SlotId)
  /-- the callback posts its event -/
  | post (ok : Bool)
  /-- the httpd task goes on -/
  | httpd (accepted : Bool)
  | startWork
  /-- the next `USER_REQUEST` event, and whether its command could be sent -/
  | handle (sent : Bool)
  /-- `MESSAGE_SERVICE_ROUTINE_EVENT_SEND_STATUS` for a command on the radio -/
  | ack (c : Ctx) (success : Bool)
  /-- the event loop goes on -/
  | loop
  /-- the delegate task takes a job; the reads its snapshot will give -/
  | snapshot (pieces : List Piece)
  /-- the delegate task goes on -/
  | delegate (a : Answer)

/-- The reads of a snapshot: 1 to `sizeof(buffer) - 1` bytes each. -/
def Readable (pieces : List Piece) : Prop := ∀ p ∈ pieces, 1 ≤ p.length ∧ p.length ≤ 255

instance (pieces : List Piece) : Decidable (Readable pieces) :=
  inferInstanceAs (Decidable (∀ p ∈ pieces, 1 ≤ p.length ∧ p.length ≤ 255))

def step (s : State) (l : Label) : Option State :=
  if s.httpd = .crashed then none
  else
    match l with
    | .dispatch command socket slot =>
      if s.httpd = .idle ∧ command ∈ Command.uris then masterRequestHandler s command socket slot
      else none
    | .post ok =>
      match s.httpd with
      | .callback c => some (postEvent s c ok)
      | _ => none
    | .httpd accepted => httpdStep s accepted
    | .startWork => if s.httpd = .idle then startWork s else none
    | .handle sent =>
      match s.loop, s.events with
      | .idle, c :: rest => handleEvent { s with events := rest } c sent
      | _, _ => none
    | .ack c success =>
      if s.loop = .idle ∧ c ∈ s.onAir then
        some (handleSendStatus s c success)
      else none
    | .loop => loopStep s
    | .snapshot pieces =>
      match s.delegate, s.delegated with
      | .idle, c :: rest =>
        if Readable pieces then
          some ({ s with delegated := rest, delegate := .reading c pieces }.log
            [.snapshot c pieces])
        else none
      | _, _ => none
    | .delegate a => delegateStep s a

/-- What a step can be. -/
inductive StepKind (s : State) : Label → State → Prop where
  | dispatch (command : Command) (socket : Socket) (slot : Option SlotId) (t : State)
    (idle : s.httpd = .idle) (step : masterRequestHandler s command socket slot = some t) :
    StepKind s (.dispatch command socket slot) t
  | post (c : Ctx) (ok : Bool) (pc : s.httpd = .callback c) :
    StepKind s (.post ok) (postEvent s c ok)
  | httpd (accepted : Bool) (t : State) (step : httpdStep s accepted = some t) :
    StepKind s (.httpd accepted) t
  | startWork (t : State) (idle : s.httpd = .idle) (step : startWork s = some t) :
    StepKind s .startWork t
  | handle (c : Ctx) (rest : List Ctx) (sent : Bool) (t : State) (idle : s.loop = .idle)
    (events : s.events = c :: rest) (step : handleEvent { s with events := rest } c sent = some t) :
    StepKind s (.handle sent) t
  | ack (c : Ctx) (success : Bool) (idle : s.loop = .idle) (onAir : c ∈ s.onAir) :
    StepKind s (.ack c success) (handleSendStatus s c success)
  | loop (t : State) (step : loopStep s = some t) : StepKind s .loop t
  | snapshot (c : Ctx) (rest : List Ctx) (pieces : List Piece) (idle : s.delegate = .idle)
    (delegated : s.delegated = c :: rest) (readable : Readable pieces) :
    StepKind s (.snapshot pieces) (State.log { s with
      delegated := rest, delegate := .reading c pieces } [.snapshot c pieces])
  | delegate (a : Answer) (t : State) (step : delegateStep s a = some t) :
    StepKind s (.delegate a) t

theorem step_kind {s t : State} {l : Label} (hstep : step s l = some t) : StepKind s l t := by
  unfold step at hstep
  by_cases hcrashed : s.httpd = .crashed
  · simp [hcrashed] at hstep
  rw [if_neg hcrashed] at hstep
  cases l with
  | dispatch command socket slot =>
    simp only at hstep
    split at hstep
    case isTrue hidle => exact .dispatch command socket slot t hidle.1 hstep
    case isFalse => cases hstep
  | post ok =>
    simp only at hstep
    split at hstep
    case h_1 c hpc =>
      obtain rfl := Option.some.inj hstep
      exact .post c ok hpc
    case h_2 => cases hstep
  | httpd accepted => exact .httpd accepted t hstep
  | startWork =>
    simp only at hstep
    split at hstep
    case isTrue hidle => exact .startWork t hidle hstep
    case isFalse => cases hstep
  | handle sent =>
    simp only at hstep
    split at hstep
    case h_1 c rest hloop hevents => exact .handle c rest sent t hloop hevents hstep
    case h_2 => cases hstep
  | ack c success =>
    simp only at hstep
    split at hstep
    case isTrue hc =>
      obtain rfl := Option.some.inj hstep
      exact .ack c success hc.1 hc.2
    case isFalse => cases hstep
  | loop => exact .loop t hstep
  | snapshot pieces =>
    simp only at hstep
    split at hstep
    case h_1 c rest hidle hdelegated =>
      split at hstep
      case isTrue hreadable =>
        obtain rfl := Option.some.inj hstep
        exact .snapshot c rest pieces hidle hdelegated hreadable
      case isFalse => cases hstep
    case h_2 => cases hstep
  | delegate a => exact .delegate a t hstep

/-- The states after the actions `ls` from the start. -/
abbrev run (ls : List Label) : Option State := Transition.run step .init ls

end HomeNode.Http
