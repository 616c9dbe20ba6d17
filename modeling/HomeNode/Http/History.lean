-- SUMMARY: What the trace tells about one request: its outcome, the calls made on it, and the pieces of its log.
import HomeNode.Http.Server

/-!
# The history of a request

The part of a trace that was made for one request, sorted by kind. A history
knows nothing of the other requests, so a step changes the history of one
request at most.
-/

namespace HomeNode.Http

/-! ## Outcomes -/

/-- What became of the command of a request. -/
inductive Outcome where
  | postFailed
  | sendFailed
  | acked (success : Bool)
  | started
  deriving DecidableEq

/-- The text that reports an outcome. -/
def Outcome.text : Outcome → String
  | .postFailed => "failure"
  | .sendFailed | .acked false => "Failed"
  | .acked true | .started => "success"

/-- A call that fails decides a command, and so does a result that comes back. -/
def CommandEvent.outcome : CommandEvent → Option Outcome
  | .posted ok => if ok then none else some .postFailed
  | .sent _ ok => if ok then none else some .sendFailed
  | .acked success => some (.acked success)
  | .otaStarted => some .started

/-! ## Histories -/

structure History where
  begun : Bool := false
  outcomes : List Outcome := []
  calls : List HttpdCall := []
  frees : Nat := 0
  snapshots : List (List Piece) := []
  offers : List Offer := []
  lostClose : Bool := false
  lostFinalize : Bool := false
  deriving DecidableEq

/-- The history of a request that has not arrived. -/
def History.empty : History := {}

/-- The history of a request when it is handed to its callback. -/
def History.opened : History := { begun := true }

def History.add (h : History) : Obs → History
  | .begun _ => { h with begun := true }
  | .command _ e => { h with outcomes := h.outcomes ++ e.outcome.toList }
  | .call _ _ call => { h with calls := h.calls ++ [call] }
  | .freed _ _ => { h with frees := h.frees + 1 }
  | .snapshot _ pieces => { h with snapshots := h.snapshots ++ [pieces] }
  | .offered _ o => { h with offers := h.offers ++ [o] }
  | .lost _ .close => { h with lostClose := true }
  | .lost _ .finalize => { h with lostFinalize := true }
  | .lost _ (.data _ _) => h

/-- What the trace tells about `r`. -/
def history (r : Req) (tr : List Obs) : History :=
  (tr.filter fun o => o.ctx.owner = r).foldl History.add .empty

@[simp] theorem history_nil (r : Req) : history r [] = .empty := rfl

theorem history_append_own {r : Req} {obs : List Obs} (tr : List Obs)
    (h : ∀ o ∈ obs, o.ctx.owner = r) :
    history r (tr ++ obs) = obs.foldl History.add (history r tr) := by
  have hfilter : (obs.filter fun o => o.ctx.owner = r) = obs := by
    simpa [List.filter_eq_self] using h
  rw [history, List.filter_append, hfilter, List.foldl_append, history]

theorem history_append_other {r : Req} {obs : List Obs} (tr : List Obs)
    (h : ∀ o ∈ obs, o.ctx.owner ≠ r) : history r (tr ++ obs) = history r tr := by
  have hfilter : (obs.filter fun o => o.ctx.owner = r) = [] := by
    simpa [List.filter_eq_nil_iff] using h
  rw [history, List.filter_append, hfilter, List.append_nil, history]

/-- The calls of one function are added in their order. -/
@[simp] theorem foldl_add_calls (h : History) (c : Ctx) (r : Req) (hs : List HttpdCall) :
    (calls c r hs).foldl History.add h = { h with calls := h.calls ++ hs } := by
  induction hs generalizing h with
  | nil => simp [calls]
  | cons call hs ih =>
    have hstep : (calls c r (call :: hs)).foldl History.add h =
        (calls c r hs).foldl History.add { h with calls := h.calls ++ [call] } := rfl
    rw [hstep, ih]
    simp

/-- A call goes to the request it was made for, and a slot is freed by the
request that has it. -/
def Obs.Own : Obs → Prop
  | .call c on _ => on = c.owner
  | .freed c holder => holder = some c.owner
  | _ => True

/-! ## What a trace shows for a request

The calls are counted on the request they reach, whichever context they were made
for. -/

/-- The calls made on `r`. -/
def callsOn (r : Req) (tr : List Obs) : List HttpdCall :=
  tr.filterMap fun
    | .call _ on h => if on = r then some h else none
    | _ => none

/-- What became of the command of `r`: the results of the calls made for it, and what came back. -/
def outcomesOf (r : Req) (tr : List Obs) : List Outcome :=
  tr.filterMap fun
    | .command c e => if c.owner = r then e.outcome else none
    | _ => none

/-- How often the slot of `r` was freed for it. -/
def freesOf (r : Req) (tr : List Obs) : Nat :=
  tr.countP fun
    | .freed c _ => c.owner = r
    | _ => false

theorem history_concat (r : Req) (tr : List Obs) (o : Obs) :
    history r (tr ++ [o]) = if o.ctx.owner = r then (history r tr).add o else history r tr := by
  by_cases ho : o.ctx.owner = r
  · rw [if_pos ho, history_append_own tr (by simpa using ho)]
    rfl
  · rw [if_neg ho, history_append_other tr (by simpa using ho)]

/-- The snapshots taken for `r`. -/
def snapshotsOf (r : Req) (tr : List Obs) : List (List Piece) :=
  tr.filterMap fun
    | .snapshot c pieces => if c.owner = r then some pieces else none
    | _ => none

/-- The pieces offered for `r`. -/
def offersOf (r : Req) (tr : List Obs) : List Offer :=
  tr.filterMap fun
    | .offered c o => if c.owner = r then some o else none
    | _ => none

/-- The history of `r`, read off the trace. -/
def seen (r : Req) (tr : List Obs) : History where
  begun := tr.any fun
    | .begun c => c.owner = r
    | _ => false
  outcomes := outcomesOf r tr
  calls := callsOn r tr
  frees := freesOf r tr
  snapshots := snapshotsOf r tr
  offers := offersOf r tr
  lostClose := tr.any fun
    | .lost c .close => c.owner = r
    | _ => false
  lostFinalize := tr.any fun
    | .lost c .finalize => c.owner = r
    | _ => false

theorem seen_concat (r : Req) (tr : List Obs) {o : Obs} (ho : o.Own) :
    seen r (tr ++ [o]) = if o.ctx.owner = r then (seen r tr).add o else seen r tr := by
  simp only [seen, outcomesOf, callsOn, freesOf, snapshotsOf, offersOf, List.filterMap_append,
    List.countP_append, List.any_append]
  cases o with
  | call c on h =>
    obtain rfl : on = c.owner := ho
    by_cases hr : c.owner = r <;> simp [Obs.ctx, History.add, hr]
  | lost c w => by_cases hr : c.owner = r <;> cases w <;> simp [Obs.ctx, History.add, hr]
  | command c e =>
    by_cases hr : c.owner = r <;> cases houtcome : e.outcome <;>
      simp [Obs.ctx, History.add, hr, houtcome]
  | begun c | freed c holder | snapshot c pieces | offered c o =>
    by_cases hr : c.owner = r <;> simp [Obs.ctx, History.add, hr]

theorem history_eq_seen (r : Req) {tr : List Obs} (hown : ∀ o ∈ tr, o.Own) :
    history r tr = seen r tr := by
  induction tr using List.reverseRecOn with
  | nil => rfl
  | append_singleton tr o ih =>
    rw [history_concat, seen_concat r tr (hown o (by simp)),
      ih fun o ho => hown o (List.mem_append_left _ ho)]

/-- The history of a request shows what the trace shows. -/
structure Shown (r : Req) (tr : List Obs) : Prop where
  begun : (history r tr).begun = (seen r tr).begun
  calls : (history r tr).calls = callsOn r tr
  outcomes : (history r tr).outcomes = outcomesOf r tr
  frees : (history r tr).frees = freesOf r tr
  snapshots : (history r tr).snapshots = snapshotsOf r tr
  offers : (history r tr).offers = offersOf r tr

theorem shown (r : Req) {tr : List Obs} (hown : ∀ o ∈ tr, o.Own) : Shown r tr := by
  have h := history_eq_seen r hown
  constructor <;> rw [h] <;> rfl

theorem mem_offersOf {r : Req} {tr : List Obs} {x : Offer} :
    x ∈ offersOf r tr ↔ ∃ c, c.owner = r ∧ .offered c x ∈ tr := by
  simp only [offersOf, List.mem_filterMap]
  constructor
  · rintro ⟨o, ho, hx⟩
    cases o with
    | offered c y =>
      obtain ⟨hr, rfl⟩ := by simpa using hx
      exact ⟨c, hr, ho⟩
    | begun _ | command _ _ | call _ _ _ | freed _ _ | snapshot _ _ | lost _ _ => cases hx
  · rintro ⟨c, hr, hmem⟩
    exact ⟨_, hmem, by simp [hr]⟩

theorem Shown.begun_iff {r : Req} {tr : List Obs} (h : Shown r tr) :
    (history r tr).begun ↔ ∃ c, c.owner = r ∧ .begun c ∈ tr := by
  rw [h.begun, seen, List.any_eq_true]
  constructor
  · rintro ⟨o, ho, hr⟩
    cases o with
    | begun c => exact ⟨c, by simpa using hr, ho⟩
    | command _ _ | call _ _ _ | freed _ _ | snapshot _ _ | offered _ _ | lost _ _ => cases hr
  · rintro ⟨c, hr, hmem⟩
    exact ⟨_, hmem, by simp [hr]⟩

/-! ## The expected calls -/

/-- The chunks of the accepted pieces. -/
def accepted (offers : List Offer) : List (List UInt8) :=
  (offers.filter fun o => o.fate = .queued).map fun o => (pieceStr o.piece).bytes

@[simp] theorem accepted_nil : accepted [] = [] := rfl

@[simp] theorem accepted_concat (offers : List Offer) (o : Offer) :
    accepted (offers ++ [o]) =
      accepted offers ++ if o.fate = .queued then [(pieceStr o.piece).bytes] else [] := by
  cases hfate : o.fate <;> simp [accepted, hfate]

/-- The calls that send the chunks `sent`: the headers come before the first. -/
def dataCalls (sent : List (List UInt8)) : List HttpdCall :=
  if sent = [] then [] else responseHeaders ++ sent.map .sendChunk

@[simp] theorem dataCalls_nil : dataCalls [] = [] := rfl

theorem dataCalls_concat (sent : List (List UInt8)) (bs : List UInt8) :
    dataCalls (sent ++ [bs]) =
      dataCalls sent ++ ((if sent = [] then responseHeaders else []) ++ [.sendChunk bs]) := by
  by_cases h : sent = [] <;> simp [dataCalls, h]

/-- The calls of `http_async_close_worker`. -/
def endCalls : List HttpdCall := [.sendChunk [], .complete, .triggerClose]

/-- The commands that an outcome can belong to. -/
def Outcome.Fits : Outcome → Command → Prop
  | .postFailed, _ => True
  | .sendFailed, command | .acked _, command => command ≠ .log ∧ command ≠ .otaUpdate
  | .started, command => command = .otaUpdate

/-- A request that was answered with its outcome, and the calls made since. -/
def History.answered (o : Outcome) (cs : List HttpdCall) : History :=
  { History.opened with outcomes := [o], calls := cs }

/-- A log request: the pieces offered so far and those to come, the chunks sent,
and the calls made after them. -/
def History.streamed (offers : List Offer) (rest : List Piece)
    (sent : List (List UInt8)) (cs : List HttpdCall) : History :=
  { History.opened with
    snapshots := [offers.map Offer.piece ++ rest]
    offers := offers
    calls := dataCalls sent ++ cs }

/-- The history of a request that is over. -/
def Done (r : Req) (h : History) : Prop :=
  (∃ o, o.Fits r.command ∧
    h = { History.answered o (sendResponse r o.text ++ [.complete]) with frees := 1 }) ∨
  (r.command = .log ∧ ∃ offers,
    h = { History.streamed offers [] (accepted offers) endCalls with frees := 1 })

end HomeNode.Http
