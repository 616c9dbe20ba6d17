-- SUMMARY: The delegate queue always has room for the job that the event loop posts, because each job has a slot of its own.
import HomeNode.Http.Runs

/-!
# The delegate queue

`delegate_post` waits for ever when the queue is full, and nothing in it bounds
the jobs. What bounds them is the pool of slots: a job carries a context, each
context has its own slot until its request is over, and the event that is being
handled has one too.
-/

namespace HomeNode.Http

/-- The event loop never waits: a log job is posted to a queue with room, and each event
is handled in one go. -/
structure NeverWaits (s : State) : Prop where
  room : ∀ c rest, s.loop = .idle → s.events = c :: rest → c.owner.command = .log →
    s.delegated.length < delegateQueueLength
  handled : ∀ c rest sent, s.loop = .idle → s.events = c :: rest →
    (handleEvent { s with events := rest } c sent).isSome = true

variable {s : State}

/-- Each token has a slot of its own. -/
theorem Owned.card_tokens_le (h : Owned s) : (tokens s).card ≤ maxAsyncRequests := by
  have hcard := h.slots.card_le
  rwa [Multiset.card_map, Fintype.card_fin] at hcard

/-- The posted events and the delegated jobs are different contexts. -/
theorem Owned.length_le (h : Owned s) :
    s.events.length + s.delegated.length ≤ maxAsyncRequests := by
  have hplaced (p : Place) (cs : List Ctx) : (placed p cs).card = cs.length := by
    simp [placed]
  calc s.events.length + s.delegated.length
      = (placed .posted s.events + placed .delegated s.delegated).card := by
        rw [Multiset.card_add, hplaced, hplaced]
    _ ≤ (tokens s).card := by
        apply Multiset.card_le_card
        unfold tokens
        rw [Multiset.le_iff_exists_add]
        exact ⟨httpdTokens s.httpd + loopTokens s.loop + delegateTokens s.delegate +
          placed .onAir s.onAir + workTokens s.work + lostTokens s.trace, by abel⟩
    _ ≤ maxAsyncRequests := h.card_tokens_le

theorem Owned.neverWaits (h : Owned s) : NeverWaits s := by
  have hroom : ∀ c rest, s.events = c :: rest → s.delegated.length < delegateQueueLength := by
    intro c rest hevents
    have hle := h.length_le
    -- the queue is as long as the pool is large
    have hsize : maxAsyncRequests = delegateQueueLength := rfl
    rw [hevents, List.length_cons] at hle
    omega
  constructor
  case room => exact fun c rest _ hevents _ => hroom c rest hevents
  case handled =>
    intro c rest sent _ hevents
    unfold handleEvent
    cases c.owner.command with
    | gateOpen | gateClose | gateStatus => cases sent <;> rfl
    | log => simp [hroom c rest hevents]
    | otaUpdate => rfl

/-- In every state of every run the event loop goes on without waiting. -/
theorem neverWaits_run {ls : List Label} (hrun : run ls = some s) : NeverWaits s :=
  (run_sound hrun).inv.owned.neverWaits

/-- Four log requests, three of which are in the queue. -/
def fullestRun : List Label :=
  [.dispatch .log 0 (some 0), .post true, .dispatch .log 1 (some 1), .post true,
    .dispatch .log 2 (some 2), .post true, .dispatch .log 3 (some 3), .post true,
    .handle true, .handle true, .handle true]

theorem neverWaits_fullestRun :
    NeverWaits ((run fullestRun).getD .init) ∧
      ((run fullestRun).getD .init).delegated.length = 3 :=
  ⟨neverWaits_run (run_eq_getD (by decide +kernel)), by decide +kernel⟩

end HomeNode.Http
