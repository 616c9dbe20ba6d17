-- SUMMARY: The user commands: their endpoints and the USER_REQUEST events that carry them.
import Mathlib.Tactic.Common

/-!
# User commands

The commands a user request event stands for. Each has an event of its own;
`gateStatus` has no endpoint.
-/

namespace HomeNode

/-- `USER_REQUEST_ROUTINE_EVENT_USER_COMMAND_*` -/
inductive Command where
  | gateOpen
  | gateClose
  | gateStatus
  | log
  | otaUpdate
  deriving DecidableEq

/-- The endpoint that `app_main` configures for a command. -/
def Command.endpoint : Command → Option String
  | .gateOpen => some "/open-gate"
  | .gateClose => some "/close-gate"
  | .gateStatus => none
  | .log => some "/get-log"
  | .otaUpdate => some "/ota-update"

/-- The commands whose endpoints `user_request_create` registers, in its order. -/
def Command.uris : List Command := [.gateClose, .gateOpen, .log, .otaUpdate]

/-- The commands whose events `user_request_create` registers, in its order. -/
def Command.events : List Command := [.gateOpen, .gateClose, .gateStatus, .log, .otaUpdate]

theorem Command.mem_events (c : Command) : c ∈ Command.events := by
  cases c <;> simp [Command.events]

end HomeNode
