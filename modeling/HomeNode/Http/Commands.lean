-- SUMMARY: The gate commands on their way from the clients to the radio: each is sent once, in the order of the requests, and the client is told what became of it.
import HomeNode.Http.Completion

/-!
# Commands for the gate node

A gate command goes from the httpd task through the queue of the event loop to
`message_codec_send_command`, and its result comes back with an event of the
message codec. What was sent, and what the clients were answered, is read off the
trace; what was asked for and what came back, off the run.
-/

namespace HomeNode.Http

variable {s t u : State} {c : Ctx} {r : Req} {l : Label} {ls : List Label}

/-! ## Each command is sent once -/

/-- A call of `message_codec_send_command` on `gate_node_mac`, and whether it returned
`ESP_OK`. -/
structure Sending where
  command : MessageCommand
  ctx : Ctx
  ok : Bool
  deriving DecidableEq

def Sending.ofEvent : Ctx × CommandEvent → Option Sending
  | (c, .sent m ok) => some ⟨m, c, ok⟩
  | _ => none

/-- The calls of `message_codec_send_command` in a trace. -/
def sendings (tr : List Obs) : List Sending := (commandEvents tr).filterMap Sending.ofEvent

/-- The command for the gate node in a request. -/
def gateCommand (r : Req) : Option (MessageCommand × Req) :=
  (messageCommand r.command).map fun command => (command, r)

/-- The requests that are not refused: those whose events were taken, and the one whose event
is still to be posted. -/
theorem filter_arrivals (hrun : run ls = some t) :
    (arrivals ls).filter (fun r => r ∉ refusals ls) =
      ((handlings ls).map fun event => event.1.owner) ++ waiting t := by
  have hposted : ((postings ls).map fun event => event.1.owner).filter
      (fun r => r ∉ refusals ls) = (posted true (postings ls)).map Ctx.owner := by
    rw [List.filter_map, posted, List.map_map]
    congr 1
    apply List.filter_congr
    intro event hevent
    exact decide_eq_decide.mpr (not_mem_refusals_iff hrun hevent)
  have harrived : (t.httpd.arrived.map Ctx.owner).filter (fun r => r ∉ refusals ls) =
      t.httpd.arrived.map Ctx.owner := by
    apply List.filter_eq_self.mpr
    intro r hr
    have hnodup := arrivals_nodup hrun
    rw [arrivals_eq hrun] at hnodup
    have hnot : r ∉ refusals ls := fun hmem =>
      hnodup.disjoint ((posted_sublist false (postings ls)).subset hmem) hr
    simpa using hnot
  rw [arrivals_eq hrun, List.filter_append, hposted, harrived, posted_eq hrun, List.map_append,
    List.map_map, List.append_assoc, waiting, List.map_append]
  rfl

/-- The sending that an event asks for, with its result. -/
def sending (event : Ctx × Bool) : Option Sending :=
  (messageCommand event.1.owner.command).map fun m => ⟨m, event.1, event.2⟩

theorem sending_of_called (event : Ctx × Bool) :
    (called event).bind Sending.ofEvent = sending event := by
  cases hcommand : event.1.owner.command <;>
    simp [called, sending, hcommand, messageCommand, Sending.ofEvent]

/-- What is sent is what the handled events ask for. -/
theorem sendings_eq (hrun : run ls = some t) :
    sendings t.trace = (handlings ls).filterMap sending := by
  have hstep : ∀ s l, (happening s l).filterMap Sending.ofEvent =
      (handling s l).filterMap sending := by
    intro s l
    have hposted : ((posting s l).map fun event => (event.1, CommandEvent.posted event.2)).filterMap
        Sending.ofEvent = [] := by
      simp [List.filterMap_map, Function.comp_def, Sending.ofEvent]
    have hacked : ((acking s l).map fun ack => (ack.1, CommandEvent.acked ack.2)).filterMap
        Sending.ofEvent = [] := by
      simp [List.filterMap_map, Function.comp_def, Sending.ofEvent]
    rw [happening, List.filterMap_append, List.filterMap_append, hposted, hacked,
      List.filterMap_filterMap, List.nil_append, List.append_nil]
    exact List.filterMap_congr fun event _ => sending_of_called event
  rw [sendings, commandEvents_eq hrun,
    ← Transition.output_hom (F := List.filterMap Sending.ofEvent) rfl
      (fun _ _ => List.filterMap_append),
    ← Transition.output_hom (F := List.filterMap sending) rfl (fun _ _ => List.filterMap_append)]
  simp only [hstep]

/-- What is sent to the gate node is what the clients ask for: each command once, in the order of
the requests, but for those whose event was not taken and those that still wait. -/
theorem sendings_in_order (hrun : run ls = some t) :
    (arrivals ls).Nodup ∧
      ((arrivals ls).filter fun r => r ∉ refusals ls).filterMap gateCommand =
        (sendings t.trace).map (fun x => (x.command, x.ctx.owner)) ++
          (waiting t).filterMap gateCommand := by
  refine ⟨arrivals_nodup hrun, ?_⟩
  rw [filter_arrivals hrun, List.filterMap_append, List.filterMap_map, sendings_eq hrun,
    List.map_filterMap]
  congr 1
  apply List.filterMap_congr
  intro event _
  simp only [Function.comp_apply, gateCommand, sending, Option.map_map]
  rfl

/-- Two clients open the gate and a third closes it. The event of the second is not taken, and
that of the third is still in the queue. -/
def gateRun : List Label :=
  [.dispatch .gateOpen 0 (some 0), .post true, .dispatch .gateOpen 1 (some 1), .post false,
    .httpd true, .handle true, .httpd true, .httpd true, .dispatch .gateClose 2 (some 2),
    .post true]

theorem sendings_in_order_gateRun :
    ∃ t, run gateRun = some t ∧ sendings t.trace = [⟨.openLock, ⟨0, ⟨0, .gateOpen, 0⟩⟩, true⟩] ∧
      ((arrivals gateRun).filter fun r => r ∉ refusals gateRun).filterMap gateCommand =
        (sendings t.trace).map (fun x => (x.command, x.ctx.owner)) ++
          (waiting t).filterMap gateCommand := by
  have hrun : run gateRun = some ((run gateRun).getD .init) := run_eq_getD (by decide +kernel)
  exact ⟨_, hrun, by decide +kernel, (sendings_in_order hrun).2⟩

/-! ## What a client is told -/

/-- The calls of `message_codec_send_command` made for `r`. -/
def sendingsFor (r : Req) (tr : List Obs) : List Sending :=
  (sendings tr).filter fun x => x.ctx.owner = r

/-- The results that came back for `r`. -/
def acksFor (r : Req) (ls : List Label) : List Bool :=
  ((ackings ls).filter fun ack => ack.1.owner = r).map Prod.snd

/-- What the text of the answer says of the command `m` of `r`. -/
inductive Told (r : Req) (m : MessageCommand) (ls : List Label) (tr : List Obs) :
    String → Prop where
  /-- the event was not taken, and nothing was sent -/
  | refused (refused : r ∈ refusals ls) (sent : sendingsFor r tr = []) : Told r m ls tr "failure"
  | notSent (c : Ctx) (sent : sendingsFor r tr = [⟨m, c, false⟩]) (acks : acksFor r ls = []) :
    Told r m ls tr "Failed"
  | notReceived (c : Ctx) (sent : sendingsFor r tr = [⟨m, c, true⟩])
    (acks : acksFor r ls = [false]) : Told r m ls tr "Failed"
  | received (c : Ctx) (sent : sendingsFor r tr = [⟨m, c, true⟩]) (acks : acksFor r ls = [true]) :
    Told r m ls tr "success"

/-- Where no two have the same key, one of them is found by its key. -/
theorem filter_eq_singleton {α β : Type*} [DecidableEq β] {key : α → β} {l : List α} {a : α}
    (hnodup : (l.map key).Nodup) (hmem : a ∈ l) : l.filter (fun b => key b = key a) = [a] := by
  induction l with
  | nil => exact absurd hmem List.not_mem_nil
  | cons b l ih =>
    obtain ⟨hb, hnodup⟩ := List.nodup_cons.mp hnodup
    rcases List.mem_cons.mp hmem with rfl | hmem
    · have hrest : l.filter (fun b => key b = key a) = [] := by
        apply List.filter_eq_nil_iff.mpr
        intro b hbl heq
        exact hb (List.mem_map.mpr ⟨b, hbl, of_decide_eq_true heq⟩)
      simp [hrest]
    · have hne : key b ≠ key a := fun heq => hb (List.mem_map.mpr ⟨a, hmem, heq.symm⟩)
      rw [List.filter_cons_of_neg (by simpa using hne), ih hnodup hmem]

theorem mem_sendings {x : Sending} (hrun : run ls = some t) : x ∈ sendings t.trace ↔
    (x.ctx, x.ok) ∈ handlings ls ∧ messageCommand x.ctx.owner.command = some x.command := by
  simp only [sendings_eq hrun, List.mem_filterMap, sending, Option.map_eq_some_iff]
  constructor
  · rintro ⟨event, hevent, m, hm, rfl⟩
    exact ⟨hevent, hm⟩
  · rintro ⟨hevent, hm⟩
    exact ⟨(x.ctx, x.ok), hevent, x.command, hm, rfl⟩

theorem owner_sending (events : List (Ctx × Bool)) :
    (events.filterMap sending).map (fun x => x.ctx.owner) =
      (events.map fun event => event.1.owner).filter
        fun r => (messageCommand r.command).isSome := by
  induction events with
  | nil => rfl
  | cons event events ih =>
    cases hcommand : messageCommand event.1.owner.command <;>
      simp [sending, hcommand, ih]

theorem sendings_nodup (hrun : run ls = some t) :
    ((sendings t.trace).map fun x => x.ctx.owner).Nodup := by
  rw [sendings_eq hrun, owner_sending]
  exact (handlings_nodup hrun).filter _

theorem sendingsFor_eq_singleton {m : MessageCommand} {ok : Bool} (hrun : run ls = some t)
    (hcommand : messageCommand c.owner.command = some m) (hmem : (c, ok) ∈ handlings ls) :
    sendingsFor c.owner t.trace = [⟨m, c, ok⟩] := by
  have hsent : (⟨m, c, ok⟩ : Sending) ∈ sendings t.trace := (mem_sendings hrun).mpr ⟨hmem, hcommand⟩
  exact filter_eq_singleton (sendings_nodup hrun) hsent

/-- Nothing is sent for a request that is refused. -/
theorem sendingsFor_eq_nil (hrun : run ls = some t) (hrefused : r ∈ refusals ls) :
    sendingsFor r t.trace = [] := by
  apply List.filter_eq_nil_iff.mpr
  intro x hx howner
  have hposted := posted_of_handled hrun ((mem_sendings hrun).mp hx).1
  apply (not_mem_refusals_iff hrun hposted).mpr rfl
  rw [of_decide_eq_true howner]
  exact hrefused

/-! The results that come back are of commands on the radio. -/

theorem mem_aired {handled : List (Ctx × Bool)} : c ∈ aired handled ↔
    (c, true) ∈ handled ∧ (messageCommand c.owner.command).isSome := by
  simp only [aired, List.mem_filterMap]
  constructor
  · rintro ⟨⟨d, ok⟩, hevent, h⟩
    split at h
    case isTrue hok =>
      obtain rfl := Option.some.inj h
      obtain ⟨rfl, hsome⟩ := hok
      exact ⟨hevent, hsome⟩
    case isFalse => cases h
  · rintro ⟨hevent, hsome⟩
    exact ⟨(c, true), hevent, by simp [hsome]⟩

theorem aired_nodup (hrun : run ls = some t) : ((aired (handlings ls)).map Ctx.owner).Nodup := by
  have howner : (aired (handlings ls)).map Ctx.owner = ((handlings ls).filter fun event =>
      event.2 ∧ (messageCommand event.1.owner.command).isSome).map fun event => event.1.owner := by
    induction handlings ls with
    | nil => rfl
    | cons event events ih =>
      by_cases hair : event.2 ∧ (messageCommand event.1.owner.command).isSome = true
      · simpa [aired, hair] using ih
      · simpa [aired, hair] using ih
  rw [howner]
  exact (handlings_nodup hrun).sublist (List.filter_sublist.map _)

theorem ackings_nodup (hrun : run ls = some t) :
    ((ackings ls).map fun ack => ack.1.owner).Nodup := by
  have hperm := (aired_perm hrun).map Ctx.owner
  have hnodup := hperm.nodup_iff.mp (aired_nodup hrun)
  rw [List.map_append, List.map_map] at hnodup
  exact hnodup.of_append_left

theorem aired_of_acked {success : Bool} (hrun : run ls = some t)
    (hmem : (c, success) ∈ ackings ls) :
    (c, true) ∈ handlings ls ∧ (messageCommand c.owner.command).isSome := by
  apply mem_aired.mp
  exact (aired_perm hrun).mem_iff.mpr (List.mem_append_left _ (List.mem_map_of_mem hmem))

theorem acksFor_eq_singleton {success : Bool} (hrun : run ls = some t)
    (hmem : (c, success) ∈ ackings ls) : acksFor c.owner ls = [success] := by
  rw [acksFor, filter_eq_singleton (ackings_nodup hrun) hmem]
  rfl

/-- No result comes back for a command that could not be sent. -/
theorem acksFor_eq_nil (hrun : run ls = some t) (hmem : (c, false) ∈ handlings ls) :
    acksFor c.owner ls = [] := by
  rw [acksFor, List.map_eq_nil_iff]
  apply List.filter_eq_nil_iff.mpr
  intro ack hack howner
  have hhandled := (aired_of_acked hrun hack).1
  have hsame := List.inj_on_of_nodup_map (handlings_nodup hrun) hhandled hmem
    (of_decide_eq_true howner)
  exact Bool.noConfusion (Prod.mk.inj hsame).2

theorem mem_outcomesOf {o : Outcome} {tr : List Obs} :
    o ∈ outcomesOf r tr ↔ ∃ c e, c.owner = r ∧ .command c e ∈ tr ∧ e.outcome = some o := by
  simp only [outcomesOf, List.mem_filterMap]
  constructor
  · rintro ⟨ob, hob, ho⟩
    cases ob with
    | command c e =>
      obtain ⟨hr, ho⟩ := by simpa using ho
      exact ⟨c, e, hr, hob, ho⟩
    | begun _ | call _ _ _ | freed _ _ | snapshot _ _ | offered _ _ | lost _ _ => cases ho
  · rintro ⟨c, e, hr, hmem, ho⟩
    exact ⟨_, hmem, by simp [hr, ho]⟩

/-- An outcome is reported as it is. -/
theorem told_of_outcome {m : MessageCommand} {o : Outcome} (hrun : run ls = some t)
    (hcommand : messageCommand r.command = some m) (ho : o ∈ outcomesOf r t.trace) :
    Told r m ls t.trace o.text := by
  obtain ⟨c, e, rfl, hmem, hout⟩ := mem_outcomesOf.mp ho
  cases e with
  | posted ok =>
    cases ok with
    | true => cases hout
    | false =>
      obtain rfl := Option.some.inj hout
      have hrefused : c.owner ∈ refusals ls :=
        mem_refusals.mpr ⟨c, rfl, posted_of_recorded hrun hmem⟩
      exact .refused hrefused (sendingsFor_eq_nil hrun hrefused)
  | sent m' ok =>
    cases ok with
    | true => cases hout
    | false =>
      obtain rfl := Option.some.inj hout
      have hsent : (⟨m', c, false⟩ : Sending) ∈ sendings t.trace :=
        List.mem_filterMap.mpr ⟨_, mem_commandEvents.mpr hmem, rfl⟩
      have hhandled := ((mem_sendings hrun).mp hsent).1
      exact .notSent c (sendingsFor_eq_singleton hrun hcommand hhandled)
        (acksFor_eq_nil hrun hhandled)
  | acked success =>
    obtain rfl := Option.some.inj hout
    have hacked := acked_of_recorded hrun hmem
    have hsent := sendingsFor_eq_singleton hrun hcommand (aired_of_acked hrun hacked).1
    cases success with
    | true => exact .received c hsent (acksFor_eq_singleton hrun hacked)
    | false => exact .notReceived c hsent (acksFor_eq_singleton hrun hacked)
  | otaStarted =>
    obtain ⟨event, -, hcalled⟩ := called_of_recorded hrun hmem nofun nofun
    rcases (called_eq_some hcalled).2 with ⟨_, -, heq⟩ | ⟨hota, -⟩
    · cases heq
    · rw [hota] at hcommand
      cases hcommand

/-- A client that asks for a gate command hears nothing, or the text that says what became of its
own command: whether it was sent to the gate node, and what came back. -/
theorem gate_told {m : MessageCommand} (hrun : run ls = some t)
    (hcommand : messageCommand r.command = some m) :
    callsOn r t.trace = [] ∨
      ∃ text, Told r m ls t.trace text ∧
        callsOn r t.trace <+: sendResponse r text ++ [.complete] := by
  have howned := (run_sound hrun).inv.owned
  have hshown := shown r howned.own
  have hlog : r.command ≠ .log := by
    intro hlog
    rw [hlog] at hcommand
    cases hcommand
  rcases Classical.em (callsOn r t.trace = []) with hnone | hcalls
  · exact .inl hnone
  · rw [← hshown.calls] at hcalls
    obtain ⟨o, ho, hpre⟩ := (howned.shape r).status hlog hcalls
    rw [hshown.outcomes] at ho
    rw [hshown.calls] at hpre
    exact .inr ⟨o.text, told_of_outcome hrun hcommand (by simp [ho]), hpre⟩

/-- The gate node has received the command of the first client, which is told so. -/
def toldRun : List Label := gateRun ++ [.ack ⟨0, ⟨0, .gateOpen, 0⟩⟩ true, .loop]

theorem gate_told_toldRun :
    ∃ t text, run toldRun = some t ∧ callsOn ⟨0, .gateOpen, 0⟩ t.trace ≠ [] ∧
      Told ⟨0, .gateOpen, 0⟩ .openLock toldRun t.trace text := by
  have hrun : run toldRun = some ((run toldRun).getD .init) := run_eq_getD (by decide +kernel)
  have hcalls : callsOn ⟨0, .gateOpen, 0⟩ ((run toldRun).getD .init).trace ≠ [] := by
    decide +kernel
  obtain ⟨text, htold, -⟩ := (gate_told hrun rfl).resolve_left hcalls
  exact ⟨_, text, hrun, hcalls, htold⟩

end HomeNode.Http
