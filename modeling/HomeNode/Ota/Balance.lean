-- SUMMARY: Which inputs let an iteration of ota_task give back the connection and the update handle.
import HomeNode.Ota.Delivery

/-!
# Resource balance

Every exit of an iteration has its own cleanup. `Exit.balanced` says which of
them gives back all it took. Which exit it comes to is read off the inputs: the
redirect, the partition, the read that ends the download and the answers behind it.
-/

namespace HomeNode.Ota

/-! ## The download loop -/

/-- The handle the loop has open: the one of the update it has begun. -/
def Loop.held (l : Loop) : List Handle := if l.headerChecked then [l.handle] else []

/-- Whether the code at a `break` closes the connection. -/
def Break.closes : Break → Bool
  | .readError | .shortPacket | .beginFailed | .writeFailed => true
  | .finished | .connReset => false

/-- What a `break` leaves open. Only a failed write aborts the update. -/
def Break.held (b : Break) (l : Loop) : List Handle :=
  match b with
  | .finished | .readError | .connReset => l.held
  | .shortPacket | .beginFailed | .writeFailed => []

theorem Loop.SameUpdate.held {l l' : Loop} (h : l.SameUpdate l') : l'.held = l.held := by
  simp [Loop.held, h.handle, h.checked]

theorem Loop.Updates.held {l : Loop} {h : Handle} (hl : l.Updates h) : l.held = [h] := by
  simp [Loop.held, hl.handle, hl.checked]

/-- What a trace does to the handles and the connection: it turns `before` into
`after` without a misuse, and the connection is closed if `closes`. -/
structure Effect (before after : List Handle) (closes : Bool) (calls : List Call) : Prop where
  handles : openHandles before calls = after
  used : misused before calls = false
  connection : ∀ open', connected open' calls = (open' && !closes)

theorem Effect.append {a b c : List Handle} {closes : Bool} {cs ds : List Call}
    (hc : Effect a b false cs) (hd : Effect b c closes ds) : Effect a c closes (cs ++ ds) where
  handles := by simp [hc.handles, hd.handles]
  used := by simp [hc.handles, hc.used, hd.used]
  connection := by intro o; simp [hc.connection, hd.connection]

/-- One turn: if it goes on it holds what the loop holds, else what the `break`
leaves open. -/
theorem TurnKind.effect {p : Partition} {l : Loop} {turn : Turn} (h : TurnKind p l turn) :
    match turn.left with
    | none => Effect l.held turn.loop.held false turn.calls
    | some b => Effect l.held (b.held turn.loop) b.closes turn.calls := by
  cases h with
  | readError => exact ⟨rfl, rfl, by simp [Call.connects, Break.closes]⟩
  | ignored hl => exact ⟨hl.held.symm, rfl, by simp [Call.connects]⟩
  | connReset hl => exact ⟨hl.held.symm, rfl, by simp [Call.connects, Break.closes]⟩
  | waiting hl => exact ⟨hl.held.symm, rfl, by simp [Call.connects]⟩
  | finished hl => exact ⟨hl.held.symm, rfl, by simp [Call.connects, Break.closes]⟩
  | shortPacket _ hc =>
    have hheld : l.held = [] := by simp [Loop.held, hc]
    exact ⟨hheld, rfl, by simp [Call.connects, Break.closes]⟩
  | beginFailed hc =>
    have hheld : l.held = [] := by simp [Loop.held, hc]
    exact ⟨hheld, rfl, by simp [Call.connects, Break.closes]⟩
  | begun hl hc =>
    have hheld : l.held = [] := by simp [Loop.held, hc]
    refine ⟨?_, rfl, by simp [Call.connects]⟩
    simp [hheld, hl.held, Call.handlesAfter]
  | @begunWriteFailed l' bs h hl hc =>
    have hheld : l.held = [] := by simp [Loop.held, hc]
    refine ⟨?_, ?_, by simp [Call.connects, Break.closes]⟩
    · simp [hheld, Call.handlesAfter, Break.held]
    · simp [Call.handlesAfter, Call.misuses]
  | written hl hc =>
    refine ⟨?_, rfl, by simp [Call.connects]⟩
    simp [Loop.held, hc, hl.handle, hl.checked, Call.handlesAfter]
  | writeFailed hl hc =>
    have hheld : l.held = [l.handle] := by simp [Loop.held, hc]
    refine ⟨?_, ?_, by simp [Call.connects, Break.closes]⟩
    · simp [hheld, Call.handlesAfter, Break.held]
    · simp [hheld, Call.handlesAfter, Call.misuses]

theorem downloadLoop_effect {p : Partition} {l : Loop} {es : List ReadEnv} {b : Break}
    (hleft : (downloadLoop p l es).left = some b) :
    Effect l.held (b.held (downloadLoop p l es).loop) b.closes (downloadLoop p l es).calls := by
  induction es generalizing l with
  | nil => simp [downloadLoop] at hleft
  | cons e es ih =>
    generalize hturn : downloadTurn p l e = turn
    have heffect := (hturn ▸ downloadTurn_kind p l e).effect
    rw [downloadLoop_cons hturn] at hleft ⊢
    obtain ⟨left, loop, calls⟩ := turn
    cases left with
    | none => exact heffect.append (ih hleft)
    | some b' =>
      obtain rfl : b' = b := Option.some.inj hleft
      exact heffect

/-! ## The iteration -/

/-- Whether an exit closes the connection and ends the update it has begun. -/
def Exit.balanced : Exit → Bool
  | .noPartition redirected => !redirected
  | .download _ .readError checked => !checked
  | .download redirected .connReset checked => !redirected && !checked
  | .incomplete _ checked | .endFailed _ checked => checked
  | .setBootFailed redirected checked | .committed redirected checked => !redirected && checked
  | _ => true

/-- Nothing is held at the end of a part of a trace that starts without a handle,
and with a connection or not. -/
structure GivesBack (open' : Bool) (calls : List Call) : Prop where
  handles : openHandles [] calls = []
  used : misused [] calls = false
  closed : connected open' calls = false

theorem GivesBack.append_iff {held : List Handle} {open' closes : Bool} {cs ds : List Call}
    (h : Effect [] held closes cs) :
    GivesBack open' (cs ++ ds) ↔
      openHandles held ds = [] ∧ misused held ds = false ∧
        connected (open' && !closes) ds = false := by
  constructor
  · intro hd
    exact ⟨by simpa [h.handles] using hd.handles, by simpa [h.handles, h.used] using hd.used,
      by simpa [h.connection] using hd.closed⟩
  · rintro ⟨hhandles, hused, hclosed⟩
    exact ⟨by simpa [h.handles] using hhandles, by simpa [h.handles, h.used] using hused,
      by simpa [h.connection] using hclosed⟩

/-- The commit gives back the handle of its update, if it has begun one, and
closes the connection on its failures only. -/
theorem otaCommit_givesBack (s : OtaState) (e : CycleEnv) (redirected : Bool) (p : Partition)
    (l : Loop) :
    (openHandles l.held (otaCommit s e redirected p l).calls = [] ∧
      misused l.held (otaCommit s e redirected p l).calls = false ∧
      connected redirected (otaCommit s e redirected p l).calls = false) ↔
    (otaCommit s e redirected p l).exit.balanced := by
  unfold otaCommit
  split_ifs
  all_goals
    cases hc : l.headerChecked <;>
      simp [Loop.held, hc, Call.handlesAfter, Call.misuses, Call.connects, Exit.balanced]

theorem otaDownload_givesBack (s : OtaState) (e : CycleEnv) (redirected : Bool)
    (hexit : (otaDownload s e redirected).exit ≠ .blocked) :
    GivesBack redirected (otaDownload s e redirected).calls ↔
      (otaDownload s e redirected).exit.balanced := by
  unfold otaDownload at hexit ⊢
  cases hpart : e.nextPartition with
  | none =>
    refine ⟨fun h => ?_, fun h => ⟨rfl, rfl, ?_⟩⟩
    · simpa [Exit.balanced] using h.closed
    · simpa [Exit.balanced] using h
  | some p =>
    set l : Loop := ⟨false, 0, s.updateHandle, s.responseBuffer, 0⟩
    have hheld : l.held = [] := rfl
    simp only [hpart] at hexit ⊢
    cases hleft : (downloadLoop p l e.reads).left with
    | none =>
      rw [hleft] at hexit
      exact absurd rfl hexit
    | some b =>
      have heffect := downloadLoop_effect hleft
      rw [hheld] at heffect
      cases b with
      | finished =>
        simp only [CycleResult.after_calls, CycleResult.after_exit]
        rw [GivesBack.append_iff heffect]
        simpa [Break.held, Break.closes] using
          otaCommit_givesBack _ e redirected p (downloadLoop p l e.reads).loop
      | readError | shortPacket | beginFailed | writeFailed | connReset =>
        simp only
        rw [← List.append_nil (downloadLoop p l e.reads).calls, GivesBack.append_iff heffect]
        cases hc : (downloadLoop p l e.reads).loop.headerChecked <;>
          simp [Break.held, Break.closes, Loop.held, hc, Exit.balanced]

theorem NoFlash.effect {calls : List Call} (h : NoFlash calls) (handles : List Handle) :
    openHandles handles calls = handles ∧ misused handles calls = false := by
  induction calls with
  | nil => exact ⟨rfl, rfl⟩
  | cons c cs ih =>
    obtain ⟨hopen, hused⟩ := ih fun c' hc' => h c' (List.mem_cons_of_mem c hc')
    have hc : c.isFlash = false := h c List.mem_cons_self
    have hkeeps : c.handlesAfter handles = handles ∧ c.misuses handles = false := by
      cases c <;> simp_all [Call.isFlash, Call.handlesAfter, Call.misuses]
    exact ⟨by simpa [hkeeps.1] using hopen, by simpa [hkeeps] using hused⟩

/-- An iteration that has come back to the wait gives back all it took exactly
when it was left by a balanced exit. -/
theorem otaCycle_balanced (cfg : Config) (s : OtaState) (e : CycleEnv)
    (hexit : (otaCycle cfg s e).exit ≠ .blocked) :
    Balanced (otaCycle cfg s e).calls ↔ (otaCycle cfg s e).exit.balanced := by
  rcases otaCycle_phased cfg s e with ⟨-, hblocked⟩ | ⟨hquiet, hearly, hclosed⟩ |
    ⟨t, front, redirected, hfront, hconn, -, hr⟩
  · exact absurd hblocked hexit
  · have hbalanced : (otaCycle cfg s e).exit.balanced := by
      generalize (otaCycle cfg s e).exit = exit at hearly
      cases exit <;> simp_all [Exit.early, Exit.balanced]
    obtain ⟨hhandles, hused⟩ := hquiet.effect []
    exact ⟨fun _ => hbalanced, fun _ => ⟨hhandles, hused, hclosed⟩⟩
  · rw [hr] at hexit ⊢
    obtain ⟨hhandles, hused⟩ := hfront.effect []
    rw [CycleResult.after_exit, ← otaDownload_givesBack t e redirected hexit]
    constructor
    · intro h
      exact ⟨by simpa [hhandles] using h.handles, by simpa [hhandles, hused] using h.used,
        by simpa [hconn] using h.closed⟩
    · intro h
      exact ⟨by simpa [hhandles] using h.handles, by simpa [hhandles, hused] using h.used,
        by simpa [hconn] using h.closed⟩

/-! ## The read that ends the download -/

/-- A read that the download goes on behind: an empty one that it waits through, or a packet
that the flash takes. `opened` when an update is open before it. -/
def ReadEnv.goesOn (again opened : Bool) (e : ReadEnv) : Bool :=
  e.waits again ||
    (e.read.bytes ≠ [] && e.writeOk && (opened || (e.holdsHeader && e.begin.isSome)))

/-- The read that ends the download, and whether an update is open before it. -/
def endingRead (again opened : Bool) : List ReadEnv → Option (Bool × ReadEnv)
  | [] => none
  | e :: es =>
    if e.goesOn again opened then
      endingRead (again || e.read.bytes = []) (opened || e.read.bytes ≠ []) es
    else some (opened, e)

/-- The loop as its ending read has it: what it is left by, and whether it leaves an update
open that a `break` has not seen to. -/
def Turn.EndsAt (turn : Turn) : Option (Bool × ReadEnv) → Prop
  | none => turn.left = none
  | some (opened, e) =>
    match e.read with
    | .error => turn.left = some .readError ∧ turn.loop.headerChecked = opened
    | .data [] => turn.left = some (if e.connReset then .connReset else .finished) ∧
        turn.loop.headerChecked = opened
    | .data (_ :: _) => turn.left = some .shortPacket ∨ turn.left = some .beginFailed ∨
        turn.left = some .writeFailed

theorem Turn.EndsAt.left_isSome {turn : Turn} {opened : Bool} {e : ReadEnv}
    (h : turn.EndsAt (some (opened, e))) : ∃ b, turn.left = some b := by
  simp only [Turn.EndsAt] at h
  cases hread : e.read with
  | error =>
    simp only [hread] at h
    exact ⟨_, h.1⟩
  | data bs =>
    cases bs with
    | nil =>
      simp only [hread] at h
      exact ⟨_, h.1⟩
    | cons b bs =>
      simp only [hread] at h
      rcases h with h | h | h <;> exact ⟨_, h⟩

section

variable {p : Partition} {l : Loop} {e : ReadEnv}

theorem downloadTurn_goesOn (h : e.goesOn (l.attempts ≠ 0) l.headerChecked = true) :
    (downloadTurn p l e).left = none ∧
      (downloadTurn p l e).loop.headerChecked =
        (l.headerChecked || decide (e.read.bytes ≠ [])) ∧
      decide ((downloadTurn p l e).loop.attempts ≠ 0) =
        (decide (l.attempts ≠ 0) || decide (e.read.bytes = [])) := by
  rcases Bool.or_eq_true_iff.mp h with hwaits | hpacket
  · have hempty : e.read = .data [] := by
      simp only [ReadEnv.waits, Bool.and_eq_true, decide_eq_true_eq] at hwaits
      exact hwaits.1
    have hturn := downloadTurn_waiting (p := p) hwaits
    exact ⟨hturn.left, by simp [hturn.checked, hempty, Read.bytes],
      by simp [hturn.attempts, hempty, Read.bytes]⟩
  · simp only [Bool.and_eq_true, decide_eq_true_eq] at hpacket
    obtain ⟨⟨hbytes, hwrite⟩, hopens⟩ := hpacket
    obtain ⟨bs, hread, hbs⟩ : ∃ bs, e.read = .data bs ∧ bs ≠ [] := by
      cases hread : e.read with
      | error => simp [hread, Read.bytes] at hbytes
      | data bs => exact ⟨bs, rfl, by simpa [hread, Read.bytes] using hbytes⟩
    have hpos : 0 < bs.length := List.length_pos_iff.mpr hbs
    refine ⟨?_, ?_, by simp [downloadTurn_attempts hbytes, hbytes]⟩
    all_goals
      cases hchecked : l.headerChecked with
      | true =>
        have hturn := downloadTurn_write (p := p) hread hpos hchecked
        simp [hturn.left, hturn.checked, hwrite]
      | false =>
        simp only [hchecked, Bool.false_or, Bool.and_eq_true] at hopens
        obtain ⟨hlong, hbegin⟩ := hopens
        have hturn := downloadTurn_begin (p := p) hread
          (by simpa [ReadEnv.holdsHeader, hread, Read.bytes] using hlong) hchecked
        rw [if_neg (by simpa [Option.isSome_iff_ne_none] using hbegin)] at hturn
        simp [hturn.left, hturn.checked, hwrite, hbytes]

theorem downloadTurn_ends (h : e.goesOn (l.attempts ≠ 0) l.headerChecked = false) :
    (downloadTurn p l e).EndsAt (some (l.headerChecked, e)) := by
  simp only [ReadEnv.goesOn, Bool.or_eq_false_iff] at h
  obtain ⟨hwaits, hpacket⟩ := h
  simp only [Turn.EndsAt]
  cases hread : e.read with
  | error =>
    rw [downloadTurn_error hread]
    exact ⟨rfl, rfl⟩
  | data bs =>
    cases bs with
    | nil =>
      obtain ⟨hagain, hends⟩ : l.attempts ≠ 0 ∧ (e.connReset = false → e.complete = true) := by
        simpa [ReadEnv.waits, hread] using hwaits
      rw [downloadTurn_empty hread, handleEmptyRead, if_neg hagain]
      cases hreset : e.connReset with
      | true => exact ⟨rfl, rfl⟩
      | false =>
        rw [hends hreset]
        exact ⟨rfl, rfl⟩
    | cons b bs =>
      have hpos : 0 < (b :: bs).length := Nat.succ_pos _
      cases hchecked : l.headerChecked with
      | true =>
        have hwrite : e.writeOk = false := by simpa [hread, Read.bytes, hchecked] using hpacket
        have hturn := downloadTurn_write (p := p) hread hpos hchecked
        simp [hturn.left, hwrite]
      | false =>
        by_cases hlong : imageHeaderSize < (b :: bs).length
        · have hturn := downloadTurn_begin (p := p) hread hlong hchecked
          rw [hturn.left]
          cases hbegin : e.begin with
          | none => simp
          | some hd =>
            have hwrite : e.writeOk = false := by
              have hholds : e.holdsHeader = true := by
                simpa [ReadEnv.holdsHeader, hread, Read.bytes] using hlong
              simpa [hread, Read.bytes, hchecked, hholds, hbegin] using hpacket
            simp [hwrite]
        · have hturn := downloadTurn_short (p := p) hread hpos (not_lt.mp hlong) hchecked
          simp [hturn.left]

/-- The loop ends at its ending read. -/
theorem downloadLoop_ends (p : Partition) (l : Loop) (es : List ReadEnv) :
    (downloadLoop p l es).EndsAt (endingRead (l.attempts ≠ 0) l.headerChecked es) := by
  induction es generalizing l with
  | nil => rfl
  | cons e es ih =>
    rw [endingRead, downloadLoop_cons rfl]
    cases hgoes : e.goesOn (l.attempts ≠ 0) l.headerChecked with
    | true =>
      obtain ⟨hleft, hchecked, hattempts⟩ := downloadTurn_goesOn (p := p) hgoes
      have hrest := ih (downloadTurn p l e).loop
      rw [hchecked, hattempts] at hrest
      simp only [hleft, if_true]
      exact hrest
    | false =>
      have hends := downloadTurn_ends (p := p) hgoes
      obtain ⟨b, hb⟩ := hends.left_isSome
      simp only [hb, Bool.false_eq_true, if_false]
      exact hends

end

/-- The download ends in a way that gives everything back: not by a read error with an update
open, by a reset with an update or the connection open, or by a complete response without an
update; and behind a complete one the connection is not that of a redirect, unless the image
turns out to be incomplete or is refused. -/
def CycleEnv.endsBalanced (e : CycleEnv) (redirected : Bool) : Bool :=
  match endingRead false false e.reads with
  | none => true
  | some (opened, last) =>
    match last.read with
    | .error => !opened
    | .data [] =>
      if last.connReset then !redirected && !opened
      else opened && !(e.completeAfter && e.endOk && redirected)
    | .data (_ :: _) => true

theorem otaAfterLoop_balanced (s : OtaState) (e : CycleEnv) (redirected : Bool) (p : Partition) :
    (otaAfterLoop s e redirected p (downloadLoop p (.start s) e.reads)).exit.balanced =
      e.endsBalanced redirected := by
  have hends : (downloadLoop p (.start s) e.reads).EndsAt (endingRead false false e.reads) :=
    downloadLoop_ends p (.start s) e.reads
  rw [otaAfterLoop_exit, CycleEnv.endsBalanced]
  cases hending : endingRead false false e.reads with
  | none =>
    rw [hending] at hends
    have hleft : (downloadLoop p (.start s) e.reads).left = none := hends
    simp [hleft, Exit.balanced]
  | some ending =>
    obtain ⟨opened, last⟩ := ending
    rw [hending] at hends
    simp only [Turn.EndsAt] at hends
    cases hread : last.read with
    | error =>
      simp only [hread] at hends
      simp [hends, hread, Exit.balanced]
    | data bs =>
      cases bs with
      | nil =>
        simp only [hread] at hends
        obtain ⟨hleft, hchecked⟩ := hends
        cases hreset : last.connReset with
        | true => simp [hleft, hchecked, hreset, hread, Exit.balanced]
        | false =>
          simp only [hleft, hchecked, hreset, hread, Bool.false_eq_true, if_false,
            CycleEnv.commitExit]
          cases e.completeAfter <;> cases e.endOk <;> cases e.setBootOk <;> cases redirected <;>
            simp [Exit.balanced]
      | cons b bs =>
        simp only [hread] at hends
        rcases hends with hleft | hleft | hleft <;> simp [hleft, hread, Exit.balanced]

/-! ## The run -/

/-- At each return to the semaphore wait, everything has been given back. -/
def BalancedThroughout (cfg : Config) (es : List CycleEnv) : Prop :=
  ∀ es', es' <+: es → Balanced (runCalls cfg .init es')

/-- What the inputs of the iteration `e` of a task in state `s` must be like for it to give
everything back, should it come as far as the choice of the partition. -/
def EndsBalanced (cfg : Config) (s : OtaState) (e : CycleEnv) : Prop :=
  e.validationPending = false → entersDownload cfg s.cleared e = true →
    if e.nextPartition = none then takesRedirect cfg s.cleared e = false
    else e.endsBalanced (takesRedirect cfg s.cleared e) = true

theorem exit_balanced_iff (cfg : Config) (s : OtaState) (e : CycleEnv) :
    (otaCycle cfg s e).exit.balanced = true ↔ EndsBalanced cfg s e := by
  unfold EndsBalanced
  cases hgate : e.validationPending with
  | true =>
    rw [otaCycle, hgate]
    simp [Exit.balanced]
  | false =>
    rw [otaCycle_open cfg s hgate]
    cases henters : entersDownload cfg s.cleared e with
    | false =>
      have hbalanced : (otaUpdate cfg s.cleared e).exit.balanced = true := by
        rcases (otaUpdate_not_enters henters).2 with hexit | hexit
        · rw [hexit]
          rfl
        · generalize (otaUpdate cfg s.cleared e).exit = exit at hexit
          cases exit <;> simp_all [Exit.early, Exit.balanced]
      simp [hbalanced]
    | true =>
      obtain ⟨t, front, -, heq⟩ := otaUpdate_enters henters
      rw [heq, CycleResult.after_exit]
      cases hp : e.nextPartition with
      | none => simp [otaDownload, hp, Exit.balanced]
      | some p => simp [otaDownload_eq hp, otaAfterLoop_balanced]

theorem balancedThroughout_concat (cfg : Config) (es : List CycleEnv) (e : CycleEnv) :
    BalancedThroughout cfg (es ++ [e]) ↔
      BalancedThroughout cfg es ∧ Balanced (runCalls cfg .init (es ++ [e])) := by
  constructor
  · intro h
    exact ⟨fun es' hpre => h es' (hpre.trans (List.prefix_append es [e])),
      h _ (List.prefix_refl _)⟩
  · rintro ⟨h, hlast⟩ es' hpre
    rcases List.prefix_concat_iff.mp hpre with rfl | hpre
    · exact hlast
    · exact h es' hpre

/-- A run of `ota_task` has given everything back at each return to the
semaphore wait exactly when the inputs of every iteration lead to a balanced end. -/
theorem balanced_iff (cfg : Config) {es : List CycleEnv} {s : OtaState}
    (hrun : otaRun cfg es = some s) :
    BalancedThroughout cfg es ↔
      Transition.Throughout (cycleStep cfg) (EndsBalanced cfg) .init es := by
  revert hrun
  refine Transition.run_induction
    (P := fun es _ => BalancedThroughout cfg es ↔
      Transition.Throughout (cycleStep cfg) (EndsBalanced cfg) .init es) ?_ ?_ es s
  · refine ⟨fun _ es' e t hpre => by simp at hpre, fun _ es' hpre => ?_⟩
    obtain rfl : es' = [] := List.prefix_nil.mp hpre
    exact .nil
  · intro es t e u hrun ih hstep
    rw [balancedThroughout_concat, Transition.throughout_concat hrun, ← ih]
    -- the past is balanced, so the iteration is judged on its own calls
    apply and_congr_right
    intro hpast
    rw [runCalls_concat cfg .init es e hrun, (hpast es (List.prefix_refl _)).append_iff]
    exact (otaCycle_balanced cfg t e (cycleStep_eq_some.mp hstep).1).trans
      (exit_balanced_iff cfg t e)

/-- The flash refuses the first packet of a redirected download. -/
def refusedCycle : CycleEnv := sampleCycle [sampleLocation]
  [{ read := .data (List.replicate 300 1), begin := some 1, writeOk := false }]

theorem balanced_refusedCycle : BalancedThroughout sampleConfig [refusedCycle] := by
  have hrun : otaRun sampleConfig [refusedCycle] =
      some (otaCycle sampleConfig .init refusedCycle).state := by decide +kernel
  apply (balanced_iff sampleConfig hrun).mpr
  rintro (_ | ⟨c, cs⟩) e t hpre ht
  · obtain rfl : e = refusedCycle := by simpa using hpre
    obtain rfl : OtaState.init = t := Option.some.inj ht
    intro _ _
    decide +kernel
  · simp at hpre

/-- A read error after `esp_ota_begin` leaves the handle open. -/
theorem not_balanced_brokenCycle :
    ¬ ∀ cfg es s, otaRun cfg es = some s → BalancedThroughout cfg es := by
  intro h
  have hrun : otaRun sampleConfig [brokenCycle] =
      some (otaCycle sampleConfig .init brokenCycle).state := by decide +kernel
  have hopen : openHandles [] (runCalls sampleConfig .init [brokenCycle]) = [1] := by
    decide +kernel
  have hclosed := (h sampleConfig _ _ hrun [brokenCycle] (List.prefix_refl _)).handles
  simp [hopen] at hclosed

end HomeNode.Ota
