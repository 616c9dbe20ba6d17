-- SUMMARY: The two phases of an iteration of ota_task: the HTTP requests, and the download into flash.
import HomeNode.Ota.Resources

/-!
# Requests, then flash

An iteration either ends before it asks for the update partition, or it goes on
to `otaDownload`. The requests before that touch no part of the flash and leave
the update handle alone, and the connection they leave open is the one of the
redirect branch.
-/

namespace HomeNode.Ota

/-! ## Kinds of calls -/

/-- The calls of the download and of the commit. -/
def Call.isFlash : Call → Bool
  | .firmwareRead _ | .otaBegin _ _ | .otaWrite _ _ _ | .otaEnd _ _ | .otaAbort _
  | .setBootPartition _ _ | .postRebootRequired => true
  | _ => false

/-- A trace of requests only. -/
def NoFlash (calls : List Call) : Prop := ∀ c ∈ calls, c.isFlash = false

theorem NoFlash.nil : NoFlash [] := by simp [NoFlash]

theorem NoFlash.cons {c : Call} {cs : List Call} (hc : c.isFlash = false) (h : NoFlash cs) :
    NoFlash (c :: cs) := by
  simpa [NoFlash, hc] using h

theorem NoFlash.append {cs ds : List Call} (hc : NoFlash cs) (hd : NoFlash ds) :
    NoFlash (cs ++ ds) := by
  intro c h
  rcases List.mem_append.mp h with h | h
  · exact hc c h
  · exact hd c h

/-- The exits before the download. -/
def Exit.early : Exit → Bool
  | .turnedAway | .manifestFailed | .invalidVersion | .notNewer | .performFailed
  | .redirectFailed => true
  | _ => false

@[simp] theorem deliverHeaders_updateHandle (s : OtaState) (headers : List Header) :
    (deliverHeaders s headers).updateHandle = s.updateHandle := by
  induction headers generalizing s with
  | nil => rfl
  | cons h hs ih =>
    have hhead : (httpEventHandler s h).updateHandle = s.updateHandle := by
      unfold httpEventHandler
      split_ifs <;> rfl
    exact (ih _).trans hhead

/-! ## The manifest fetch -/

theorem manifestReadLoop_noFlash (buffer : CharArray maxHttpRecvBuffer) (total : Nat)
    (es : List ManifestRead) :
    NoFlash (manifestReadLoop buffer total es).calls ∧
      ∀ b, connected b (manifestReadLoop buffer total es).calls = b := by
  induction es generalizing buffer total with
  | nil => simp [manifestReadLoop, NoFlash]
  | cons e es ih =>
    rw [manifestReadLoop]
    cases e.read with
    | error => simp [NoFlash, Call.isFlash, Call.connects]
    | data bs =>
      simp only
      split_ifs
      · simp [NoFlash, Call.isFlash, Call.connects]
      · obtain ⟨hrest, hconn⟩ := ih (buffer.write total _) total
        exact ⟨NoFlash.append (by simp [NoFlash, Call.isFlash]) hrest,
          by simpa [ManifestLoop.after, Call.connects] using hconn⟩
      · simp [NoFlash, Call.isFlash, Call.connects]
      · obtain ⟨hrest, hconn⟩ := ih (buffer.write total _) (total + _)
        exact ⟨NoFlash.append (by simp [NoFlash, Call.isFlash]) hrest,
          by simpa [ManifestLoop.after, Call.connects] using hconn⟩

/-- The manifest fetch makes requests only. Once it has returned, the connection
it opened is closed. -/
theorem fetchOtaManifest_noFlash (cfg : Config) (s : OtaState) (e : FetchEnv) :
    NoFlash (fetchOtaManifest cfg s e).calls ∧
      ((fetchOtaManifest cfg s e).ret ≠ none →
        connected false (fetchOtaManifest cfg s e).calls = false) ∧
      (fetchOtaManifest cfg s e).state.updateHandle = s.updateHandle := by
  obtain ⟨buffer, hcalls⟩ := fetchOtaManifest_calls cfg s e
  obtain ⟨hloop, hconn⟩ := manifestReadLoop_noFlash buffer 0 e.reads
  refine ⟨?_, ?_, ?_⟩
  · rw [hcalls]
    have hrest : NoFlash (if (fetchOtaManifest cfg s e).ret = none then [] else [.clientClose]) := by
      split_ifs
      · exact .nil
      · exact .cons rfl .nil
    refine .cons rfl (.cons rfl ?_)
    cases e.openOk with
    | false => exact .nil
    | true => exact .cons rfl (hloop.append hrest)
  · intro hret
    rw [hcalls]
    cases e.openOk <;> simp [Call.connects, hret]
  · unfold fetchOtaManifest
    cases e.openOk with
    | false => rfl
    | true =>
      simp only [Bool.not_true, Bool.false_eq_true, if_false]
      split
      · simp
      · split_ifs
        · simp
        · split <;> simp

/-! ## The iteration -/

/-- What an iteration does from some point on, with the connection open or not.
It either ends with requests only, leaving by an early exit and without a
connection, or it goes on to the download with the old update handle and at most
the connection of the redirect branch. -/
def Phased (s : OtaState) (e : CycleEnv) (open' : Bool) (r : CycleResult) : Prop :=
  (NoFlash r.calls ∧ r.exit.early ∧ connected open' r.calls = false) ∨
  ∃ t front redirected, NoFlash front ∧ connected open' front = redirected ∧
    t.updateHandle = s.updateHandle ∧ r = (otaDownload t e redirected).after front

theorem Phased.after {s t : OtaState} {e : CycleEnv} {b : Bool} {r : CycleResult}
    {cs : List Call} (h : Phased s e (connected b cs) r) (hcs : NoFlash cs)
    (hst : s.updateHandle = t.updateHandle) : Phased t e b (r.after cs) := by
  rcases h with ⟨hquiet, hexit, hconn⟩ | ⟨u, front, redirected, hfront, hconn, hu, rfl⟩
  · exact .inl ⟨hcs.append hquiet, hexit, by simpa [CycleResult.after] using hconn⟩
  · exact .inr ⟨u, cs ++ front, redirected, hcs.append hfront, by simpa using hconn,
      hu.trans hst, by simp [CycleResult.after]⟩

theorem otaRedirect_phased (s : OtaState) (e : CycleEnv) :
    Phased s e false (otaRedirect s e) := by
  unfold otaRedirect
  cases s.expectRedirect with
  | false => exact .inr ⟨s, [], false, .nil, rfl, rfl, rfl⟩
  | true =>
    cases hopen : e.redirectOpenOk with
    | false =>
      exact .inl ⟨.cons rfl (.cons rfl (.cons rfl (.cons rfl .nil))), rfl, rfl⟩
    | true =>
      refine .inr ⟨_, _, true, ?_, ?_, ?_, rfl⟩
      · exact .cons rfl (.cons rfl (.cons rfl (.cons rfl .nil)))
      · rfl
      · simp

theorem otaRequest_phased (s : OtaState) (e : CycleEnv) :
    Phased s e false (otaRequest s e) := by
  unfold otaRequest
  cases e.performOk with
  | false => exact .inl ⟨.cons rfl (.cons rfl (.cons rfl .nil)), rfl, rfl⟩
  | true =>
    exact (otaRedirect_phased _ e).after (.cons rfl (.cons rfl (.cons rfl .nil)))
      (deliverHeaders_updateHandle s _)

/-- An iteration that starts without a connection blocks in the manifest fetch,
or it has the two phases. -/
theorem otaCycle_phased (cfg : Config) (s : OtaState) (e : CycleEnv) :
    (NoFlash (otaCycle cfg s e).calls ∧ (otaCycle cfg s e).exit = .blocked) ∨
      Phased s e false (otaCycle cfg s e) := by
  unfold otaCycle
  split_ifs
  · exact .inr (.inl ⟨.nil, rfl, rfl⟩)
  set s' : OtaState := { s with updatePending := false }
  obtain ⟨hquiet, hconn, hhandle⟩ := fetchOtaManifest_noFlash cfg s' e.manifest
  unfold otaUpdate
  set fetch := fetchOtaManifest cfg s' e.manifest
  simp only
  split
  · exact .inl ⟨hquiet, rfl⟩
  · next hret => exact .inr (.inl ⟨hquiet, rfl, hconn (by simp [hret])⟩)
  · next hret =>
    have hclosed : connected false fetch.calls = false := hconn (by simp [hret])
    split_ifs
    · exact .inr (.inl ⟨hquiet, rfl, hclosed⟩)
    · exact .inr (.inl ⟨hquiet, rfl, hclosed⟩)
    · refine .inr (Phased.after ?_ hquiet hhandle)
      rw [hclosed]
      exact otaRequest_phased fetch.state e

end HomeNode.Ota
