-- SUMMARY: When a call of esp_ota_set_boot_partition is justified by the download of its own iteration.
import HomeNode.Lib.Trace
import HomeNode.Ota.Download
import HomeNode.Ota.Phases

/-!
# Commit soundness

A partition may be made the boot partition only for an image that this very
iteration has begun, written in full, seen complete, and ended. The loop
guarantees that for every iteration that reads data. An iteration that reads
none still reaches `esp_ota_end`, with the handle an earlier iteration left in
`update_handle`.
-/

namespace HomeNode.Ota

/-! ## Reads and writes of a trace -/

def Call.received : Call → List UInt8
  | .firmwareRead (.data bs) => bs
  | _ => []

/-- The bytes of all firmware reads, in order. -/
def received (calls : List Call) : List UInt8 := calls.flatMap Call.received

def Call.otaWrites : Call → List (Handle × List UInt8 × Bool)
  | .otaWrite h bs ok => [(h, bs, ok)]
  | _ => []

/-- The writes to flash: the handle, the bytes, and whether `ESP_OK` came back. -/
def otaWrites (calls : List Call) : List (Handle × List UInt8 × Bool) :=
  calls.flatMap Call.otaWrites

@[simp] theorem received_nil : received [] = [] := rfl

@[simp] theorem received_cons (c : Call) (cs : List Call) :
    received (c :: cs) = c.received ++ received cs := rfl

@[simp] theorem received_append (cs ds : List Call) :
    received (cs ++ ds) = received cs ++ received ds := by
  simp [received]

@[simp] theorem otaWrites_nil : otaWrites [] = [] := rfl

@[simp] theorem otaWrites_cons (c : Call) (cs : List Call) :
    otaWrites (c :: cs) = c.otaWrites ++ otaWrites cs := rfl

@[simp] theorem otaWrites_append (cs ds : List Call) :
    otaWrites (cs ++ ds) = otaWrites cs ++ otaWrites ds := by
  simp [otaWrites]

theorem NoFlash.received {calls : List Call} (h : NoFlash calls) : received calls = [] := by
  rw [Ota.received, List.flatMap_eq_nil_iff]
  intro c hc
  have := h c hc
  cases c <;> simp_all [Call.isFlash, Call.received]

theorem NoFlash.otaWrites {calls : List Call} (h : NoFlash calls) : otaWrites calls = [] := by
  rw [Ota.otaWrites, List.flatMap_eq_nil_iff]
  intro c hc
  have := h c hc
  cases c <;> simp_all [Call.isFlash, Call.otaWrites]

/-- All writes went to `h` and succeeded, and they are `bs` put together. -/
structure WrittenTo (h : Handle) (calls : List Call) (bs : List UInt8) : Prop where
  succeeded : ∀ w ∈ otaWrites calls, w.1 = h ∧ w.2.2 = true
  bytes : (otaWrites calls).flatMap (fun w => w.2.1) = bs

/-- `calls` begin an update of `p` under the handle `h` and write to it all that
they read. -/
structure Installs (p : Partition) (h : Handle) (calls : List Call) : Prop where
  split : ∃ before after, calls = before ++ .otaBegin p (some h) :: after ∧
    otaWrites before = [] ∧ WrittenTo h after (received calls)

/-- What must come before `esp_ota_set_boot_partition(p)` in an iteration: an
update of `p` that was begun, took every byte that was read, was seen complete
and was ended with success. -/
def Justified (p : Partition) (calls : List Call) : Prop :=
  ∃ h body, calls = body ++ [.isComplete true, .otaEnd h true] ∧ Installs p h body

def Call.beginsUpdate : Call → Bool
  | .otaBegin _ (some _) => true
  | _ => false

theorem Justified.begins {p : Partition} {calls : List Call} (h : Justified p calls) :
    ∃ hd, .otaBegin p (some hd) ∈ calls := by
  obtain ⟨hd, body, rfl, before, after, rfl, -⟩ := h
  exact ⟨hd, by simp⟩

/-! ## The loop -/

/-- Once the update is open, the loop writes all it reads to its handle and
opens no other one. -/
theorem downloadLoop_updating {p : Partition} {l : Loop} {h : Handle} {es : List ReadEnv}
    (hl : l.Updates h) (hfin : (downloadLoop p l es).left = some .finished) :
    (downloadLoop p l es).loop.Updates h ∧
      WrittenTo h (downloadLoop p l es).calls (received (downloadLoop p l es).calls) := by
  induction es generalizing l with
  | nil => simp [downloadLoop] at hfin
  | cons e es ih =>
    generalize hturn : downloadTurn p l e = turn
    have hkind := hturn ▸ downloadTurn_kind p l e
    rw [downloadLoop_cons hturn] at hfin ⊢
    cases hkind with
    | ignored hl' =>
      obtain ⟨hloop, hw⟩ := ih ⟨hl'.handle.trans hl.handle, hl'.checked.trans hl.checked⟩ hfin
      exact ⟨hloop, ⟨hw.succeeded, hw.bytes⟩⟩
    | waiting hl' =>
      obtain ⟨hloop, hw⟩ := ih ⟨hl'.handle.trans hl.handle, hl'.checked.trans hl.checked⟩ hfin
      exact ⟨hloop, ⟨hw.succeeded, hw.bytes⟩⟩
    | finished hl' =>
      exact ⟨⟨hl'.handle.trans hl.handle, hl'.checked.trans hl.checked⟩,
        ⟨by simp [Call.otaWrites], rfl⟩⟩
    | begun _ hc _ => simp [hl.checked] at hc
    | written hl' =>
      obtain ⟨hloop, hw⟩ := ih (hl.handle ▸ hl') hfin
      refine ⟨hloop, ⟨?_, ?_⟩⟩
      · simpa [Call.otaWrites, hl.handle] using hw.succeeded
      · simpa [Call.otaWrites, Call.received] using hw.bytes
    | readError | connReset | shortPacket | beginFailed | begunWriteFailed | writeFailed =>
      simp at hfin

/-- A loop that finishes has read nothing and touched no update, or it has
installed what it read. -/
theorem downloadLoop_finished {p : Partition} {l : Loop} {es : List ReadEnv}
    (hl : l.headerChecked = false) (hfin : (downloadLoop p l es).left = some .finished) :
    (received (downloadLoop p l es).calls = [] ∧
      (∀ h, Call.otaBegin p (some h) ∉ (downloadLoop p l es).calls)) ∨
    (received (downloadLoop p l es).calls ≠ [] ∧
      Installs p (downloadLoop p l es).loop.handle (downloadLoop p l es).calls) := by
  induction es generalizing l with
  | nil => simp [downloadLoop] at hfin
  | cons e es ih =>
    generalize hturn : downloadTurn p l e = turn
    have hkind := hturn ▸ downloadTurn_kind p l e
    rw [downloadLoop_cons hturn] at hfin ⊢
    cases hkind with
    | ignored hl' =>
      rcases ih (hl'.checked.trans hl) hfin with ⟨hr, hb⟩ | ⟨hr, ⟨before, after, hc, hb, hw⟩⟩
      · exact .inl ⟨hr, by simpa using hb⟩
      · refine .inr ⟨hr, ⟨.firmwareRead (.data []) :: before, after, ?_, hb, hw⟩⟩
        simp [hc]
    | waiting hl' =>
      rcases ih (hl'.checked.trans hl) hfin with ⟨hr, hb⟩ | ⟨hr, ⟨before, after, hc, hb, hw⟩⟩
      · exact .inl ⟨hr, by simpa using hb⟩
      · refine .inr ⟨hr, ⟨.firmwareRead (.data []) :: .isComplete false :: before, after, ?_,
          hb, hw⟩⟩
        simp [hc]
    | finished hl' => exact .inl ⟨rfl, by simp⟩
    | @begun l' bs h hl' _ hbs =>
      -- the first packet, and from here on the update is open
      obtain ⟨hloop, hw⟩ := downloadLoop_updating hl' hfin
      refine .inr ⟨by simp [Call.received, hbs], ⟨[.firmwareRead (.data bs)],
        .otaWrite h bs true :: (downloadLoop p l' es).calls, ?_, rfl, ?_, ?_⟩⟩
      · simp [hloop.handle]
      · simpa [Call.otaWrites, hloop.handle] using hw.succeeded
      · simpa [Call.otaWrites, Call.received] using hw.bytes
    | written _ hc => simp [hl] at hc
    | readError | connReset | shortPacket | beginFailed | begunWriteFailed | writeFailed =>
      simp at hfin

/-! ## The call of an iteration -/

def Call.isSetBoot : Call → Bool
  | .setBootPartition _ _ => true
  | _ => false

theorem NoFlash.not_isSetBoot {calls : List Call} (h : NoFlash calls) :
    ∀ c ∈ calls, ¬ c.isSetBoot := by
  intro c hc
  have := h c hc
  cases c <;> simp_all [Call.isFlash, Call.isSetBoot]

theorem downloadLoop_not_isSetBoot (p : Partition) (l : Loop) (es : List ReadEnv) :
    ∀ c ∈ (downloadLoop p l es).calls, ¬ c.isSetBoot := by
  induction es generalizing l with
  | nil => simp [downloadLoop]
  | cons e es ih =>
    generalize hturn : downloadTurn p l e = turn
    have hkind := hturn ▸ downloadTurn_kind p l e
    rw [downloadLoop_cons hturn]
    cases hkind <;> simp [Call.isSetBoot] <;> exact fun c hc => by
      simpa [Call.isSetBoot] using ih _ c hc

/-- The download either calls `esp_ota_set_boot_partition` nowhere, or it does so
once, behind the finished loop, the completeness query and the ended update. -/
theorem otaDownload_setBoot (s : OtaState) (e : CycleEnv) (redirected : Bool) :
    (∀ c ∈ (otaDownload s e redirected).calls, ¬ c.isSetBoot) ∨
    ∃ p l ok tail, l.headerChecked = false ∧
      (downloadLoop p l e.reads).left = some .finished ∧ (∀ c ∈ tail, ¬ Call.isSetBoot c) ∧
      (otaDownload s e redirected).calls = (downloadLoop p l e.reads).calls ++
        [.isComplete true, .otaEnd (downloadLoop p l e.reads).loop.handle true] ++
        .setBootPartition p ok :: tail := by
  unfold otaDownload
  cases e.nextPartition with
  | none => exact .inl (by simp)
  | some p =>
    have hloop := downloadLoop_not_isSetBoot p ⟨false, 0, s.updateHandle, s.responseBuffer, 0⟩
      e.reads
    simp only
    split
    · exact .inl hloop
    · next hfin =>
      unfold otaCommit
      split_ifs
      · exact .inl (by simpa [or_imp, forall_and, Call.isSetBoot] using hloop)
      · exact .inl (by simpa [or_imp, forall_and, Call.isSetBoot] using hloop)
      · exact .inr ⟨p, _, false, [], rfl, hfin, by simp, by simp⟩
      · exact .inr ⟨p, _, true, [.postRebootRequired], rfl, hfin, by simp [Call.isSetBoot],
          by simp⟩
    · exact .inl hloop

/-- An iteration that makes `p` the boot partition: the requests, the finished
loop, the second completeness query and the end of the update came before. -/
theorem otaCycle_setBoot {cfg : Config} {s : OtaState} {e : CycleEnv} {p : Partition} {ok : Bool}
    {pre post : List Call}
    (h : (otaCycle cfg s e).calls = pre ++ .setBootPartition p ok :: post) :
    ∃ l front, NoFlash front ∧ l.headerChecked = false ∧
      (downloadLoop p l e.reads).left = some .finished ∧
      pre = front ++ (downloadLoop p l e.reads).calls ++
        [.isComplete true, .otaEnd (downloadLoop p l e.reads).loop.handle true] := by
  have hmem : Call.setBootPartition p ok ∈ (otaCycle cfg s e).calls := by rw [h]; simp
  rcases otaCycle_phased cfg s e with ⟨hq, -⟩ | ⟨hq, -⟩ | ⟨t, front, redirected, hq, -, -, hr⟩
  · exact absurd rfl (hq.not_isSetBoot _ hmem)
  · exact absurd rfl (hq.not_isSetBoot _ hmem)
  rw [hr, CycleResult.after_calls] at h hmem
  rcases otaDownload_setBoot t e redirected with hno | ⟨p', l, ok', tail, hl, hfin, htail, hc⟩
  · rcases List.mem_append.mp hmem with hmem | hmem
    · exact absurd rfl (hq.not_isSetBoot _ hmem)
    · exact absurd rfl (hno _ hmem)
  have hbefore : ∀ c ∈ front ++ (downloadLoop p' l e.reads).calls ++
      [.isComplete true, .otaEnd (downloadLoop p' l e.reads).loop.handle true],
      ¬ c.isSetBoot := by
    simp only [List.mem_append, List.mem_cons, List.not_mem_nil, or_false]
    rintro c ((hc | hc) | rfl | rfl)
    · exact hq.not_isSetBoot c hc
    · exact downloadLoop_not_isSetBoot p' l e.reads c hc
    · simp [Call.isSetBoot]
    · simp [Call.isSetBoot]
  obtain ⟨rfl, hcall, -⟩ := Trace.split_unique (p := fun c => Call.isSetBoot c = true)
    (by simpa [hc] using h) hbefore htail rfl
  obtain ⟨rfl, -⟩ := Call.setBootPartition.inj hcall
  exact ⟨l, front, hq, hl, hfin, rfl⟩

/-! ## Commit soundness -/

theorem Installs.prepend {p : Partition} {h : Handle} {front calls : List Call}
    (hi : Installs p h calls) (hfront : NoFlash front) : Installs p h (front ++ calls) := by
  obtain ⟨before, after, hcalls, hbefore, hw⟩ := hi
  refine ⟨front ++ before, after, by simp [hcalls], by simp [hfront.otaWrites, hbefore], ?_⟩
  simpa [hfront.received] using hw

/-- A call of `esp_ota_set_boot_partition` is justified by its own iteration
exactly when the iteration has read some bytes of the image. -/
theorem justified_iff (cfg : Config) {s : OtaState} {e : CycleEnv} {p : Partition} {ok : Bool}
    {pre post : List Call}
    (hcalls : (otaCycle cfg s e).calls = pre ++ .setBootPartition p ok :: post) :
    Justified p pre ↔ received pre ≠ [] := by
  obtain ⟨l, front, hfront, hl, hfin, rfl⟩ := otaCycle_setBoot hcalls
  have hreceived : received (front ++ (downloadLoop p l e.reads).calls ++
      [.isComplete true, .otaEnd (downloadLoop p l e.reads).loop.handle true])
      = received (downloadLoop p l e.reads).calls := by
    simp [hfront.received, Call.received]
  rw [hreceived]
  rcases downloadLoop_finished hl hfin with ⟨hr, hno⟩ | ⟨hr, hi⟩
  · -- nothing was read: no update was begun either
    refine ⟨?_, fun h => absurd hr h⟩
    rintro ⟨h, body, hbody, ⟨before, after, hsplit, -, -⟩⟩
    obtain ⟨rfl, -⟩ := List.append_inj' hbody rfl
    have hmem : Call.otaBegin p (some h) ∈ front ++ (downloadLoop p l e.reads).calls := by
      rw [hsplit]; simp
    rcases List.mem_append.mp hmem with hmem | hmem
    · simpa [Call.isFlash] using hfront _ hmem
    · exact absurd hmem (hno h)
  · exact ⟨fun _ => hr, fun _ => ⟨_, _, rfl, hi.prepend hfront⟩⟩

/-- The download reads nothing and is told that all data was received. -/
def emptyCycle : CycleEnv := sampleCycle [sampleLocation]
  [{ read := .data [] }, { read := .data [], complete := true }]

/-- The calls of an iteration before it sets the boot partition. -/
def callsBefore (s : OtaState) (e : CycleEnv) : List Call :=
  (otaCycle sampleConfig s e).calls.takeWhile fun c => !c.isSetBoot

/-- A download of one packet justifies its commit. -/
theorem justified_installCycle : Justified 1 (callsBefore .init installCycle) := by
  have hcalls : (otaCycle sampleConfig .init installCycle).calls =
      callsBefore .init installCycle ++ .setBootPartition 1 true :: [.postRebootRequired] := by
    decide +kernel
  exact (justified_iff sampleConfig hcalls).mpr (by decide +kernel)

/-- The state after the broken download. -/
def brokenState : OtaState := (otaRun sampleConfig [brokenCycle]).getD .init

/-- After a download that broke off, an iteration that reads nothing ends the
handle left over and commits the partition. -/
theorem not_justified_emptyCycle :
    ¬ ∀ es s e pre p ok post, otaRun sampleConfig es = some s →
      endsOpen [] (runCalls sampleConfig .init (es ++ [e])) = true →
      (otaCycle sampleConfig s e).calls = pre ++ .setBootPartition p ok :: post →
      Justified p pre := by
  intro h
  have hcalls : (otaCycle sampleConfig brokenState emptyCycle).calls =
      callsBefore brokenState emptyCycle ++ .setBootPartition 1 true :: [.postRebootRequired] := by
    decide +kernel
  have hjust := h [brokenCycle] brokenState emptyCycle _ 1 true _
    (by decide +kernel) (by decide +kernel) hcalls
  obtain ⟨hd, hbegin⟩ := hjust.begins
  have hno : ∀ c ∈ callsBefore brokenState emptyCycle, c.beginsUpdate = false := by
    decide +kernel
  exact Bool.noConfusion (hno _ hbegin)

end HomeNode.Ota
