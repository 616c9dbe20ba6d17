-- SUMMARY: When the two read loops of the OTA task are left, for an infinite sequence of what the peer does.
import HomeNode.Ota.Decision
import HomeNode.Ota.Manifest

/-!
# Leaving the read loops

A peer is an infinite sequence of turns of a read loop. `ManifestStop` and
`DownloadStop` say which turns of it a loop is left at; a peer without such a
turn keeps the task in the loop for ever.
-/

namespace HomeNode.Ota

open Transition

/-- From some turn on nothing is received any more. -/
def FallsSilent (reads : Nat → Read) : Prop :=
  ∃ n, ∀ m, n ≤ m → (reads m).bytes = []

/-! ## The download loop -/

/-- One turn as a step: it must have gone on. -/
def downloadStep (p : Partition) (l : Loop) (e : ReadEnv) : Option Loop :=
  if (downloadTurn p l e).left = none then some (downloadTurn p l e).loop else none

theorem downloadLoop_left_eq_none_iff (p : Partition) (l : Loop) (es : List ReadEnv) :
    (downloadLoop p l es).left = none ↔ run (downloadStep p) l es ≠ none := by
  induction es generalizing l with
  | nil => simp [downloadLoop]
  | cons e es ih =>
    rw [downloadLoop_cons rfl, run_cons, downloadStep]
    cases hleft : (downloadTurn p l e).left with
    | none => simpa using ih _
    | some b => simp [hleft]

/-- The turns at which the download loop is left. -/
inductive DownloadStop (peer : Nat → ReadEnv) (n : Nat) : Prop where
  | readError (h : (peer n).read = .error)
  /-- an empty read that is not the first one -/
  | closed (h : (peer n).read = .data []) (hagain : ∃ m < n, (peer m).read = .data [])
      (hends : (peer n).connReset = true ∨ (peer n).complete = true)
  | writeFailed (h : (peer n).read.bytes ≠ []) (hwrite : (peer n).writeOk = false)
  /-- a first packet that cannot open the update -/
  | notBegun (h : (peer n).read.bytes ≠ []) (hfirst : ∀ m < n, (peer m).read.bytes = [])
      (hbegin : (peer n).read.bytes.length ≤ imageHeaderSize ∨ (peer n).begin = none)

/-- The variables of the loop behind `n` turns. -/
structure Loop.Behind (peer : Nat → ReadEnv) (n : Nat) (l : Loop) : Prop where
  checked : l.headerChecked = true ↔ ∃ m < n, (peer m).read.bytes ≠ []
  attempts : l.attempts = 0 ↔ ∀ m < n, (peer m).read ≠ .data []

theorem Loop.Behind.start (peer : Nat → ReadEnv) {l : Loop} (hchecked : l.headerChecked = false)
    (hattempts : l.attempts = 0) : l.Behind peer 0 :=
  ⟨by simp [hchecked], by simp [hattempts]⟩

section

variable {peer : Nat → ReadEnv} {p : Partition} {n : Nat} {l l' : Loop}

theorem Loop.Behind.unchecked (h : l.Behind peer n) :
    l.headerChecked = false ↔ ∀ m < n, (peer m).read.bytes = [] := by
  rw [← Bool.not_eq_true, h.checked]
  simp

theorem downloadStep_eq_none_iff (h : l.Behind peer n) :
    downloadStep p l (peer n) = none ↔ DownloadStop peer n := by
  have hleft : downloadStep p l (peer n) = none ↔ (downloadTurn p l (peer n)).left ≠ none := by
    simp [downloadStep]
  rw [hleft]
  cases hread : (peer n).read with
  | error => simp [downloadTurn_error hread, DownloadStop.readError hread]
  | data bs =>
    by_cases hbs : bs = []
    · subst hbs
      have hagain : l.attempts ≠ 0 ↔ ∃ m < n, (peer m).read = .data [] := by
        rw [ne_eq, h.attempts]
        simp
      rw [downloadTurn_empty hread, Turn.after_left, ne_eq, handleEmptyRead_left_eq_none_iff]
      constructor
      · intro hstop
        obtain ⟨hne, hends⟩ := Classical.not_imp.mp hstop
        refine .closed hread (hagain.mp hne) ?_
        cases hreset : (peer n).connReset <;> simp_all
      · intro hstop hgo
        cases hstop with
        | readError h => simp [hread] at h
        | closed _ hex hends => simp [hgo (hagain.mpr hex)] at hends
        | writeFailed h | notBegun h => simp [hread, Read.bytes] at h
    · have hbytes : (peer n).read.bytes = bs := by rw [hread]; rfl
      have hlen : imageHeaderSize < (bs.take maxHttpRecvBuffer).length ↔
          imageHeaderSize < bs.length := by
        simp [imageHeaderSize, maxHttpRecvBuffer]
      rw [downloadTurn_packet hread hbs, Turn.after_left, ne_eq, handlePacket_left_eq_none_iff,
        hlen]
      constructor
      · intro hstop
        cases hwrite : (peer n).writeOk with
        | false => exact .writeFailed (by rwa [hbytes]) hwrite
        | true =>
          obtain ⟨hfirst, hbegin⟩ := Classical.not_imp.mp (not_and.mp hstop hwrite)
          refine .notBegun (by rwa [hbytes]) (h.unchecked.mp hfirst) ?_
          rw [hbytes]
          by_cases hlong : imageHeaderSize < bs.length
          · exact .inr (not_not.mp fun hne => hbegin ⟨hlong, hne⟩)
          · exact .inl (not_lt.mp hlong)
      · rintro hstop ⟨hwrite, hgo⟩
        cases hstop with
        | readError h => simp [hread] at h
        | closed h => simp [hread, hbs] at h
        | writeFailed _ hfailed => simp [hwrite] at hfailed
        | notBegun _ hfirst hbegin =>
          obtain ⟨hlong, hne⟩ := hgo (h.unchecked.mpr hfirst)
          rw [hbytes] at hbegin
          rcases hbegin with hshort | hnone
          · exact absurd hlong (not_lt.mpr hshort)
          · exact hne hnone

theorem downloadStep_behind (h : l.Behind peer n) (hstep : downloadStep p l (peer n) = some l') :
    l'.Behind peer (n + 1) := by
  obtain ⟨hleft, rfl⟩ : (downloadTurn p l (peer n)).left = none ∧
      (downloadTurn p l (peer n)).loop = l' := by
    simpa [downloadStep] using hstep
  cases hread : (peer n).read with
  | error => simp [downloadTurn_error hread] at hleft
  | data bs =>
    by_cases hbs : bs = []
    · subst hbs
      rw [downloadTurn_empty hread] at hleft ⊢
      obtain ⟨hchecked, hattempts⟩ :=
        handleEmptyRead_loop { l with buffer := l.buffer.write 0 [] } (peer n)
      have hne := hattempts hleft
      refine ⟨?_, ?_⟩
      · rw [Turn.after_loop, hchecked, Nat.exists_lt_succ_right]
        simp [h.checked, hread, Read.bytes]
      · simp only [Turn.after_loop, hne, false_iff, not_forall, not_not]
        exact ⟨n, n.lt_succ_self, hread⟩
    · rw [downloadTurn_packet hread hbs] at hleft ⊢
      obtain ⟨hattempts, hchecked⟩ := handlePacket_loop p
        { l with buffer := l.buffer.write 0 (bs.take maxHttpRecvBuffer) } (peer n)
        (bs.take maxHttpRecvBuffer)
      refine ⟨?_, ?_⟩
      · simp only [Turn.after_loop, hchecked hleft, true_iff]
        exact ⟨n, n.lt_succ_self, by rw [hread]; exact hbs⟩
      · rw [Turn.after_loop, hattempts, Nat.forall_lt_succ_right]
        simp [h.attempts, hread, hbs]

end

theorem downloadLoop_left_iff (peer : Nat → ReadEnv) (p : Partition) {l : Loop}
    (hchecked : l.headerChecked = false) (hattempts : l.attempts = 0) (n : Nat) :
    (downloadLoop p l (first peer n)).left ≠ none ↔ ∃ m < n, DownloadStop peer m := by
  rw [ne_eq, downloadLoop_left_eq_none_iff, ne_eq, not_not]
  exact run_first_eq_none_iff (Loop.Behind.start peer hchecked hattempts)
    (fun n t h => downloadStep_eq_none_iff h) (fun n t u h => downloadStep_behind h) n

theorem downloadTurn_finished {p : Partition} {l : Loop} {e : ReadEnv}
    (h : (downloadTurn p l e).left = some .finished) :
    e.read = .data [] ∧ e.complete = true := by
  cases hread : e.read with
  | error => simp [downloadTurn_error hread] at h
  | data bs =>
    by_cases hbs : bs = []
    · subst hbs
      rw [downloadTurn_empty hread, Turn.after_left] at h
      exact ⟨rfl, handleEmptyRead_finished h⟩
    · have hkind := handlePacket_left_ne_finished p
        { l with buffer := l.buffer.write 0 (bs.take maxHttpRecvBuffer) } e
        (bs.take maxHttpRecvBuffer)
      rw [downloadTurn_packet hread hbs, Turn.after_left] at h
      exact absurd h hkind

/-- A loop that read the whole file was told so. -/
theorem downloadLoop_left_finished {p : Partition} {l : Loop} {es : List ReadEnv}
    (h : (downloadLoop p l es).left = some .finished) :
    ∃ e ∈ es, e.read = .data [] ∧ e.complete = true := by
  induction es generalizing l with
  | nil => simp [downloadLoop] at h
  | cons e es ih =>
    rw [downloadLoop_cons rfl] at h
    cases hleft : (downloadTurn p l e).left with
    | none =>
      simp only [hleft, Turn.after_left] at h
      obtain ⟨e', he', hfin⟩ := ih h
      exact ⟨e', List.mem_cons_of_mem e he', hfin⟩
    | some b =>
      simp only [hleft, Option.some.injEq] at h
      subst h
      exact ⟨e, List.mem_cons_self, downloadTurn_finished hleft⟩

/-! ## The manifest read loop -/

/-- One turn as a step on the number of bytes read: it must have gone on. -/
def manifestStep (total : Nat) (e : ManifestRead) : Option Nat :=
  match e.read with
  | .error => none
  | .data bs =>
    let bs := bs.take (maxHttpRecvBuffer - total - 1)
    if bs = [] then if e.complete then none else some total
    else if maxHttpRecvBuffer - 1 ≤ total + bs.length then none else some (total + bs.length)

theorem manifestReadLoop_left_eq_none_iff (buffer : CharArray maxHttpRecvBuffer) (total : Nat)
    (es : List ManifestRead) :
    (manifestReadLoop buffer total es).left = none ↔ run manifestStep total es ≠ none := by
  induction es generalizing buffer total with
  | nil => simp [manifestReadLoop]
  | cons e es ih =>
    rw [manifestReadLoop, run_cons, manifestStep]
    cases e.read with
    | error => simp
    | data bs =>
      simp only
      split_ifs
      · simp
      · simpa [ManifestLoop.after] using ih _ _
      · simp
      · simpa [ManifestLoop.after] using ih _ _

/-- The bytes a peer has sent by turn `n`. -/
def sentBy (peer : Nat → ManifestRead) (n : Nat) : List UInt8 :=
  (first peer n).flatMap fun e => e.read.bytes

theorem sentBy_succ (peer : Nat → ManifestRead) (n : Nat) :
    sentBy peer (n + 1) = sentBy peer n ++ (peer n).read.bytes := by
  simp [sentBy, first_succ]

/-- The turns at which the manifest read loop is left. -/
inductive ManifestStop (peer : Nat → ManifestRead) (n : Nat) : Prop where
  | readError (h : (peer n).read = .error)
  | complete (h : (peer n).read = .data []) (hends : (peer n).complete = true)
  | full (h : maxHttpRecvBuffer - 1 ≤ (sentBy peer (n + 1)).length)

/-- The number of bytes the loop has counted behind `n` turns. -/
def CountedBy (peer : Nat → ManifestRead) (n total : Nat) : Prop :=
  total = (sentBy peer n).length ∧ total < maxHttpRecvBuffer - 1

/-- While there is room, a step does not see how much was requested. -/
theorem manifestStep_data {total : Nat} {e : ManifestRead} {bs : List UInt8}
    (hroom : total < maxHttpRecvBuffer - 1) (h : e.read = .data bs) :
    manifestStep total e =
      if bs = [] then if e.complete then none else some total
      else if maxHttpRecvBuffer - 1 ≤ total + bs.length then none else some (total + bs.length) := by
  have hempty : bs.take (maxHttpRecvBuffer - total - 1) = [] ↔ bs = [] := by
    rw [List.take_eq_nil_iff]
    exact or_iff_right (by omega)
  simp only [manifestStep, h, hempty, List.length_take]
  by_cases hfull : maxHttpRecvBuffer - 1 ≤ total + bs.length
  · have hclipped : maxHttpRecvBuffer - 1 ≤
        total + min (maxHttpRecvBuffer - total - 1) bs.length := by omega
    simp only [hfull, hclipped, if_true]
  · have hwhole : min (maxHttpRecvBuffer - total - 1) bs.length = bs.length := by omega
    simp only [hwhole]

section

variable {peer : Nat → ManifestRead} {n total total' : Nat}

theorem manifestStep_eq_none_iff (h : CountedBy peer n total) :
    manifestStep total (peer n) = none ↔ ManifestStop peer n := by
  obtain ⟨htotal, hroom⟩ := h
  cases hread : (peer n).read with
  | error => simp [manifestStep, hread, ManifestStop.readError hread]
  | data bs =>
    have hsent : (sentBy peer (n + 1)).length = total + bs.length := by
      rw [sentBy_succ, hread, List.length_append, htotal]
      rfl
    rw [manifestStep_data hroom hread]
    constructor
    · intro hstop
      split_ifs at hstop with hbs hcomplete hfull
      · exact .complete (by rw [hread, hbs]) hcomplete
      · exact .full (by rwa [hsent])
    · intro hstop
      cases hstop with
      | readError h => simp [hread] at h
      | complete h hends =>
        obtain rfl : bs = [] := by simpa [hread] using h
        simp [hends]
      | full hfull =>
        rw [hsent] at hfull
        have hbs : bs ≠ [] := by
          rintro rfl
          exact absurd hroom (not_lt.mpr hfull)
        rw [if_neg hbs, if_pos hfull]

theorem manifestStep_counted (h : CountedBy peer n total)
    (hstep : manifestStep total (peer n) = some total') : CountedBy peer (n + 1) total' := by
  obtain ⟨htotal, hroom⟩ := h
  cases hread : (peer n).read with
  | error => simp [manifestStep, hread] at hstep
  | data bs =>
    rw [manifestStep_data hroom hread] at hstep
    have hsent : (sentBy peer (n + 1)).length = total + bs.length := by
      rw [sentBy_succ, hread, List.length_append, htotal]
      rfl
    rw [CountedBy, hsent]
    split_ifs at hstep with hbs _ hfull
    · obtain rfl := Option.some.inj hstep
      exact ⟨by simp [hbs], hroom⟩
    · obtain rfl := Option.some.inj hstep
      exact ⟨rfl, not_le.mp hfull⟩

end

theorem manifestReadLoop_left_iff (peer : Nat → ManifestRead)
    (buffer : CharArray maxHttpRecvBuffer) (n : Nat) :
    (manifestReadLoop buffer 0 (first peer n)).left ≠ none ↔ ∃ m < n, ManifestStop peer m := by
  rw [ne_eq, manifestReadLoop_left_eq_none_iff, ne_eq, not_not]
  have hstart : CountedBy peer 0 0 := ⟨rfl, by decide⟩
  exact run_first_eq_none_iff hstart (fun n t h => manifestStep_eq_none_iff h)
    (fun n t u h => manifestStep_counted h) n

/-- A loop that was left without a read error has read the whole response, or all it has
room for. -/
theorem manifestReadLoop_left_true {buffer : CharArray maxHttpRecvBuffer} {total : Nat}
    {es : List ManifestRead} (hroom : total < maxHttpRecvBuffer - 1)
    (h : (manifestReadLoop buffer total es).left = some true) :
    (∃ e ∈ es, e.read = .data [] ∧ e.complete = true) ∨
      maxHttpRecvBuffer - 1 ≤ total + (es.flatMap fun e => e.read.bytes).length := by
  induction es generalizing buffer total with
  | nil => simp [manifestReadLoop] at h
  | cons e es ih =>
    rw [manifestReadLoop] at h
    cases hread : e.read with
    | error => simp [hread] at h
    | data bs =>
      have hempty : bs.take (maxHttpRecvBuffer - total - 1) = [] ↔ bs = [] := by
        rw [List.take_eq_nil_iff]
        exact or_iff_right (by omega)
      have hlen : (bs.take (maxHttpRecvBuffer - total - 1)).length ≤ bs.length :=
        List.length_take_le' _ _
      simp only [hread] at h
      rw [List.flatMap_cons, List.length_append, hread, Read.bytes]
      split_ifs at h with hbs hcomplete hfull
      · exact .inl ⟨e, List.mem_cons_self, by rw [hread, hempty.mp hbs], hcomplete⟩
      · rcases ih hroom h with ⟨e', he', hends⟩ | hsum
        · exact .inl ⟨e', List.mem_cons_of_mem e he', hends⟩
        · exact .inr (by omega)
      · exact .inr (by omega)
      · rcases ih (by omega) h with ⟨e', he', hends⟩ | hsum
        · exact .inl ⟨e', List.mem_cons_of_mem e he', hends⟩
        · exact .inr (by omega)

/-! ## Peers that let the task go -/

/-- Behind an opened connection the fetch returns, and `ESP_OK` only when the response
was complete or filled the buffer. -/
def FetchEnds (cfg : Config) (s : OtaState) (e : FetchEnv) (peer : Nat → ManifestRead) : Prop :=
  ∃ n ok, (fetchOtaManifest cfg s { e with openOk := true, reads := first peer n }).ret = some ok ∧
    (ok = true → (∃ m < n, (peer m).read = .data [] ∧ (peer m).complete = true) ∨
      maxHttpRecvBuffer - 1 ≤ (sentBy peer n).length)

/-- The iteration ends behind the download loop, and commits only when the response was
complete. -/
def DownloadEnds (s : OtaState) (e : CycleEnv) (redirected : Bool) (p : Partition)
    (peer : Nat → ReadEnv) : Prop :=
  ∃ n, let r := otaDownload s { e with nextPartition := some p, reads := first peer n } redirected
    r.exit ≠ .blocked ∧ (r.exit.commits = true →
      ∃ m < n, (peer m).read = .data [] ∧ (peer m).complete = true)

theorem fetchEnds_iff (cfg : Config) (s : OtaState) (e : FetchEnv) (peer : Nat → ManifestRead) :
    FetchEnds cfg s e peer ↔ ∃ n, ManifestStop peer n := by
  have hfetch (n : Nat) := fetchOtaManifest_opened cfg s
    { e with openOk := true, reads := first peer n } rfl
  constructor
  · rintro ⟨n, ok, hret, -⟩
    have hleft := mt (hfetch n).returns.mpr (by simp [hret])
    obtain ⟨m, -, hstop⟩ := (manifestReadLoop_left_iff peer _ n).mp hleft
    exact ⟨m, hstop⟩
  · rintro ⟨m, hstop⟩
    have hleft := (manifestReadLoop_left_iff peer
      (fetchStart s { e with openOk := true, reads := first peer (m + 1) }).responseBuffer
      (m + 1)).mpr ⟨m, m.lt_succ_self, hstop⟩
    obtain ⟨ok, hret⟩ := Option.ne_none_iff_exists'.mp (mt (hfetch (m + 1)).returns.mp hleft)
    refine ⟨m + 1, ok, hret, ?_⟩
    rintro rfl
    have hok := ((hfetch (m + 1)).ok hret).1
    rcases manifestReadLoop_left_true (by decide) hok with ⟨e', he', hends⟩ | hfull
    · obtain ⟨k, hk, rfl⟩ := mem_first.mp he'
      exact .inl ⟨k, hk, hends⟩
    · exact .inr (by simpa [sentBy] using hfull)

theorem downloadEnds_iff (s : OtaState) (e : CycleEnv) (redirected : Bool) (p : Partition)
    (peer : Nat → ReadEnv) :
    DownloadEnds s e redirected p peer ↔ ∃ n, DownloadStop peer n := by
  have hleft (n : Nat) := downloadLoop_left_iff peer p (l := .start s) rfl rfl n
  constructor
  · rintro ⟨n, hexit, -⟩
    rw [otaDownload_eq rfl, ne_eq, otaAfterLoop_exit_eq_blocked_iff] at hexit
    obtain ⟨m, -, hstop⟩ := (hleft n).mp hexit
    exact ⟨m, hstop⟩
  · rintro ⟨m, hstop⟩
    refine ⟨m + 1, ?_, ?_⟩
    · rw [otaDownload_eq rfl, ne_eq, otaAfterLoop_exit_eq_blocked_iff]
      exact (hleft (m + 1)).mpr ⟨m, m.lt_succ_self, hstop⟩
    · rw [otaDownload_eq rfl, otaAfterLoop_commits_iff]
      rintro ⟨hfin, -⟩
      obtain ⟨e', he', hends⟩ := downloadLoop_left_finished hfin
      obtain ⟨k, hk, rfl⟩ := mem_first.mp he'
      exact ⟨k, hk, hends⟩

/-- Whatever a peer does that falls silent, both loops let the task go. -/
def LoopsEnd (cfg : Config) (s : OtaState) (e : CycleEnv) (redirected : Bool) (p : Partition)
    (fetched : Nat → ManifestRead) (downloaded : Nat → ReadEnv) : Prop :=
  (FallsSilent (fun n => (fetched n).read) → FetchEnds cfg s e.manifest fetched) ∧
    (FallsSilent (fun n => (downloaded n).read) → DownloadEnds s e redirected p downloaded)

/-- The loops let the task go exactly when the peer itself ends what it has begun. -/
theorem loopsEnd_iff (cfg : Config) (s : OtaState) (e : CycleEnv) (redirected : Bool)
    (p : Partition) (fetched : Nat → ManifestRead) (downloaded : Nat → ReadEnv) :
    LoopsEnd cfg s e redirected p fetched downloaded ↔
      (FallsSilent (fun n => (fetched n).read) → ∃ n, ManifestStop fetched n) ∧
        (FallsSilent (fun n => (downloaded n).read) → ∃ n, DownloadStop downloaded n) := by
  rw [LoopsEnd, fetchEnds_iff, downloadEnds_iff]

/-- A peer that keeps the connection open and sends nothing. -/
theorem not_loopsEnd_silentPeer :
    ¬ LoopsEnd sampleConfig .init installCycle true 1 (fun _ => ⟨.data [], false⟩)
      (fun _ => { read := .data [] }) := by
  rintro ⟨-, hdownload⟩
  have hsilent : FallsSilent fun _ => .data [] := ⟨0, fun _ _ => rfl⟩
  obtain ⟨n, hstop⟩ := (downloadEnds_iff ..).mp (hdownload hsilent)
  cases hstop with
  | readError h => simp at h
  | closed _ _ hends => simp at hends
  | writeFailed h | notBegun h => simp [Read.bytes] at h

end HomeNode.Ota
