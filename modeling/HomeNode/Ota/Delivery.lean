-- SUMMARY: What the reads of a download deliver, read off the reads themselves.
import HomeNode.Ota.Fragments
import HomeNode.Ota.Provenance

/-!
# What the reads deliver

Three questions about the reads of a download have an answer that needs no run of
the loop: which read is the first one that it does not wait through, whether
that one opens the update, and which image is delivered completely.
-/

namespace HomeNode.Ota

/-- An empty read that the loop waits through; `again` when it is not the first one. -/
def ReadEnv.waits (again : Bool) (e : ReadEnv) : Bool :=
  e.read = .data [] && (!again || (!e.connReset && !e.complete))

/-- The reads from the first one on that the loop does not wait through. -/
def skipWaiting (again : Bool) : List ReadEnv → List ReadEnv
  | [] => []
  | e :: es => if e.waits again then skipWaiting true es else e :: es

/-- A packet that holds the image header. -/
def ReadEnv.holdsHeader (e : ReadEnv) : Bool := imageHeaderSize < e.read.bytes.length

/-- The reads come to `esp_ota_begin`. -/
def beginsUpdate (es : List ReadEnv) : Bool := (skipWaiting false es).head?.any (·.holdsHeader)

/-- The reads come to `esp_ota_write`. -/
def opensUpdate (es : List ReadEnv) : Bool :=
  (skipWaiting false es).head?.any fun e => e.holdsHeader && e.begin.isSome

/-- The image that the reads deliver, when it is delivered completely and the flash takes
it. `checked` when the header was seen. -/
def delivery (again checked : Bool) : List ReadEnv → Option (List UInt8)
  | [] => none
  | e :: es =>
    match e.read with
    | .error => none
    | .data bs =>
      if bs = [] then
        if !again then delivery true checked es
        else if e.connReset then none
        else if e.complete then some []
        else delivery true checked es
      else if e.writeOk && (checked || (imageHeaderSize < bs.length && e.begin.isSome)) then
        (delivery again true es).map (bs.take maxHttpRecvBuffer ++ ·)
      else none

/-- The image of a whole download. -/
def delivered (es : List ReadEnv) : Option (List UInt8) := delivery false false es

section

variable {p : Partition} {l : Loop} {e : ReadEnv} {es : List ReadEnv}

/-! ## The first read that counts -/

/-- A waiting turn makes no call but the read and a completeness query. -/
structure Turn.Waits (turn : Turn) (l : Loop) : Prop where
  left : turn.left = none
  checked : turn.loop.headerChecked = l.headerChecked
  attempts : turn.loop.attempts ≠ 0
  calls : ∀ c ∈ turn.calls, c = .firmwareRead (.data []) ∨ c = .isComplete false

theorem downloadTurn_waiting (h : e.waits (l.attempts ≠ 0) = true) :
    (downloadTurn p l e).Waits l := by
  obtain ⟨hread, hquiet⟩ : e.read = .data [] ∧
      (l.attempts = 0 ∨ e.connReset = false ∧ e.complete = false) := by
    simpa [ReadEnv.waits] using h
  rw [downloadTurn_empty hread, handleEmptyRead]
  by_cases hfirst : l.attempts = 0
  · rw [if_pos hfirst]
    exact ⟨rfl, rfl, Nat.one_ne_zero, by simp⟩
  · obtain ⟨hreset, hcomplete⟩ := hquiet.resolve_left hfirst
    rw [if_neg hfirst, hreset, hcomplete]
    exact ⟨rfl, rfl, hfirst, by simp⟩

/-- The loop stands where it stood, up to the attempts, when it comes to the first read
that counts. -/
theorem downloadLoop_skipWaiting (p : Partition) (l : Loop) (es : List ReadEnv) :
    ∃ l' front, downloadLoop p l es =
        (downloadLoop p l' (skipWaiting (l.attempts ≠ 0) es)).after front ∧
      l'.headerChecked = l.headerChecked ∧
      (∀ c ∈ front, c = .firmwareRead (.data []) ∨ c = .isComplete false) ∧
      ∀ e ∈ (skipWaiting (l.attempts ≠ 0) es).head?, e.waits (l'.attempts ≠ 0) = false := by
  induction es generalizing l with
  | nil => exact ⟨l, [], rfl, rfl, by simp, by simp [skipWaiting]⟩
  | cons e es ih =>
    rw [skipWaiting]
    cases hwaits : e.waits (l.attempts ≠ 0) with
    | false => exact ⟨l, [], rfl, rfl, by simp, by simpa using hwaits⟩
    | true =>
      have hturn := downloadTurn_waiting (p := p) hwaits
      obtain ⟨l', front, heq, hchecked, hfront, hhead⟩ := ih (downloadTurn p l e).loop
      have hagain : decide ((downloadTurn p l e).loop.attempts ≠ 0) = true :=
        decide_eq_true hturn.attempts
      rw [hagain] at heq hhead
      refine ⟨l', (downloadTurn p l e).calls ++ front, ?_, hchecked.trans hturn.checked, ?_, hhead⟩
      · rw [downloadLoop_cons rfl]
        simp only [hturn.left, heq]
        simp [Turn.after]
      · intro c hc
        rcases List.mem_append.mp hc with hc | hc
        · exact hturn.calls c hc
        · exact hfront c hc

/-! ## The delivered image -/

theorem downloadTurn_attempts (h : e.read.bytes ≠ []) :
    (downloadTurn p l e).loop.attempts = l.attempts := by
  cases hread : e.read with
  | error => simp [hread, Read.bytes] at h
  | data bs =>
    have hbs : bs ≠ [] := by simpa [hread, Read.bytes] using h
    rw [downloadTurn_packet hread hbs, Turn.after_loop]
    exact (handlePacket_loop p _ e _).1

/-- What the loop has done when it comes to the end of the reads, by what they deliver. -/
structure Turn.Delivers (turn : Turn) (img : Option (List UInt8)) : Prop where
  finished : turn.left = some .finished ↔ img.isSome = true
  written : ∀ bs ∈ img, writtenBytes turn.calls = bs

/-- A turn that leaves the loop without having finished. -/
theorem Turn.Hands.fails {b : Break} {c : Bool} {bs : List UInt8}
    (h : (downloadTurn p l e).Hands (some b) c bs) (es : List ReadEnv) (hb : b ≠ .finished) :
    (downloadLoop p l (e :: es)).Delivers none := by
  refine ⟨?_, by simp⟩
  rw [h.stop.left]
  simpa using hb

/-- A turn that goes on. -/
theorem Turn.Hands.goes {c : Bool} {bs : List UInt8} {img : Option (List UInt8)}
    (h : (downloadTurn p l e).Hands none c bs)
    (hrest : (downloadLoop p (downloadTurn p l e).loop es).Delivers img) :
    (downloadLoop p l (e :: es)).Delivers (img.map (bs ++ ·)) := by
  rw [downloadLoop_cons rfl]
  simp only [h.left]
  refine ⟨by simpa using hrest.finished, ?_⟩
  rintro _ himg
  obtain ⟨cs, hcs, rfl⟩ := Option.mem_map.mp himg
  simp [h.written, hrest.written cs hcs]

/-- An empty read: the first one is ignored, a later one may end the loop. -/
theorem downloadLoop_delivers_empty (hread : e.read = .data [])
    (hrest : (downloadLoop p (downloadTurn p l e).loop es).Delivers (delivery
      ((downloadTurn p l e).loop.attempts ≠ 0) (downloadTurn p l e).loop.headerChecked es)) :
    (downloadLoop p l (e :: es)).Delivers
      (delivery (l.attempts ≠ 0) l.headerChecked (e :: es)) := by
  rw [delivery, hread]
  by_cases hfirst : l.attempts = 0
  · obtain ⟨hturn, hattempts⟩ := downloadTurn_ignored (p := p) hread hfirst
    rw [hturn.checked, decide_eq_true hattempts] at hrest
    simpa [hfirst] using hturn.goes hrest
  · obtain ⟨hturn, hattempts⟩ := downloadTurn_again (p := p) (e := e) (by rw [hread]; rfl) hfirst
    rw [hturn.checked, hattempts, decide_eq_true hfirst] at hrest
    simp only [ReadEnv.finalBreak, hread] at hturn
    simp only [hfirst, ne_eq, not_false_eq_true, decide_true, Bool.not_true,
      Bool.false_eq_true, if_false, if_true]
    cases hreset : e.connReset with
    | true =>
      rw [hreset, if_pos rfl] at hturn
      exact hturn.fails es (by simp)
    | false =>
      cases hcomplete : e.complete with
      | true =>
        rw [hreset, hcomplete, if_neg Bool.false_ne_true, if_pos rfl] at hturn
        have hstop : (downloadLoop p l (e :: es)).Hands (some .finished) _ [] := hturn.stop
        exact ⟨by simp [hstop.left], by simp [hstop.written]⟩
      | false =>
        rw [hreset, hcomplete, if_neg Bool.false_ne_true, if_neg Bool.false_ne_true] at hturn
        simpa using hturn.goes hrest

/-- A packet: the first one begins the update, and each of them is written. -/
theorem downloadLoop_delivers_packet {bs : List UInt8} (hread : e.read = .data bs) (hbs : bs ≠ [])
    (hrest : (downloadLoop p (downloadTurn p l e).loop es).Delivers (delivery
      ((downloadTurn p l e).loop.attempts ≠ 0) (downloadTurn p l e).loop.headerChecked es)) :
    (downloadLoop p l (e :: es)).Delivers
      (delivery (l.attempts ≠ 0) l.headerChecked (e :: es)) := by
  have hpos : 0 < bs.length := List.length_pos_iff.mpr hbs
  rw [downloadTurn_attempts (p := p) (l := l) (e := e) (by rw [hread]; exact hbs)] at hrest
  rw [delivery, hread]
  simp only [hbs, if_false]
  cases hchecked : l.headerChecked with
  | true =>
    have hturn := downloadTurn_write (p := p) hread hpos hchecked
    rw [hturn.checked] at hrest
    cases hwrite : e.writeOk with
    | false =>
      rw [hwrite, if_neg Bool.false_ne_true] at hturn
      exact hturn.fails es (by simp)
    | true =>
      rw [hwrite, if_pos rfl] at hturn
      simpa using hturn.goes hrest
  | false =>
    by_cases hlong : imageHeaderSize < bs.length
    case neg =>
      have hturn := downloadTurn_short (p := p) hread hpos (not_lt.mp hlong) hchecked
      simpa [hlong] using hturn.fails es (by simp)
    have hturn := downloadTurn_begin (p := p) hread hlong hchecked
    rw [hturn.checked] at hrest
    cases hbegin : e.begin with
    | none =>
      rw [hbegin, if_pos rfl] at hturn
      simpa using hturn.fails es (by simp)
    | some h =>
      rw [hbegin, if_neg (by simp)] at hturn
      cases hwrite : e.writeOk with
      | false =>
        rw [hwrite, if_neg Bool.false_ne_true] at hturn
        simpa using hturn.fails es (by simp)
      | true =>
        rw [hwrite, if_pos rfl, if_neg (by simp)] at hturn
        simpa [hlong] using hturn.goes hrest

theorem downloadLoop_delivers (p : Partition) (l : Loop) (es : List ReadEnv) :
    (downloadLoop p l es).Delivers (delivery (l.attempts ≠ 0) l.headerChecked es) := by
  induction es generalizing l with
  | nil => exact ⟨by simp [downloadLoop, delivery], by simp [delivery]⟩
  | cons e es ih =>
    have hrest := ih (downloadTurn p l e).loop
    cases hread : e.read with
    | error =>
      have hturn : (downloadTurn p l e).Hands (some .readError) l.headerChecked [] := by
        rw [downloadTurn_error hread]
        exact ⟨rfl, rfl, rfl⟩
      rw [delivery, hread]
      exact hturn.fails es (by simp)
    | data bs =>
      by_cases hbs : bs = []
      · subst hbs
        exact downloadLoop_delivers_empty hread hrest
      · exact downloadLoop_delivers_packet hread hbs hrest

/-! ## The first packet -/

def Call.isOtaBegin : Call → Bool
  | .otaBegin _ _ => true
  | _ => false

/-- A read that the loop does not wait through and that does not hold the header ends the
loop before the update. -/
theorem downloadTurn_headless (hchecked : l.headerChecked = false)
    (hwaits : e.waits (l.attempts ≠ 0) = false) (hhead : e.holdsHeader = false) :
    ∃ b, (downloadTurn p l e).Hands (some b) false [] ∧
      ∀ c ∈ (downloadTurn p l e).calls, c.isOtaBegin = false := by
  cases hread : e.read with
  | error =>
    rw [downloadTurn_error hread]
    exact ⟨_, ⟨rfl, hchecked, rfl⟩, by simp [Call.isOtaBegin]⟩
  | data bs =>
    by_cases hbs : bs = []
    · subst hbs
      obtain ⟨hagain, hends⟩ : l.attempts ≠ 0 ∧ (e.connReset = false → e.complete = true) := by
        simpa [ReadEnv.waits, hread] using hwaits
      rw [downloadTurn_empty hread, handleEmptyRead, if_neg hagain]
      cases hreset : e.connReset with
      | true => exact ⟨_, ⟨rfl, hchecked, rfl⟩, by simp [Call.isOtaBegin]⟩
      | false =>
        rw [hends hreset]
        exact ⟨_, ⟨rfl, hchecked, rfl⟩, by simp [Call.isOtaBegin]⟩
    · have hpos : 0 < bs.length := List.length_pos_iff.mpr hbs
      have hshort : bs.length ≤ imageHeaderSize := by
        simpa [ReadEnv.holdsHeader, hread, Read.bytes] using hhead
      refine ⟨_, downloadTurn_short hread hpos hshort hchecked, ?_⟩
      rw [downloadTurn_packet hread hbs, handlePacket, if_neg (by simp [hchecked]),
        if_neg (mt headerSize_lt_take.mp (not_lt.mpr hshort))]
      simp [Call.isOtaBegin]

/-- A packet with the header begins the update. -/
theorem downloadTurn_otaBegin (hchecked : l.headerChecked = false) (hhead : e.holdsHeader = true) :
    .otaBegin p e.begin ∈ (downloadTurn p l e).calls := by
  have hlong : imageHeaderSize < e.read.bytes.length := by
    simpa [ReadEnv.holdsHeader] using hhead
  cases hread : e.read with
  | error => simp [hread, Read.bytes] at hlong
  | data bs =>
    rw [hread, Read.bytes] at hlong
    have hbs : bs ≠ [] := List.ne_nil_of_length_pos (Nat.zero_lt_of_lt hlong)
    rw [downloadTurn_packet hread hbs, handlePacket, if_neg (by simp [hchecked]),
      if_pos (headerSize_lt_take.mpr hlong)]
    cases e.begin <;> simp

/-- It is written if `esp_ota_begin` succeeds. -/
theorem downloadLoop_header_writes (hchecked : l.headerChecked = false)
    (hhead : e.holdsHeader = true) :
    writtenBytes (downloadLoop p l (e :: es)).calls = [] ↔ e.begin.isSome = false := by
  have hlong : imageHeaderSize < e.read.bytes.length := by
    simpa [ReadEnv.holdsHeader] using hhead
  cases hread : e.read with
  | error => simp [hread, Read.bytes] at hlong
  | data bs =>
    rw [hread, Read.bytes] at hlong
    have hturn := downloadTurn_begin (p := p) hread hlong hchecked
    have hne : bs.take maxHttpRecvBuffer ≠ [] :=
      List.ne_nil_of_length_pos (Nat.zero_lt_of_lt (headerSize_lt_take.mpr hlong))
    cases hbegin : e.begin with
    | none =>
      rw [hbegin, if_pos rfl, if_pos rfl] at hturn
      simp [hturn.stop.written]
    | some h =>
      simp only [hbegin, reduceCtorEq, if_false] at hturn
      cases hwrite : e.writeOk with
      | false =>
        rw [hwrite, if_neg Bool.false_ne_true] at hturn
        simp [hturn.stop.written, hne]
      | true =>
        rw [hwrite, if_pos rfl] at hturn
        rw [downloadLoop_cons rfl]
        simp only [hturn.left, Turn.after_calls, writtenBytes_append, hturn.written]
        simp [hne]

theorem waiting_quiet {front : List Call}
    (h : ∀ c ∈ front, c = .firmwareRead (.data []) ∨ c = .isComplete false) :
    writtenBytes front = [] ∧ ∀ c ∈ front, c.isOtaBegin = false := by
  refine ⟨?_, fun c hc => ?_⟩
  · have hnone : otaWrites front = [] := List.flatMap_eq_nil_iff.mpr fun c hc => by
      rcases h c hc with rfl | rfl <;> rfl
    rw [writtenBytes, hnone, List.flatMap_nil]
  · rcases h c hc with rfl | rfl <;> rfl

/-- The loop hands something to the flash exactly when the reads open the update, and it
comes to `esp_ota_begin` exactly when they do. -/
theorem downloadLoop_first (p : Partition) (l : Loop) (es : List ReadEnv)
    (hchecked : l.headerChecked = false) (hattempts : l.attempts = 0) :
    (writtenBytes (downloadLoop p l es).calls = [] ↔ opensUpdate es = false) ∧
      ((∃ c ∈ (downloadLoop p l es).calls, c.isOtaBegin = true) ↔ beginsUpdate es = true) := by
  obtain ⟨l', front, heq, hl', hfront, hhead⟩ := downloadLoop_skipWaiting p l es
  have hagain : decide (l.attempts ≠ 0) = false := by simp [hattempts]
  rw [hagain] at heq hhead
  obtain ⟨hquiet, hno⟩ := waiting_quiet hfront
  have hbegin (cs : List Call) :
      (∃ c ∈ front ++ cs, c.isOtaBegin = true) ↔ ∃ c ∈ cs, c.isOtaBegin = true := by
    apply Trace.exists_mem_append_iff
    exact fun c hc => by simp [hno c hc]
  rw [opensUpdate, beginsUpdate, heq, Turn.after_calls, writtenBytes_append, hquiet,
    List.nil_append, hbegin]
  cases hes : skipWaiting false es with
  | nil => simp [downloadLoop]
  | cons e rest =>
    rw [hes, List.head?_cons] at hhead
    have hchecked' : l'.headerChecked = false := hl'.trans hchecked
    simp only [List.head?_cons, Option.any_some]
    cases hholds : e.holdsHeader with
    | false =>
      obtain ⟨b, hturn, hcalls⟩ := downloadTurn_headless (p := p) hchecked' (hhead e rfl) hholds
      have hstop : downloadLoop p l' (e :: rest) = downloadTurn p l' e := by
        rw [downloadLoop_cons rfl]
        simp only [hturn.left]
      rw [hstop]
      refine ⟨by simp [hturn.written], ?_⟩
      simp only [Bool.false_eq_true, iff_false, not_exists, not_and]
      intro c hc hb
      simp [hcalls c hc] at hb
    | true =>
      have hmem : Call.otaBegin p e.begin ∈ (downloadLoop p l' (e :: rest)).calls := by
        have hturn := downloadTurn_otaBegin (p := p) hchecked' hholds
        rw [downloadLoop_cons rfl]
        cases (downloadTurn p l' e).left with
        | none => exact List.mem_append_left _ hturn
        | some b => exact hturn
      refine ⟨?_, by simpa using ⟨_, hmem, rfl⟩⟩
      rw [Bool.true_and]
      exact downloadLoop_header_writes hchecked' hholds

end

/-! ## The iteration -/

/-- The manifest is there, and it announces a version that is newer and was not found
invalid: the firmware is requested. -/
def requestsFirmware (cfg : Config) (s : OtaState) (e : CycleEnv) : Bool :=
  let fetch := fetchOtaManifest cfg s e.manifest
  let version := fetch.state.manifest.version.str
  fetch.ret = some true && detectLastInvalidApp e.lastInvalid version ≠ .invalidVersion &&
    isUpdateAvailable e.running version

/-- The answer to the firmware request is taken for a redirect. -/
def takesRedirect (cfg : Config) (s : OtaState) (e : CycleEnv) : Bool :=
  (fetchOtaManifest cfg s e.manifest).state.expectRedirect || anyLocation e.performHeaders

/-- The iteration gets as far as the choice of the partition. -/
def entersDownload (cfg : Config) (s : OtaState) (e : CycleEnv) : Bool :=
  requestsFirmware cfg s e && e.performOk && (!takesRedirect cfg s e || e.redirectOpenOk)

section

variable {cfg : Config} {s : OtaState} {e : CycleEnv}

theorem CycleResult.after_after (cs ds : List Call) (r : CycleResult) :
    (r.after cs).after ds = r.after (ds ++ cs) := by
  simp [CycleResult.after]

theorem otaRedirect_enters {u : OtaState} (h : (!u.expectRedirect || e.redirectOpenOk) = true) :
    ∃ t front, NoFlash front ∧ otaRedirect u e = (otaDownload t e u.expectRedirect).after front := by
  unfold otaRedirect
  cases hflag : u.expectRedirect with
  | false => exact ⟨u, [], .nil, rfl⟩
  | true =>
    have hopen : e.redirectOpenOk = true := by simpa [hflag] using h
    rw [if_pos rfl, hopen]
    exact ⟨_, _, .cons rfl (.cons rfl (.cons rfl (.cons rfl .nil))), rfl⟩

theorem otaUpdate_of_requests (h : requestsFirmware cfg s e = true) :
    otaUpdate cfg s e =
      (otaRequest (fetchOtaManifest cfg s e.manifest).state e).after
        (fetchOtaManifest cfg s e.manifest).calls := by
  obtain ⟨⟨hret, hvalid⟩, hnewer⟩ :
      ((fetchOtaManifest cfg s e.manifest).ret = some true ∧
        detectLastInvalidApp e.lastInvalid
          (fetchOtaManifest cfg s e.manifest).state.manifest.version.str ≠ .invalidVersion) ∧
        isUpdateAvailable e.running
          (fetchOtaManifest cfg s e.manifest).state.manifest.version.str = true := by
    simpa [requestsFirmware] using h
  unfold otaUpdate
  simp only [hret, hvalid, hnewer, if_false, Bool.not_true, Bool.false_eq_true]

theorem takesRedirect_eq :
    (deliverHeaders (fetchOtaManifest cfg s e.manifest).state e.performHeaders).expectRedirect =
      takesRedirect cfg s e :=
  deliverHeaders_expectRedirect _ _

theorem otaUpdate_enters (h : entersDownload cfg s e = true) :
    ∃ t front, NoFlash front ∧
      otaUpdate cfg s e = (otaDownload t e (takesRedirect cfg s e)).after front := by
  obtain ⟨⟨hrequests, hperform⟩, hopen⟩ : (requestsFirmware cfg s e = true ∧ e.performOk = true) ∧
      (!takesRedirect cfg s e || e.redirectOpenOk) = true := by
    simpa [entersDownload] using h
  have hfetch : NoFlash (fetchOtaManifest cfg s e.manifest).calls :=
    (fetchOtaManifest_noFlash cfg s e.manifest).1
  rw [← takesRedirect_eq] at hopen ⊢
  obtain ⟨t, front, hfront, heq⟩ := otaRedirect_enters hopen
  rw [otaUpdate_of_requests hrequests, otaRequest]
  simp only [hperform, Bool.not_true, Bool.false_eq_true, if_false, heq]
  rw [CycleResult.after_after, CycleResult.after_after]
  refine ⟨t, _, .append (.append hfetch ?_) hfront, rfl⟩
  exact .cons rfl (.cons rfl (.cons rfl .nil))

/-- The exits that come before the choice of the partition. -/
def Exit.beforeDownload (x : Exit) : Prop := x = .blocked ∨ x.early = true

theorem Exit.beforeDownload.not_commits {x : Exit} (h : x.beforeDownload) : x.commits = false := by
  rcases h with rfl | h
  · rfl
  · cases x <;> first | rfl | simp [Exit.early] at h

theorem otaUpdate_of_not_requests (h : requestsFirmware cfg s e = false) :
    (otaUpdate cfg s e).calls = (fetchOtaManifest cfg s e.manifest).calls ∧
      (otaUpdate cfg s e).exit.beforeDownload := by
  unfold otaUpdate
  cases hret : (fetchOtaManifest cfg s e.manifest).ret with
  | none => simp [hret, Exit.beforeDownload]
  | some ok =>
    cases ok with
    | false => simp [hret, Exit.beforeDownload, Exit.early]
    | true =>
      simp only [hret]
      split_ifs with hinvalid hnewer
      · exact ⟨rfl, .inr rfl⟩
      · exact ⟨rfl, .inr rfl⟩
      · simp [requestsFirmware, hret, hinvalid] at h
        simp [h] at hnewer

theorem otaUpdate_not_enters (h : entersDownload cfg s e = false) :
    NoFlash (otaUpdate cfg s e).calls ∧ (otaUpdate cfg s e).exit.beforeDownload := by
  have hfetch : NoFlash (fetchOtaManifest cfg s e.manifest).calls :=
    (fetchOtaManifest_noFlash cfg s e.manifest).1
  cases hrequests : requestsFirmware cfg s e with
  | false =>
    obtain ⟨hcalls, hexit⟩ := otaUpdate_of_not_requests hrequests
    exact ⟨hcalls ▸ hfetch, hexit⟩
  | true =>
    rw [otaUpdate_of_requests hrequests, otaRequest]
    cases hperform : e.performOk with
    | false => exact ⟨hfetch.append (.cons rfl (.cons rfl (.cons rfl .nil))), .inr rfl⟩
    | true =>
      obtain ⟨hflag, hopen⟩ : takesRedirect cfg s e = true ∧ e.redirectOpenOk = false := by
        simpa [entersDownload, hrequests, hperform] using h
      rw [← takesRedirect_eq] at hflag
      simp only [Bool.not_true, Bool.false_eq_true, if_false, otaRedirect, hflag, hopen,
        Bool.not_false, if_true]
      exact ⟨hfetch.append (.cons rfl (.cons rfl (.cons rfl (.cons rfl (.cons rfl (.cons rfl
        (.cons rfl .nil))))))), .inr rfl⟩

/-- The iteration gets as far as the download loop. -/
def reachesLoop (cfg : Config) (s : OtaState) (e : CycleEnv) : Bool :=
  entersDownload cfg s e && e.nextPartition.isSome

/-- An iteration that comes to the loop is requests, the loop, and what follows it. -/
theorem otaUpdate_reaches (h : reachesLoop cfg s e = true) :
    ∃ p t front, NoFlash front ∧ e.nextPartition = some p ∧
      otaUpdate cfg s e = (otaAfterLoop t e (takesRedirect cfg s e) p
        (downloadLoop p (.start t) e.reads)).after front := by
  obtain ⟨henters, hpartition⟩ : entersDownload cfg s e = true ∧ e.nextPartition.isSome = true := by
    simpa [reachesLoop] using h
  obtain ⟨p, hp⟩ := Option.isSome_iff_exists.mp hpartition
  obtain ⟨t, front, hfront, heq⟩ := otaUpdate_enters henters
  exact ⟨p, t, front, hfront, hp, by rw [heq, otaDownload_eq hp]⟩

/-- Any other one is requests only. -/
theorem otaUpdate_not_reaches (h : reachesLoop cfg s e = false) :
    NoFlash (otaUpdate cfg s e).calls ∧ (otaUpdate cfg s e).exit.commits = false := by
  cases henters : entersDownload cfg s e with
  | false =>
    obtain ⟨hcalls, hexit⟩ := otaUpdate_not_enters henters
    exact ⟨hcalls, hexit.not_commits⟩
  | true =>
    have hp : e.nextPartition = none := by simpa [reachesLoop, henters] using h
    obtain ⟨t, front, hfront, heq⟩ := otaUpdate_enters henters
    rw [heq, otaDownload, hp]
    exact ⟨hfront.append .nil, rfl⟩

/-- An iteration commits exactly when its reads deliver an image and the calls behind the
loop succeed. -/
theorem otaUpdate_commits_iff :
    (otaUpdate cfg s e).exit.commits = true ↔
      reachesLoop cfg s e = true ∧ (delivered e.reads).isSome = true ∧ e.commitOk = true := by
  cases hreaches : reachesLoop cfg s e with
  | false => simp [(otaUpdate_not_reaches hreaches).2]
  | true =>
    obtain ⟨p, t, front, -, -, heq⟩ := otaUpdate_reaches hreaches
    have hloop := (downloadLoop_delivers p (.start t) e.reads).finished
    rw [heq, CycleResult.after_exit, otaAfterLoop_commits_iff, hloop]
    simp [Loop.start, delivered]

/-- When it commits, it has handed over the delivered image. -/
theorem otaUpdate_written {img : List UInt8} (hreaches : reachesLoop cfg s e = true)
    (hdelivered : delivered e.reads = some img) : writtenBytes (otaUpdate cfg s e).calls = img := by
  obtain ⟨p, t, front, hfront, -, heq⟩ := otaUpdate_reaches hreaches
  have hloop := (downloadLoop_delivers p (.start t) e.reads).written img (by
    simpa [Loop.start, delivered] using hdelivered)
  rw [heq, CycleResult.after_calls, writtenBytes, otaWrites_append, hfront.otaWrites,
    List.nil_append, otaAfterLoop_otaWrites, ← writtenBytes, hloop]

theorem downloadLoop_otaBegin (p : Partition) (l : Loop) (es : List ReadEnv) :
    ∀ c ∈ (downloadLoop p l es).calls, c.isOtaBegin = true → ∃ h, c = .otaBegin p h := by
  induction es generalizing l with
  | nil => simp [downloadLoop]
  | cons e es ih =>
    generalize hturn : downloadTurn p l e = turn
    have hkind := hturn ▸ downloadTurn_kind p l e
    rw [downloadLoop_cons hturn]
    cases hkind <;> simp [Call.isOtaBegin] <;> exact ih _

theorem otaAfterLoop_calls (s : OtaState) (e : CycleEnv) (redirected : Bool) (p : Partition)
    (turn : Turn) :
    ∃ rest, (otaAfterLoop s e redirected p turn).calls = turn.calls ++ rest ∧
      ∀ c ∈ rest, c.isOtaBegin = false := by
  unfold otaAfterLoop
  cases turn.left with
  | none => exact ⟨[], by simp, by simp⟩
  | some b =>
    cases b with
    | finished =>
      refine ⟨_, rfl, ?_⟩
      unfold otaCommit
      split_ifs <;> simp [Call.isOtaBegin]
    | readError | shortPacket | beginFailed | writeFailed | connReset =>
      exact ⟨[], by simp, by simp⟩

/-- The calls of an iteration: first those that may begin an update, of its partition, and
then those that may commit it. -/
theorem otaUpdate_calls (cfg : Config) (s : OtaState) (e : CycleEnv) :
    ∃ before after, (otaUpdate cfg s e).calls = before ++ after ∧
      (∀ c ∈ before, ¬ c.isSetBoot) ∧ (∀ c ∈ after, c.isOtaBegin = false) ∧
      (∀ c ∈ before, c.isOtaBegin = true → ∃ p h, c = .otaBegin p h ∧ e.nextPartition = some p) ∧
      ((∃ c ∈ before, c.isOtaBegin = true) ↔
        reachesLoop cfg s e = true ∧ beginsUpdate e.reads = true) := by
  have hquiet {cs : List Call} (h : NoFlash cs) :
      (∀ c ∈ cs, ¬ c.isSetBoot) ∧ ∀ c ∈ cs, c.isOtaBegin = false := by
    refine ⟨h.not_isSetBoot, fun c hc => ?_⟩
    have := h c hc
    cases c <;> simp_all [Call.isFlash, Call.isOtaBegin]
  cases hreaches : reachesLoop cfg s e with
  | false =>
    obtain ⟨hboot, hbegin⟩ := hquiet (otaUpdate_not_reaches hreaches).1
    refine ⟨_, [], (List.append_nil _).symm, hboot, by simp, ?_, ?_⟩
    · exact fun c hc h => by simp [hbegin c hc] at h
    · simp only [Bool.false_eq_true, false_and, iff_false, not_exists, not_and]
      exact fun c hc => by simp [hbegin c hc]
  | true =>
    obtain ⟨p, t, front, hfront, hp, heq⟩ := otaUpdate_reaches hreaches
    obtain ⟨hboot, hbegin⟩ := hquiet hfront
    obtain ⟨rest, hrest, hnobegin⟩ := otaAfterLoop_calls t e (takesRedirect cfg s e) p
      (downloadLoop p (.start t) e.reads)
    have hfirst := (downloadLoop_first p (.start t) e.reads rfl rfl).2
    refine ⟨front ++ (downloadLoop p (.start t) e.reads).calls, rest, ?_, ?_, hnobegin, ?_, ?_⟩
    · rw [heq, CycleResult.after_calls, hrest, List.append_assoc]
    · intro c hc
      rcases List.mem_append.mp hc with hc | hc
      · exact hboot c hc
      · exact downloadLoop_not_isSetBoot p _ e.reads c hc
    · intro c hc h
      rcases List.mem_append.mp hc with hc | hc
      · simp [hbegin c hc] at h
      · obtain ⟨hd, rfl⟩ := downloadLoop_otaBegin p _ e.reads c hc h
        exact ⟨p, hd, rfl, hp⟩
    · simp only [true_and]
      rw [← hfirst]
      apply Trace.exists_mem_append_iff
      exact fun c hc => by simp [hbegin c hc]

end

/-! ## Behind the gate -/

/-- The state in which the gate lets an iteration on. -/
abbrev OtaState.cleared (s : OtaState) : OtaState := { s with updatePending := false }

theorem otaCycle_open (cfg : Config) (s : OtaState) {e : CycleEnv}
    (h : e.validationPending = false) : otaCycle cfg s e = otaUpdate cfg s.cleared e := by
  rw [otaCycle, h, if_neg Bool.false_ne_true]

/-- The image that the inputs of an iteration bring to `esp_ota_set_boot_partition`. -/
def committable (cfg : Config) (s : OtaState) (e : CycleEnv) : Option (List UInt8) :=
  if !e.validationPending && reachesLoop cfg s.cleared e && e.completeAfter && e.endOk then
    delivered e.reads
  else none

section

variable {cfg : Config} {s : OtaState} {e : CycleEnv}

theorem committable_eq_some {img : List UInt8} :
    committable cfg s e = some img ↔ e.validationPending = false ∧
      reachesLoop cfg s.cleared e = true ∧ (e.completeAfter = true ∧ e.endOk = true) ∧
        delivered e.reads = some img := by
  simp [committable, and_assoc]

/-- An iteration calls `esp_ota_set_boot_partition` exactly when its inputs bring an
image there. -/
theorem otaCycle_setBoot_iff :
    (∃ c ∈ (otaCycle cfg s e).calls, c.isSetBoot = true) ↔ (committable cfg s e).isSome = true := by
  cases hgate : e.validationPending with
  | true => simp [otaCycle, committable, hgate]
  | false =>
    rw [otaCycle_open cfg s hgate, committable, hgate]
    cases hreaches : reachesLoop cfg s.cleared e with
    | false =>
      have hquiet := (otaUpdate_not_reaches hreaches).1.not_isSetBoot
      simpa using hquiet
    | true =>
      obtain ⟨p, t, front, hfront, -, heq⟩ := otaUpdate_reaches hreaches
      have hloop := (downloadLoop_delivers p (.start t) e.reads).finished
      have hafter := otaAfterLoop_setBoot_iff t e (takesRedirect cfg s.cleared e) p
        (downloadLoop_not_isSetBoot p (.start t) e.reads)
      rw [heq, CycleResult.after_calls, Trace.exists_mem_append_iff hfront.not_isSetBoot, hafter,
        hloop]
      cases e.completeAfter <;> cases e.endOk <;> simp [Loop.start, delivered]

/-- It hands that image to the flash before. -/
theorem otaCycle_written {img : List UInt8} (h : committable cfg s e = some img) :
    writtenBytes (otaCycle cfg s e).calls = img := by
  obtain ⟨hgate, hreaches, -, hdelivered⟩ := committable_eq_some.mp h
  rw [otaCycle_open cfg s hgate]
  exact otaUpdate_written hreaches hdelivered

theorem otaCycle_commits_iff :
    (otaCycle cfg s e).exit.commits = true ↔
      (committable cfg s e).isSome = true ∧ e.setBootOk = true := by
  cases hgate : e.validationPending with
  | true => simp [otaCycle, committable, hgate, Exit.commits]
  | false =>
    rw [otaCycle_open cfg s hgate, otaUpdate_commits_iff, committable, hgate, CycleEnv.commitOk]
    cases reachesLoop cfg s.cleared e <;> cases e.completeAfter <;> cases e.endOk <;> simp

end

end HomeNode.Ota
