-- SUMMARY: One iteration of ota_task, with the manifest fetch and the HTTP event handler, over the outcomes of the ESP-IDF calls.
import HomeNode.Lib.CString
import HomeNode.Lib.Transition
import Mathlib.Algebra.Group.Int.Defs
import Mathlib.Tactic.SplitIfs

/-!
# The OTA task

`ota_service.c` as functions of its static state and of what the platform
answers. Everything the code does not decide (the bytes of a read, the headers
of a response, the result of a flash call) is a field of the environment of one
iteration. An iteration yields the new state, the `continue` it was left by, and
the calls it made in their order.

A list of reads that runs out stands for a loop that has not been left yet: the
iteration is then `blocked`.
-/

namespace HomeNode.Ota

/-! ## Data -/

/-- `MAX_HTTP_RECV_BUFFER` -/
def maxHttpRecvBuffer : Nat := 1024

/-- `sizeof(esp_image_header_t) + sizeof(esp_image_segment_header_t) + sizeof(esp_app_desc_t)` -/
def imageHeaderSize : Nat := 24 + 8 + 256

/-- `manifest_t`. Its `update_available` is never read. -/
structure Manifest where
  version : CharArray 64
  firmwareUrl : CharArray 512
  checksum : CharArray 65
  firmwareSize : Nat
  deriving DecidableEq

/-- The zeroed manifest. -/
def Manifest.zero : Manifest := ⟨.zeros 64, .zeros 512, .zeros 65, 0⟩

/-- The members of a parsed manifest that the code looks up, each present only
when it has the type the code asks for. `firmwareSize` is the `valueint`. -/
structure Json where
  version : Option CStr := none
  firmwareUrl : Option CStr := none
  checksum : Option CStr := none
  firmwareSize : Option Int := none

structure Header where
  key : CStr
  value : CStr
  deriving DecidableEq

/-- A result of `esp_http_client_read`: a negative value, or the bytes read. -/
inductive Read where
  | error
  | data (bs : List UInt8)
  deriving DecidableEq

abbrev Handle := Nat
abbrev Partition := Nat

/-- The part of `ota_service_state` the task works on, and its locals
`update_handle` and `update_partition`, which outlive an iteration. -/
structure OtaState where
  updatePending : Bool
  responseBuffer : CharArray maxHttpRecvBuffer
  manifest : Manifest
  dataLen : Nat
  expectRedirect : Bool
  updateHandle : Handle
  updatePartition : Option Partition
  deriving DecidableEq

def OtaState.init : OtaState where
  updatePending := false
  responseBuffer := .zeros _
  manifest := .zero
  dataLen := 0
  expectRedirect := false
  updateHandle := 0
  updatePartition := none

/-- The calls an iteration makes, with their outcomes. A call that delivers
response headers lists them. The result of `esp_http_client_set_url` is dropped: a
client that cannot take the URL stays on the one it had. -/
inductive Call where
  | setUrl (url : CStr) (ok : Bool)
  | clientOpen (ok : Bool)
  | fetchHeaders (headers : List Header)
  | perform (headers : List Header) (ok : Bool)
  | clientClose
  | manifestRead (len : Nat) (r : Read)
  | firmwareRead (r : Read)
  | isComplete (answer : Bool)
  | otaBegin (p : Partition) (handle : Option Handle)
  | otaWrite (handle : Handle) (bs : List UInt8) (ok : Bool)
  | otaEnd (handle : Handle) (ok : Bool)
  | otaAbort (handle : Handle)
  | setBootPartition (p : Partition) (ok : Bool)
  | postRebootRequired
  deriving DecidableEq

/-- What the build fixes: the manifest URL, and cJSON as a partial parser. -/
structure Config where
  manifestUrl : CStr
  cjsonParse : CStr → Option Json

/-! ## The HTTP event handler -/

def locationKey : CStr := ⟨CStr.ascii "Location", by decide⟩

/-- The test of `_http_event_handler` on a header. -/
def Header.isLocation (h : Header) : Bool := CStr.strcaseEq h.key locationKey

/-- `_http_event_handler` on `HTTP_EVENT_ON_HEADER`. It ignores every other event. -/
def httpEventHandler (s : OtaState) (h : Header) : OtaState :=
  if h.isLocation then
    let buffer := (s.responseBuffer.strncpy h.value (maxHttpRecvBuffer - 1)).set
      (maxHttpRecvBuffer - 1) 0
    { s with responseBuffer := buffer, dataLen := buffer.str.length, expectRedirect := true }
  else s

/-- The header events of one response. -/
def deliverHeaders (s : OtaState) (headers : List Header) : OtaState :=
  headers.foldl httpEventHandler s

/-! ## The manifest -/

/-- One turn of the manifest read loop: the read, and the answer of
`esp_http_client_is_complete_data_received` should it be asked. -/
structure ManifestRead where
  read : Read
  complete : Bool := false

/-- What the platform answers during `fetch_ota_manifest`. -/
structure FetchEnv where
  urlOk : Bool := true
  openOk : Bool
  headers : List Header := []
  reads : List ManifestRead := []
  status : Int := 200

/-- `left` is whether the loop was left without a read error. -/
structure ManifestLoop where
  left : Option Bool
  buffer : CharArray maxHttpRecvBuffer
  total : Nat
  calls : List Call

def ManifestLoop.after (cs : List Call) (r : ManifestLoop) : ManifestLoop :=
  { r with calls := cs ++ r.calls }

/-- The read loop of `fetch_ota_manifest`. -/
def manifestReadLoop (buffer : CharArray maxHttpRecvBuffer) (total : Nat) :
    List ManifestRead → ManifestLoop
  | [] => ⟨none, buffer, total, []⟩
  | e :: es =>
    let len := maxHttpRecvBuffer - total - 1
    match e.read with
    | .error => ⟨some false, buffer, total, [.manifestRead len .error]⟩
    | .data bs =>
      let bs := bs.take len
      let buffer := buffer.write total bs
      let read := Call.manifestRead len (.data bs)
      if bs = [] then
        if e.complete then ⟨some true, buffer, total, [read, .isComplete true]⟩
        else (manifestReadLoop buffer total es).after [read, .isComplete false]
      else if maxHttpRecvBuffer - 1 ≤ total + bs.length then
        ⟨some true, buffer, total + bs.length, [read]⟩
      else (manifestReadLoop buffer (total + bs.length) es).after [read]

/-- The field copies from the parsed manifest. -/
def Manifest.copyFields (m : Manifest) (json : Json) : Manifest where
  version := match json.version with
    | some v => m.version.strncpy v 63
    | none => m.version
  firmwareUrl := match json.firmwareUrl with
    | some v => m.firmwareUrl.strncpy v 511
    | none => m.firmwareUrl
  checksum := match json.checksum with
    | some v => m.checksum.strncpy v 64
    | none => m.checksum
  firmwareSize := match json.firmwareSize with
    | some n => (n % 2 ^ 32).toNat
    | none => m.firmwareSize

/-- `ret` is whether `ESP_OK` was returned, absent while the fetch still reads. -/
structure FetchResult where
  ret : Option Bool
  state : OtaState
  calls : List Call

/-- `fetch_ota_manifest(manifest_url, &ota_service_state.manifest)` -/
def fetchOtaManifest (cfg : Config) (s : OtaState) (e : FetchEnv) : FetchResult :=
  let s := { s with manifest := .zero, responseBuffer := .zeros _ }
  let calls := [.setUrl cfg.manifestUrl e.urlOk, .clientOpen e.openOk]
  if !e.openOk then ⟨some false, s, calls⟩
  else
    let s := deliverHeaders s e.headers
    let loop := manifestReadLoop s.responseBuffer 0 e.reads
    let calls := calls ++ .fetchHeaders e.headers :: loop.calls
    match loop.left with
    | none => ⟨none, { s with responseBuffer := loop.buffer }, calls⟩
    | some readOk =>
      let s := { s with responseBuffer := loop.buffer.set loop.total 0 }
      let calls := calls ++ [.clientClose]
      if e.status ≠ 200 then ⟨some false, s, calls⟩
      else
        match cfg.cjsonParse s.responseBuffer.str with
        | none => ⟨some false, s, calls⟩
        -- a read error does not keep the fields from being copied
        | some json => ⟨some readOk, { s with manifest := s.manifest.copyFields json }, calls⟩

/-- The calls of a fetch: once it has left the read loop it closes the connection. -/
theorem fetchOtaManifest_calls (cfg : Config) (s : OtaState) (e : FetchEnv) :
    ∃ buffer, (fetchOtaManifest cfg s e).calls =
      .setUrl cfg.manifestUrl e.urlOk :: .clientOpen e.openOk ::
        (if e.openOk then
          .fetchHeaders e.headers :: (manifestReadLoop buffer 0 e.reads).calls ++
            (if (fetchOtaManifest cfg s e).ret = none then [] else [.clientClose])
        else []) := by
  refine ⟨(deliverHeaders { s with manifest := .zero, responseBuffer := .zeros _ }
    e.headers).responseBuffer, ?_⟩
  unfold fetchOtaManifest
  cases e.openOk with
  | false => rfl
  | true =>
    simp only [Bool.not_true, Bool.false_eq_true, if_false, if_true]
    split
    · simp
    · by_cases hstatus : e.status ≠ 200
      · simp [hstatus]
      · simp only [hstatus, if_false]
        split <;> simp

/-! ## Version checks -/

inductive InvalidApp where
  | ok
  | fail
  | invalidVersion
  deriving DecidableEq

/-- `detect_last_invalid_app`. The last invalid partition may not exist, and its
description may not be readable. -/
def detectLastInvalidApp (lastInvalid : Option (Option CStr)) (newVersion : CStr) : InvalidApp :=
  match lastInvalid with
  | none => .ok
  | some none => .fail
  | some (some version) => if CStr.strcmp version newVersion = 0 then .invalidVersion else .ok

/-- `is_update_available`. The description of the running partition may not be
readable. -/
def isUpdateAvailable (running : Option CStr) (newVersion : CStr) : Bool :=
  if newVersion.bytes = [] then false
  else
    match running with
    | none => false
    | some version => 0 < CStr.strcmp newVersion version

/-! ## The download loop -/

/-- One turn of the download loop: the read, and the outcomes of the calls the
turn may make. `connReset` is `errno == ECONNRESET || errno == ENOTCONN`. -/
structure ReadEnv where
  read : Read
  begin : Option Handle := none
  writeOk : Bool := true
  connReset : Bool := false
  complete : Bool := false

/-- The `break`s of the download loop. Only `finished` sets `read_success`. -/
inductive Break where
  | finished
  | readError
  | shortPacket
  | beginFailed
  | writeFailed
  | connReset
  deriving DecidableEq

/-- The variables of the loop. `headerChecked` is `image_header_was_checked`. -/
structure Loop where
  headerChecked : Bool
  attempts : Nat
  handle : Handle
  buffer : CharArray maxHttpRecvBuffer
  fileLength : Nat

/-- `left` is the `break` taken, absent when the loop goes on. -/
structure Turn where
  left : Option Break
  loop : Loop
  calls : List Call

def Turn.after (cs : List Call) (t : Turn) : Turn := { t with calls := cs ++ t.calls }

@[simp] theorem Turn.after_left (cs : List Call) (t : Turn) : (t.after cs).left = t.left := rfl

@[simp] theorem Turn.after_loop (cs : List Call) (t : Turn) : (t.after cs).loop = t.loop := rfl

@[simp] theorem Turn.after_calls (cs : List Call) (t : Turn) :
    (t.after cs).calls = cs ++ t.calls := rfl

/-- `esp_ota_write` of the packet and what follows it. -/
def writePacket (l : Loop) (e : ReadEnv) (bs : List UInt8) : Turn :=
  if e.writeOk then
    ⟨none, { l with fileLength := l.fileLength + bs.length }, [.otaWrite l.handle bs true]⟩
  else ⟨some .writeFailed, l, [.otaWrite l.handle bs false, .clientClose, .otaAbort l.handle]⟩

/-- A positive-length read. The first one of an iteration opens the update. -/
def handlePacket (p : Partition) (l : Loop) (e : ReadEnv) (bs : List UInt8) : Turn :=
  if l.headerChecked then writePacket l e bs
  else if imageHeaderSize < bs.length then
    let l := { l with headerChecked := true }
    match e.begin with
    | none => ⟨some .beginFailed, l, [.otaBegin p none, .clientClose]⟩
    | some h => (writePacket { l with handle := h } e bs).after [.otaBegin p (some h)]
  else ⟨some .shortPacket, l, [.clientClose]⟩

/-- A zero-length read. The first one of an iteration is ignored. -/
def handleEmptyRead (l : Loop) (e : ReadEnv) : Turn :=
  if l.attempts = 0 then ⟨none, { l with attempts := 1 }, []⟩
  else if e.connReset then ⟨some .connReset, l, []⟩
  else if e.complete then ⟨some .finished, l, [.isComplete true]⟩
  else ⟨none, l, [.isComplete false]⟩

/-- The body of the download loop. -/
def downloadTurn (p : Partition) (l : Loop) (e : ReadEnv) : Turn :=
  match e.read with
  | .error => ⟨some .readError, l, [.firmwareRead .error, .clientClose]⟩
  | .data bs =>
    let bs := bs.take maxHttpRecvBuffer
    let l := { l with buffer := l.buffer.write 0 bs }
    let turn := if bs = [] then handleEmptyRead l e else handlePacket p l e bs
    turn.after [.firmwareRead (.data bs)]

def downloadLoop (p : Partition) (l : Loop) : List ReadEnv → Turn
  | [] => ⟨none, l, []⟩
  | e :: es =>
    let turn := downloadTurn p l e
    match turn.left with
    | some b => ⟨some b, turn.loop, turn.calls⟩
    | none => (downloadLoop p turn.loop es).after turn.calls

/-! ## The iteration -/

/-- What the platform answers during one iteration. `validationPending` is the
value of the flag when the gate reads it; `urlOk` and `redirectUrlOk` are whether the
client takes `firmware_url` and the text of the buffer for its URL. -/
structure CycleEnv where
  validationPending : Bool := false
  manifest : FetchEnv
  lastInvalid : Option (Option CStr) := none
  running : Option CStr := none
  urlOk : Bool := true
  performHeaders : List Header := []
  performOk : Bool := true
  redirectUrlOk : Bool := true
  redirectOpenOk : Bool := true
  redirectHeaders : List Header := []
  nextPartition : Option Partition := none
  reads : List ReadEnv := []
  completeAfter : Bool := true
  endOk : Bool := true
  setBootOk : Bool := true

/-- How an iteration was left. `redirected`: the redirect branch was taken, and
its connection opened. `checked`: `image_header_was_checked` after the loop. -/
inductive Exit where
  | blocked
  | turnedAway
  | manifestFailed
  | invalidVersion
  | notNewer
  | performFailed
  | redirectFailed
  | noPartition (redirected : Bool)
  | download (redirected : Bool) (b : Break) (checked : Bool)
  | incomplete (redirected checked : Bool)
  | endFailed (redirected checked : Bool)
  | setBootFailed (redirected checked : Bool)
  | committed (redirected checked : Bool)
  deriving DecidableEq

structure CycleResult where
  exit : Exit
  state : OtaState
  calls : List Call

def CycleResult.after (cs : List Call) (r : CycleResult) : CycleResult :=
  { r with calls := cs ++ r.calls }

@[simp] theorem CycleResult.after_exit (cs : List Call) (r : CycleResult) :
    (r.after cs).exit = r.exit := rfl

@[simp] theorem CycleResult.after_calls (cs : List Call) (r : CycleResult) :
    (r.after cs).calls = cs ++ r.calls := rfl

/-- From the second completeness query to the end of the iteration. -/
def otaCommit (s : OtaState) (e : CycleEnv) (redirected : Bool) (p : Partition) (l : Loop) :
    CycleResult :=
  if !e.completeAfter then
    ⟨.incomplete redirected l.headerChecked, s,
      [.isComplete false, .clientClose, .otaAbort l.handle]⟩
  else if !e.endOk then
    ⟨.endFailed redirected l.headerChecked, s,
      [.isComplete true, .otaEnd l.handle false, .clientClose]⟩
  else if !e.setBootOk then
    ⟨.setBootFailed redirected l.headerChecked, s,
      [.isComplete true, .otaEnd l.handle true, .setBootPartition p false]⟩
  else
    ⟨.committed redirected l.headerChecked, s,
      [.isComplete true, .otaEnd l.handle true, .setBootPartition p true, .postRebootRequired]⟩

/-- From `esp_ota_get_next_update_partition` on. -/
def otaDownload (s : OtaState) (e : CycleEnv) (redirected : Bool) : CycleResult :=
  match e.nextPartition with
  | none => ⟨.noPartition redirected, { s with updatePartition := none }, []⟩
  | some p =>
    let turn := downloadLoop p ⟨false, 0, s.updateHandle, s.responseBuffer, 0⟩ e.reads
    let s := { s with
      updatePartition := some p
      updateHandle := turn.loop.handle
      responseBuffer := turn.loop.buffer }
    match turn.left with
    | none => ⟨.blocked, s, turn.calls⟩
    | some .finished => (otaCommit s e redirected p turn.loop).after turn.calls
    | some b => ⟨.download redirected b turn.loop.headerChecked, s, turn.calls⟩

/-- From `expect_redirect` on. -/
def otaRedirect (s : OtaState) (e : CycleEnv) : CycleResult :=
  if s.expectRedirect then
    let calls := [.clientClose, .setUrl s.responseBuffer.str e.redirectUrlOk,
      .clientOpen e.redirectOpenOk]
    let s := { s with responseBuffer := .zeros _ }
    if !e.redirectOpenOk then ⟨.redirectFailed, s, calls ++ [.clientClose]⟩
    else
      (otaDownload (deliverHeaders s e.redirectHeaders) e true).after
        (calls ++ [.fetchHeaders e.redirectHeaders])
  else otaDownload s e false

/-- The firmware request. The connection is closed whether or not it succeeds. -/
def otaRequest (s : OtaState) (e : CycleEnv) : CycleResult :=
  let url := s.manifest.firmwareUrl.str
  let s := deliverHeaders s e.performHeaders
  let calls := [.setUrl url e.urlOk, .perform e.performHeaders e.performOk, .clientClose]
  if !e.performOk then ⟨.performFailed, s, calls⟩
  else (otaRedirect s e).after calls

/-- From the call of `fetch_ota_manifest` on. -/
def otaUpdate (cfg : Config) (s : OtaState) (e : CycleEnv) : CycleResult :=
  let fetch := fetchOtaManifest cfg s e.manifest
  let version := fetch.state.manifest.version.str
  match fetch.ret with
  | none => ⟨.blocked, fetch.state, fetch.calls⟩
  | some false => ⟨.manifestFailed, fetch.state, fetch.calls⟩
  | some true =>
    if detectLastInvalidApp e.lastInvalid version = .invalidVersion then
      ⟨.invalidVersion, fetch.state, fetch.calls⟩
    else if !isUpdateAvailable e.running version then ⟨.notNewer, fetch.state, fetch.calls⟩
    else (otaRequest fetch.state e).after fetch.calls

/-- One iteration of `ota_task`, from the return of `xSemaphoreTake` on. -/
def otaCycle (cfg : Config) (s : OtaState) (e : CycleEnv) : CycleResult :=
  if e.validationPending then ⟨.turnedAway, { s with updatePending := true }, []⟩
  else otaUpdate cfg { s with updatePending := false } e

/-! ## Runs -/

/-- One iteration as a step: it must have come back to the wait. -/
def cycleStep (cfg : Config) (s : OtaState) (e : CycleEnv) : Option OtaState :=
  let r := otaCycle cfg s e
  if r.exit = .blocked then none else some r.state

theorem cycleStep_eq_some {cfg : Config} {s t : OtaState} {e : CycleEnv} :
    cycleStep cfg s e = some t ↔
      (otaCycle cfg s e).exit ≠ .blocked ∧ (otaCycle cfg s e).state = t := by
  unfold cycleStep
  by_cases h : (otaCycle cfg s e).exit = .blocked <;> simp [h]

/-- The states in which `ota_task` waits after the iterations `es`. -/
abbrev otaRun (cfg : Config) (es : List CycleEnv) : Option OtaState :=
  Transition.run (cycleStep cfg) .init es

/-- All calls of the iterations `es`, started in `s`. -/
def runCalls (cfg : Config) : OtaState → List CycleEnv → List Call
  | _, [] => []
  | s, e :: es => (otaCycle cfg s e).calls ++ runCalls cfg (otaCycle cfg s e).state es

/-- The trace of a run and of the iteration after it. -/
theorem runCalls_concat (cfg : Config) (s : OtaState) (es : List CycleEnv) (e : CycleEnv)
    {t : OtaState} (h : Transition.run (cycleStep cfg) s es = some t) :
    runCalls cfg s (es ++ [e]) = runCalls cfg s es ++ (otaCycle cfg t e).calls := by
  induction es generalizing s with
  | nil =>
    obtain rfl : s = t := Option.some.inj h
    simp [runCalls]
  | cons e' es ih =>
    obtain ⟨u, hu, hrest⟩ := Option.bind_eq_some_iff.mp h
    simp [runCalls, (cycleStep_eq_some.mp hu).2, ih u hrest]

/-! ## A sample server

A manifest that announces `v2` to a device running `v1`, for the runs on fixed
inputs of the modules below. -/

def sampleManifest : CStr :=
  ⟨CStr.ascii "\x7b\"version\":\"v2\",\"firmware_url\":\"https://a/f\"\x7d", by decide⟩

def sampleUrl : CStr := ⟨CStr.ascii "https://a/f", by decide⟩

def sampleConfig : Config where
  manifestUrl := ⟨CStr.ascii "https://a/m", by decide⟩
  cjsonParse body :=
    if body = sampleManifest then
      some { version := some ⟨CStr.ascii "v2", by decide⟩, firmwareUrl := some sampleUrl }
    else none

/-- The firmware request is answered with `headers`, the download goes to
partition 1 and reads `reads`. -/
def sampleCycle (headers : List Header) (reads : List ReadEnv) : CycleEnv where
  manifest := { openOk := true, reads := [⟨.data sampleManifest.bytes, false⟩, ⟨.data [], true⟩] }
  running := some ⟨CStr.ascii "v1", by decide⟩
  performHeaders := headers
  nextPartition := some 1
  reads := reads

/-- The answer that sends the client on to `https://b/f`. -/
def sampleLocation : Header := ⟨locationKey, ⟨CStr.ascii "https://b/f", by decide⟩⟩

/-- A redirected download: one packet, and then complete. -/
def installCycle : CycleEnv := sampleCycle [sampleLocation]
  [{ read := .data (List.replicate 300 1), begin := some 1 }, { read := .data [] },
    { read := .data [], complete := true }]

/-- A redirected download that begins, writes one packet, and breaks off on a
read error. -/
def brokenCycle : CycleEnv := sampleCycle [sampleLocation]
  [{ read := .data (List.replicate 300 1), begin := some 1 }, { read := .error }]

end HomeNode.Ota
