-- SUMMARY: What a successful manifest fetch has read, parsed and stored, and that it never leaves its buffer.
import HomeNode.Lib.Trace
import HomeNode.Ota.Task

/-!
# The manifest fetch

The read loop of `fetch_ota_manifest` fills `response_buffer` from its start and
keeps the last byte for the terminator. `Filled` is what the buffer holds after
each read; from it follow both the bounds of the requests and what is parsed.
-/

namespace HomeNode.Ota

open Trace

/-! ## The body of a trace -/

def Call.manifestBytes : Call → List UInt8
  | .manifestRead _ (.data bs) => bs
  | _ => []

@[simp] theorem Call.manifestBytes_manifestRead (len : Nat) (bs : List UInt8) :
    (Call.manifestRead len (.data bs)).manifestBytes = bs := rfl

@[simp] theorem Call.manifestBytes_isComplete (answer : Bool) :
    (Call.isComplete answer).manifestBytes = [] := rfl

/-- The bytes of all manifest reads, in order. -/
def manifestBody (calls : List Call) : List UInt8 := calls.flatMap Call.manifestBytes

@[simp] theorem manifestBody_nil : manifestBody [] = [] := rfl

@[simp] theorem manifestBody_cons (c : Call) (cs : List Call) :
    manifestBody (c :: cs) = c.manifestBytes ++ manifestBody cs := rfl

@[simp] theorem manifestBody_append (cs ds : List Call) :
    manifestBody (cs ++ ds) = manifestBody cs ++ manifestBody ds := by
  simp [manifestBody]

/-- A read requests at least one byte, and no more than fit behind the `front` bytes
read so far and in front of the terminator. -/
def Call.Fits (front : List UInt8) : Call → Prop
  | .manifestRead len _ => 0 < len ∧ front.length + len < maxHttpRecvBuffer
  | _ => True

/-- Every request of the trace fits. -/
def RequestsFit (front : List UInt8) (calls : List Call) : Prop :=
  Past (fun pre c => c.Fits (front ++ manifestBody pre)) calls

theorem RequestsFit.nil {front : List UInt8} : RequestsFit front [] := Past.nil

theorem RequestsFit.cons {front : List UInt8} {c : Call} {calls : List Call} (hc : c.Fits front)
    (h : RequestsFit (front ++ c.manifestBytes) calls) : RequestsFit front (c :: calls) := by
  refine past_cons.mpr ⟨by simpa using hc, h.mono fun pre c' hfits => ?_⟩
  simpa using hfits

theorem RequestsFit.append {front : List UInt8} {cs ds : List Call} (hc : RequestsFit front cs)
    (hd : RequestsFit (front ++ manifestBody cs) ds) : RequestsFit front (cs ++ ds) := by
  induction cs generalizing front with
  | nil => simpa using hd
  | cons c cs ih =>
    obtain ⟨hfits, hrest⟩ := past_cons.mp hc
    refine .cons (by simpa using hfits) (ih (hrest.mono fun pre c' h => ?_) ?_)
    · simpa using h
    · simpa using hd

/-! ## The read loop -/

/-- The buffer starts with what was read, and there is room for more. -/
structure Filled (buffer : CharArray maxHttpRecvBuffer) (body : List UInt8) : Prop where
  front : buffer.bytes.take body.length = body
  room : body.length < maxHttpRecvBuffer

theorem Filled.write {buffer : CharArray maxHttpRecvBuffer} {body bs : List UInt8}
    (h : Filled buffer body) (hbs : body.length + bs.length < maxHttpRecvBuffer) :
    Filled (buffer.write body.length bs) (body ++ bs) := by
  refine ⟨?_, by simpa using hbs⟩
  rw [List.length_append, CharArray.take_write buffer hbs.le, h.front]

/-- A read that failed. -/
def Call.isReadError : Call → Bool
  | .manifestRead _ .error => true
  | _ => false

/-- What the loop has done when it stands behind `body`. -/
structure LoopReads (body : List UInt8) (r : ManifestLoop) : Prop where
  total : r.total = (body ++ manifestBody r.calls).length
  filled : Filled r.buffer (body ++ manifestBody r.calls)
  requests : RequestsFit body r.calls
  failed : r.left ≠ some false → ∀ c ∈ r.calls, c.isReadError = false

/-- What is done behind a call that is no read error. -/
theorem LoopReads.after {body : List UInt8} {c : Call} {r : ManifestLoop}
    (h : LoopReads (body ++ c.manifestBytes) r) (hc : c.Fits body) (hread : c.isReadError = false) :
    LoopReads body (r.after [c]) := by
  have hbody : body ++ manifestBody (r.after [c]).calls =
      body ++ c.manifestBytes ++ manifestBody r.calls := by
    simp [ManifestLoop.after]
  refine ⟨?_, ?_, .cons hc h.requests, ?_⟩
  · rw [hbody]
    exact h.total
  · rw [hbody]
    exact h.filled
  · intro hleft d hd
    rcases List.mem_cons.mp hd with rfl | hd
    · exact hread
    · exact h.failed hleft d hd

theorem LoopReads.stop {body : List UInt8} {buffer : CharArray maxHttpRecvBuffer}
    (left : Option Bool) (h : Filled buffer body) : LoopReads body ⟨left, buffer, body.length, []⟩ :=
  ⟨by simp, by simpa using h, .nil, fun _ _ hd => absurd hd List.not_mem_nil⟩

/-- A loop that stands behind `body` leaves the buffer filled with all it has read. -/
theorem manifestReadLoop_reads (buffer : CharArray maxHttpRecvBuffer) (body : List UInt8)
    (es : List ManifestRead) (h : Filled buffer body) (hroom : body.length < maxHttpRecvBuffer - 1) :
    LoopReads body (manifestReadLoop buffer body.length es) := by
  induction es generalizing buffer body with
  | nil => exact .stop none h
  | cons e es ih =>
    have hlen : 0 < maxHttpRecvBuffer - body.length - 1 := by omega
    have hfits : body.length + (maxHttpRecvBuffer - body.length - 1) < maxHttpRecvBuffer := by omega
    rw [manifestReadLoop]
    cases e.read with
    | error =>
      refine ⟨by simp [Call.manifestBytes], by simpa [Call.manifestBytes] using h,
        .cons ⟨hlen, hfits⟩ .nil, by simp⟩
    | data bs =>
      simp only
      have hle : (bs.take (maxHttpRecvBuffer - body.length - 1)).length ≤
          maxHttpRecvBuffer - body.length - 1 := List.length_take_le _ _
      generalize bs.take (maxHttpRecvBuffer - body.length - 1) = bs at hle
      have hfilled : Filled (buffer.write body.length bs) (body ++ bs) := h.write (by omega)
      have hfitsRead (r : Read) :
          (Call.manifestRead (maxHttpRecvBuffer - body.length - 1) r).Fits body := ⟨hlen, hfits⟩
      split_ifs with hempty hcomplete hfull
      · subst hempty
        have hstop := LoopReads.stop (some true) (by simpa using hfilled)
        have hasked := LoopReads.after (c := .isComplete true) (by simpa using hstop) trivial rfl
        exact LoopReads.after (by simpa using hasked) (hfitsRead (.data [])) rfl
      · subst hempty
        have hrest := ih _ body (by simpa using hfilled) hroom
        have hasked := LoopReads.after (c := .isComplete false) (by simpa using hrest) trivial rfl
        exact LoopReads.after (by simpa using hasked) (hfitsRead (.data [])) rfl
      · have hstop := LoopReads.stop (some true) hfilled
        have hread := LoopReads.after hstop (hfitsRead (.data bs)) rfl
        rwa [List.length_append] at hread
      · have hrest := ih _ (body ++ bs) hfilled (by simp only [List.length_append]; omega)
        rw [List.length_append] at hrest
        exact LoopReads.after hrest (hfitsRead (.data bs)) rfl

/-! ## The fetch -/

/-- The fields are the strings of `json`, each cut to its field; what `json` does not
have is empty. -/
structure Manifest.Holds (m : Manifest) (json : Json) : Prop where
  version : m.version.Holds ((json.version.getD .empty).take 63)
  firmwareUrl : m.firmwareUrl.Holds ((json.firmwareUrl.getD .empty).take 511)
  checksum : m.checksum.Holds ((json.checksum.getD .empty).take 64)
  firmwareSize : m.firmwareSize = ((json.firmwareSize.getD 0) % 2 ^ 32).toNat

/-- A field copied into the zeroed manifest. -/
theorem holds_copyField {n : Nat} (v : Option CStr) :
    CharArray.Holds (match v with
      | some v => (CharArray.zeros (n + 1)).strncpy v n n.le_succ
      | none => .zeros (n + 1)) ((v.getD .empty).take n) := by
  cases v with
  | none => simpa [CStr.take, CStr.empty] using CharArray.holds_zeros n.succ_pos
  | some v => exact CharArray.holds_strncpy_zeros v n.lt_succ_self

theorem Manifest.holds_copyFields (json : Json) : (Manifest.zero.copyFields json).Holds json where
  version := holds_copyField json.version
  firmwareUrl := holds_copyField json.firmwareUrl
  checksum := holds_copyField json.checksum
  firmwareSize := by
    unfold Manifest.copyFields
    cases json.firmwareSize <;> rfl

/-- What `ESP_OK` says about the calls of the fetch and the manifest it leaves. -/
structure Fetched (cfg : Config) (e : FetchEnv) (m : Manifest) (calls : List Call) : Prop where
  opened : e.openOk = true
  readsOk : ∀ c ∈ calls, c.isReadError = false
  status : e.status = 200
  parsed : ∃ json, cfg.cjsonParse (CStr.ofBuffer (manifestBody calls)) = some json ∧ m.Holds json

/-- A fetch reads within its buffer, terminates what it has read there, and returns
`ESP_OK` only with the manifest of this response. -/
structure FetchCorrect (cfg : Config) (e : FetchEnv) (r : FetchResult) : Prop where
  requests : RequestsFit [] r.calls
  terminator : (manifestBody r.calls).length < maxHttpRecvBuffer
  ok : r.ret = some true → Fetched cfg e r.state.manifest r.calls

@[simp] theorem deliverHeaders_manifest (s : OtaState) (headers : List Header) :
    (deliverHeaders s headers).manifest = s.manifest := by
  unfold deliverHeaders
  induction headers generalizing s with
  | nil => rfl
  | cons h hs ih =>
    rw [List.foldl_cons, ih]
    unfold httpEventHandler
    split <;> rfl

/-- The state in which the read loop of a fetch starts. -/
def fetchStart (s : OtaState) (e : FetchEnv) : OtaState :=
  deliverHeaders { s with manifest := .zero, responseBuffer := .zeros _ } e.headers

/-- What a fetch has done with the read loop `loop`. -/
structure FetchedBy (cfg : Config) (e : FetchEnv) (loop : ManifestLoop) (r : FetchResult) :
    Prop where
  calls : ∃ rest, r.calls = .setUrl cfg.manifestUrl e.urlOk :: .clientOpen true ::
    .fetchHeaders e.headers :: (loop.calls ++ rest) ∧ ∀ c ∈ rest, c = .clientClose
  returns : r.ret = none ↔ loop.left = none
  ok : r.ret = some true → loop.left = some true ∧ e.status = 200 ∧
    r.state.responseBuffer = loop.buffer.set loop.total 0 ∧
    ∃ json, cfg.cjsonParse r.state.responseBuffer.str = some json ∧
      r.state.manifest = Manifest.zero.copyFields json

theorem fetchOtaManifest_opened (cfg : Config) (s : OtaState) (e : FetchEnv)
    (hopen : e.openOk = true) :
    FetchedBy cfg e (manifestReadLoop (fetchStart s e).responseBuffer 0 e.reads)
      (fetchOtaManifest cfg s e) := by
  have hmanifest : (fetchStart s e).manifest = .zero := deliverHeaders_manifest _ _
  have hstart : deliverHeaders { s with manifest := .zero, responseBuffer := .zeros _ } e.headers =
      fetchStart s e := rfl
  simp only [fetchOtaManifest, hopen, Bool.not_true, Bool.false_eq_true, if_false, hstart]
  generalize manifestReadLoop (fetchStart s e).responseBuffer 0 e.reads = loop
  cases hleft : loop.left with
  | none => exact ⟨⟨[], by simp, by simp⟩, by simp [hleft], by simp⟩
  | some readOk =>
    by_cases hstatus : e.status = 200
    case neg =>
      simp only [ne_eq, hstatus, not_false_eq_true, if_true]
      exact ⟨⟨[.clientClose], by simp, by simp⟩, by simp [hleft], by simp⟩
    simp only [ne_eq, hstatus, not_true_eq_false, if_false]
    cases hparse : cfg.cjsonParse (loop.buffer.set loop.total 0).str with
    | none => exact ⟨⟨[.clientClose], by simp, by simp⟩, by simp [hleft], by simp⟩
    | some json =>
      refine ⟨⟨[.clientClose], by simp, by simp⟩, by simp [hleft], fun hret => ?_⟩
      refine ⟨hleft.trans hret, hstatus, rfl, json, hparse, ?_⟩
      rw [hmanifest]

theorem fetchOtaManifest_not_opened (cfg : Config) (s : OtaState) (e : FetchEnv)
    (hopen : ¬ e.openOk = true) :
    fetchOtaManifest cfg s e = ⟨some false, { s with manifest := .zero, responseBuffer := .zeros _ },
      [.setUrl cfg.manifestUrl e.urlOk, .clientOpen e.openOk]⟩ := by
  simp [fetchOtaManifest, hopen]

theorem fetchOtaManifest_correct (cfg : Config) (s : OtaState) (e : FetchEnv) :
    FetchCorrect cfg e (fetchOtaManifest cfg s e) := by
  by_cases hopen : e.openOk = true
  case neg =>
    rw [fetchOtaManifest_not_opened cfg s e hopen]
    have hbody : manifestBody [.setUrl cfg.manifestUrl e.urlOk, .clientOpen e.openOk] = [] := rfl
    refine ⟨.cons trivial (.cons trivial .nil), ?_, by simp⟩
    rw [hbody]
    decide
  have hreads : LoopReads [] (manifestReadLoop (fetchStart s e).responseBuffer 0 e.reads) :=
    manifestReadLoop_reads _ [] e.reads ⟨rfl, by decide⟩ (by decide)
  obtain ⟨⟨rest, hcalls, hrest⟩, -, hok⟩ := fetchOtaManifest_opened cfg s e hopen
  generalize manifestReadLoop (fetchStart s e).responseBuffer 0 e.reads = loop at *
  have hquiet : manifestBody rest = [] :=
    List.flatMap_eq_nil_iff.mpr fun c hc => by rw [hrest c hc]; rfl
  have hbody : manifestBody (fetchOtaManifest cfg s e).calls = manifestBody loop.calls := by
    simp [hcalls, hquiet, Call.manifestBytes]
  refine ⟨?_, ?_, fun hret => ?_⟩
  · rw [hcalls]
    refine .cons trivial (.cons trivial (.cons trivial (.append hreads.requests ?_)))
    rintro pre c post rfl
    rw [hrest c (by simp)]
    trivial
  · rw [hbody]
    exact hreads.filled.room
  · obtain ⟨hleft, hstatus, hbuffer, json, hparse, hmanifest⟩ := hok hret
    refine ⟨hopen, fun c hc => ?_, hstatus, json, ?_, ?_⟩
    · rw [hcalls] at hc
      simp only [List.mem_cons, List.mem_append] at hc
      rcases hc with rfl | rfl | rfl | hc | hc
      · rfl
      · rfl
      · rfl
      · exact hreads.failed (by simp [hleft]) c hc
      · rw [hrest c hc]
        rfl
    · -- the terminator stands behind what was read, and that is at the front of the buffer
      have hfront := hreads.filled.front
      rw [hbuffer, CharArray.str_set_nul _ (by rw [hreads.total]; exact hreads.filled.room),
        hreads.total, hfront] at hparse
      rw [hbody]
      exact hparse
    · rw [hmanifest]
      exact Manifest.holds_copyFields json

/-- The manifest of the response a fetch has read. -/
def responseManifest (cfg : Config) (s : OtaState) (e : FetchEnv) : Option Json :=
  cfg.cjsonParse (fetchOtaManifest cfg s e).state.responseBuffer.str

/-- A successful fetch has stored the manifest of its response. -/
theorem fetchOtaManifest_holds {cfg : Config} {s : OtaState} {e : FetchEnv}
    (hret : (fetchOtaManifest cfg s e).ret = some true) :
    ∃ json, responseManifest cfg s e = some json ∧
      (fetchOtaManifest cfg s e).state.manifest.Holds json := by
  have hopen : e.openOk = true := by
    by_contra hclosed
    simp [fetchOtaManifest_not_opened cfg s e hclosed] at hret
  obtain ⟨-, -, -, json, hparse, hmanifest⟩ := (fetchOtaManifest_opened cfg s e hopen).ok hret
  refine ⟨json, hparse, ?_⟩
  rw [hmanifest]
  exact Manifest.holds_copyFields json

end HomeNode.Ota
