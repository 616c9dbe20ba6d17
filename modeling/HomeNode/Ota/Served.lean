-- SUMMARY: What a device makes of a manifest and of an image that a server delivers in pieces.
import HomeNode.Ota.Delivery
import HomeNode.Ota.Manifest

/-!
# Answers of a server

A server delivers a body in pieces as they come, and only then says that it is
complete. The manifest is cut at the size of its buffer; an image that is committed
was delivered whole.
-/

namespace HomeNode.Ota

/-! ## The manifest -/

/-- The reads of a client that has room for `room` bytes, when the answer is `body`: pieces of
any size that fits, and empty reads where nothing has come yet. Where the connection is
`lossy`, a read may fail, or nothing come any more. -/
inductive Serves (lossy : Bool) : Nat → List UInt8 → List ManifestRead → Prop where
  | silent {room : Nat} {body : List UInt8} (hlossy : lossy = true) : Serves lossy room body []
  | failed {room : Nat} {body : List UInt8} {complete : Bool} {es : List ManifestRead}
    (hlossy : lossy = true) : Serves lossy room body (⟨.error, complete⟩ :: es)
  | done {room : Nat} {es : List ManifestRead} : Serves lossy room [] (⟨.data [], true⟩ :: es)
  | quiet {room : Nat} {body : List UInt8} {es : List ManifestRead}
    (hrest : Serves lossy room body es) : Serves lossy room body (⟨.data [], false⟩ :: es)
  | piece {room : Nat} {bs body : List UInt8} {complete : Bool} {es : List ManifestRead}
    (hpos : bs ≠ []) (hroom : bs.length < room) (hrest : Serves lossy (room - bs.length) body es) :
    Serves lossy room (bs ++ body) (⟨.data bs, complete⟩ :: es)
  | full {bs body : List UInt8} {complete : Bool} {es : List ManifestRead} (hpos : bs ≠ []) :
    Serves lossy bs.length (bs ++ body) (⟨.data bs, complete⟩ :: es)

/-- What the loop has read when it is left without an error. -/
structure ManifestLoop.Gets (r : ManifestLoop) (lossy : Bool) (bs : List UInt8) : Prop where
  left : lossy = false → r.left = some true
  body : r.left = some true → manifestBody r.calls = bs

/-- The loop reads what it has room for. -/
theorem manifestReadLoop_serves {lossy : Bool} {room : Nat} {body : List UInt8}
    {es : List ManifestRead} (h : Serves lossy room body es)
    (buffer : CharArray maxHttpRecvBuffer) (total : Nat)
    (htotal : room = maxHttpRecvBuffer - total - 1) :
    (manifestReadLoop buffer total es).Gets lossy (body.take room) := by
  induction h generalizing buffer total with
  | silent hlossy => exact ⟨by simp [hlossy], by simp [manifestReadLoop]⟩
  | failed hlossy => exact ⟨by simp [hlossy], by simp [manifestReadLoop]⟩
  | done => constructor <;> simp [manifestReadLoop]
  | quiet _ ih =>
    obtain ⟨hleft, hbody⟩ := ih (buffer.write total []) total htotal
    constructor
    · simpa [manifestReadLoop, ManifestLoop.after] using hleft
    · simpa [manifestReadLoop, ManifestLoop.after] using hbody
  | @piece room bs body complete es hpos hroom hrest ih =>
    have hfit : bs.take (maxHttpRecvBuffer - total - 1) = bs :=
      List.take_of_length_le (by omega)
    have hmore : ¬ maxHttpRecvBuffer - 1 ≤ total + bs.length := by omega
    obtain ⟨hleft, hbody⟩ := ih (buffer.write total bs) (total + bs.length) (by omega)
    have hloop : manifestReadLoop buffer total (⟨.data bs, complete⟩ :: es) =
        (manifestReadLoop (buffer.write total bs) (total + bs.length) es).after
          [.manifestRead (maxHttpRecvBuffer - total - 1) (.data bs)] := by
      rw [manifestReadLoop]
      simp only [hfit, if_neg hpos, if_neg hmore]
    rw [hloop]
    refine ⟨hleft, fun h => ?_⟩
    rw [ManifestLoop.after, manifestBody_append, hbody h, List.take_append,
      List.take_of_length_le hroom.le]
    simp
  | @full bs body complete es hpos =>
    have hlen : 0 < bs.length := List.length_pos_iff.mpr hpos
    have hfit : bs.take (maxHttpRecvBuffer - total - 1) = bs :=
      List.take_of_length_le (by omega)
    have hfull : maxHttpRecvBuffer - 1 ≤ total + bs.length := by omega
    constructor <;> simp [manifestReadLoop, hfit, hpos, hfull]

/-- What is parsed is the answer, cut to the room that the buffer has in front of its
terminator. -/
theorem fetchOtaManifest_serves (cfg : Config) (s : OtaState) {e : FetchEnv} {lossy : Bool}
    {body : List UInt8} {json : Option Json} (hopen : e.openOk = true) (hstatus : e.status = 200)
    (hserves : Serves lossy (maxHttpRecvBuffer - 1) body e.reads)
    (hjson : cfg.cjsonParse (CStr.ofBuffer (body.take (maxHttpRecvBuffer - 1))) = json) :
    (lossy = false → (fetchOtaManifest cfg s e).ret = some json.isSome) ∧
      ((fetchOtaManifest cfg s e).ret = some true → responseManifest cfg s e = json) := by
  obtain ⟨hleft, hbody⟩ := manifestReadLoop_serves hserves (fetchStart s e).responseBuffer 0 rfl
  have hreads : LoopReads [] (manifestReadLoop (fetchStart s e).responseBuffer 0 e.reads) :=
    manifestReadLoop_reads _ [] e.reads ⟨rfl, by decide⟩ (by decide)
  have hstart : deliverHeaders { s with manifest := .zero, responseBuffer := .zeros _ } e.headers =
      fetchStart s e := rfl
  -- the terminator stands behind what was read
  have hstr : (manifestReadLoop (fetchStart s e).responseBuffer 0 e.reads).left = some true →
      cfg.cjsonParse ((manifestReadLoop (fetchStart s e).responseBuffer 0 e.reads).buffer.set
        (manifestReadLoop (fetchStart s e).responseBuffer 0 e.reads).total 0).str = json := by
    intro h
    have htotal := hreads.total
    have hfront := hreads.filled.front
    rw [List.nil_append] at htotal hfront
    rw [CharArray.str_set_nul _ (by rw [htotal]; exact hreads.filled.room), htotal, hfront, hbody h,
      hjson]
  unfold responseManifest fetchOtaManifest
  simp only [hopen, Bool.not_true, Bool.false_eq_true, if_false, hstart, hstatus, ne_eq,
    not_true_eq_false]
  generalize manifestReadLoop (fetchStart s e).responseBuffer 0 e.reads = loop at hleft hstr
  constructor
  · intro hwhole
    simp only [hleft hwhole, hstr (hleft hwhole)]
    cases json <;> rfl
  · rcases hloop : loop.left with _ | (_ | _)
    · simp
    · cases cfg.cjsonParse (loop.buffer.set loop.total 0).str <;> simp
    · intro h
      simp only [hstr hloop] at h ⊢
      cases json with
      | none => simp at h
      | some json => exact hstr hloop

/-- A manifest is only fetched from an answer. -/
theorem fetchOtaManifest_answered {cfg : Config} {s : OtaState} {e : FetchEnv}
    (hret : (fetchOtaManifest cfg s e).ret = some true) : e.openOk = true ∧ e.status = 200 := by
  have hopen : e.openOk = true := by
    by_contra hclosed
    simp [fetchOtaManifest_not_opened cfg s e hclosed] at hret
  exact ⟨hopen, ((fetchOtaManifest_opened cfg s e hopen).ok hret).2.1⟩

/-! ## The image -/

/-- Behind the bytes `front`, the reads go on along `image`, and the server says that it is
complete only when it is. -/
def Streams (image : List UInt8) : List UInt8 → List ReadEnv → Prop
  | _, [] => True
  | front, e :: es =>
    let front := front ++ e.read.bytes
    e.read.bytes.length ≤ maxHttpRecvBuffer ∧ front <+: image ∧
      (e.complete = true → front = image) ∧ Streams image front es

/-- What is delivered completely is the image. -/
theorem delivery_streams {image front img : List UInt8} {again checked : Bool}
    {es : List ReadEnv} (hstream : Streams image front es)
    (h : delivery again checked es = some img) : front ++ img = image := by
  induction es generalizing front img again checked with
  | nil => simp [delivery] at h
  | cons e es ih =>
    obtain ⟨hlen, -, hcomplete, hrest⟩ := hstream
    rw [delivery] at h
    cases hread : e.read with
    | error => simp [hread] at h
    | data bs =>
      simp only [hread, Read.bytes] at h hlen hcomplete hrest
      split_ifs at h with hempty hagain hreset hdone hwrite
      · subst hempty
        exact ih (by simpa using hrest) h
      · subst hempty
        obtain rfl := Option.some.inj h
        simpa using hcomplete hdone
      · subst hempty
        exact ih (by simpa using hrest) h
      · obtain ⟨img', himg', rfl⟩ := Option.map_eq_some_iff.mp h
        rw [List.take_of_length_le hlen, ← List.append_assoc]
        exact ih hrest himg'

/-- An image is only committed behind a manifest that was fetched and compared. -/
theorem committable_requests {cfg : Config} {s : OtaState} {e : CycleEnv} {img : List UInt8}
    (h : committable cfg s e = some img) : requestsFirmware cfg s.cleared e = true := by
  obtain ⟨-, hreaches, -⟩ := committable_eq_some.mp h
  simp only [reachesLoop, entersDownload, Bool.and_eq_true] at hreaches
  exact hreaches.1.1.1

theorem requestsFirmware_fetched {cfg : Config} {s : OtaState} {e : CycleEnv}
    (h : requestsFirmware cfg s e = true) :
    (fetchOtaManifest cfg s e.manifest).ret = some true := by
  simp only [requestsFirmware, Bool.and_eq_true, decide_eq_true_eq] at h
  exact h.1.1

/-- An image that is committed is the whole image of the server. -/
theorem committable_streams {cfg : Config} {s : OtaState} {e : CycleEnv}
    {image img : List UInt8} (hstream : Streams image [] e.reads)
    (h : committable cfg s e = some img) : img = image := by
  obtain ⟨-, -, -, hdelivered⟩ := committable_eq_some.mp h
  exact delivery_streams hstream hdelivered

end HomeNode.Ota
