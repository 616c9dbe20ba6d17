-- SUMMARY: The resources a trace of OTA calls holds: the HTTP connection and the update handles.
import HomeNode.Ota.Task

/-!
# Resources of a trace

What a sequence of calls holds at its end, read off the calls alone: the
connection of the HTTP client, and the handles that came from `esp_ota_begin`
and went to neither `esp_ota_end` nor `esp_ota_abort` since.
-/

namespace HomeNode.Ota

/-- Whether the HTTP client has a connection open after a call. -/
def Call.connects (open' : Bool) : Call → Bool
  | .clientOpen ok => open' || ok
  | .perform _ _ => true
  | .clientClose => false
  | _ => open'

/-- Whether a trace leaves the connection open. -/
def connected (open' : Bool) (calls : List Call) : Bool := calls.foldl Call.connects open'

@[simp] theorem connected_nil (b : Bool) : connected b [] = b := rfl

@[simp] theorem connected_cons (b : Bool) (c : Call) (cs : List Call) :
    connected b (c :: cs) = connected (c.connects b) cs := rfl

@[simp] theorem connected_append (b : Bool) (cs ds : List Call) :
    connected b (cs ++ ds) = connected (connected b cs) ds := by
  simp [connected]

/-- The open handles after a call. `esp_ota_end` and `esp_ota_abort` close a
handle whatever they return. -/
def Call.handlesAfter (handles : List Handle) : Call → List Handle
  | .otaBegin _ (some h) => h :: handles
  | .otaEnd h _ | .otaAbort h => handles.erase h
  | _ => handles

def openHandles (handles : List Handle) (calls : List Call) : List Handle :=
  calls.foldl Call.handlesAfter handles

/-- A handle that is not open is passed to `esp_ota_end` or `esp_ota_abort`. -/
def Call.misuses (handles : List Handle) : Call → Bool
  | .otaEnd h _ | .otaAbort h => !handles.contains h
  | _ => false

def misused (handles : List Handle) : List Call → Bool
  | [] => false
  | c :: cs => c.misuses handles || misused (c.handlesAfter handles) cs

/-- A trace ESP-IDF can answer with: `esp_ota_end` succeeds on open handles only. -/
def endsOpen (handles : List Handle) : List Call → Bool
  | [] => true
  | c :: cs =>
    (match c with
      | .otaEnd h true => handles.contains h
      | _ => true) && endsOpen (c.handlesAfter handles) cs

@[simp] theorem openHandles_nil (hs : List Handle) : openHandles hs [] = hs := rfl

@[simp] theorem openHandles_cons (hs : List Handle) (c : Call) (cs : List Call) :
    openHandles hs (c :: cs) = openHandles (c.handlesAfter hs) cs := rfl

@[simp] theorem openHandles_append (hs : List Handle) (cs ds : List Call) :
    openHandles hs (cs ++ ds) = openHandles (openHandles hs cs) ds := by
  simp [openHandles]

@[simp] theorem misused_nil (hs : List Handle) : misused hs [] = false := rfl

@[simp] theorem misused_cons (hs : List Handle) (c : Call) (cs : List Call) :
    misused hs (c :: cs) = (c.misuses hs || misused (c.handlesAfter hs) cs) := rfl

@[simp] theorem misused_append (hs : List Handle) (cs ds : List Call) :
    misused hs (cs ++ ds) = (misused hs cs || misused (openHandles hs cs) ds) := by
  induction cs generalizing hs with
  | nil => simp
  | cons c cs ih => simp [ih, Bool.or_assoc]

/-- Nothing is held at the end, and no closed handle was used on the way. -/
structure Balanced (calls : List Call) : Prop where
  handles : openHandles [] calls = []
  used : misused [] calls = false
  closed : connected false calls = false

theorem Balanced.nil : Balanced [] := ⟨rfl, rfl, rfl⟩

/-- After a balanced past, the trace is balanced when its last part is. -/
theorem Balanced.append_iff {cs ds : List Call} (h : Balanced cs) :
    Balanced (cs ++ ds) ↔ Balanced ds := by
  constructor
  · intro hd
    exact ⟨by simpa [h.handles] using hd.handles, by simpa [h.handles, h.used] using hd.used,
      by simpa [h.closed] using hd.closed⟩
  · intro hd
    exact ⟨by simpa [h.handles] using hd.handles, by simpa [h.handles, h.used] using hd.used,
      by simpa [h.closed] using hd.closed⟩

end HomeNode.Ota
