-- SUMMARY: The home screen: its labels, the jobs that set them, and the callbacks that carry the jobs out.
import HomeNode.Gui.Worker

/-!
# The home screen

`home_screen.c` with the types of `ui_defs.h`. What is done to the display is the
list of LVGL calls. The objects that LVGL makes are parameters: it stops the program
rather than return `NULL`.
-/

namespace HomeNode.Gui

abbrev LvObj := Nat

inductive LvCall where
  | objCreate (obj : LvObj)
  | labelCreate (parent obj : LvObj)
  | imgCreate (parent obj : LvObj)
  | barCreate (parent obj : LvObj)
  | setPos (obj : LvObj) (x y : Int)
  | setWidth (obj : LvObj) (w : Int)
  | setSize (obj : LvObj) (w h : Int)
  | setLongModeClip (obj : LvObj)
  | setStyleClipCorner (obj : LvObj)
  | setInnerAlignCenter (obj : LvObj)
  | barSetValue (obj : LvObj) (value : Int)
  | labelSetText (obj : LvObj) (text : CStr)
  | scrLoad (screen : Option LvObj)
  deriving DecidableEq

/-! ## Screens -/

/-- `UI_MAX_STRING_LENGTH` -/
def uiMaxStringLength : Nat := 30

inductive UiChildType where
  | icon
  | label
  | bar
  deriving DecidableEq

/-- `ui_child_t`. Nothing here reads its icon, state and text. -/
structure UiChild where
  type : UiChildType
  id : String
  lvObj : Option LvObj := none
  x : Int
  y : Int
  w : Int
  h : Int
  initialValue : Int := 0

structure UiScreen where
  children : List UiChild
  lvScreen : Option LvObj := none

def homeScreen : UiScreen where
  children := [
    { type := .label, id := "wifi_ssid", x := 57, y := 0, w := 46, h := 26 },
    { type := .label, id := "discovery_msg", x := 0, y := 1, w := 52, h := 26 },
    { type := .label, id := "main_label", x := 2, y := 31, w := 122, h := 28 }]

/-- `children[i].lv_obj`. The array is zero behind the children of the screen. -/
def UiScreen.lvObj (s : UiScreen) (i : Nat) : Option LvObj := s.children[i]?.bind UiChild.lvObj

/-- The object of the child with this `id`. -/
def UiScreen.lvObjOf (s : UiScreen) (id : String) : Option LvObj :=
  (s.children.find? fun c => c.id == id).bind UiChild.lvObj

/-- The body of the loop of `ui_home_init`, for the object that LVGL makes. -/
def initChild (screen obj : LvObj) (c : UiChild) : UiChild × List LvCall :=
  match c.type with
  | .label => ({ c with lvObj := some obj },
      [.labelCreate screen obj, .setPos obj c.x c.y, .setWidth obj c.w, .setLongModeClip obj])
  | .icon => ({ c with lvObj := some obj },
      [.imgCreate screen obj, .setPos obj c.x c.y, .setSize obj c.w c.h, .setStyleClipCorner obj,
        .setInnerAlignCenter obj])
  | .bar => ({ c with lvObj := some obj },
      [.barCreate screen obj, .setPos obj c.x c.y, .setSize obj c.w c.h,
        .barSetValue obj c.initialValue])

/-- `ui_home_init`, with the screen and the objects that LVGL makes for it. -/
def uiHomeInit (s : UiScreen) (screen : LvObj) (objs : Nat → LvObj) : UiScreen × List LvCall :=
  let inits := s.children.mapIdx fun i c => initChild screen (objs i) c
  ({ s with lvScreen := some screen, children := inits.map Prod.fst },
    .objCreate screen :: inits.flatMap Prod.snd)

/-! ## Jobs -/

/-- `ui_home_screen_label_job_t` -/
structure LabelJob where
  childIndex : UInt8
  text : CharArray uiMaxStringLength

namespace LabelJob

def toBytes (job : LabelJob) : List UInt8 := job.childIndex :: job.text.bytes

theorem length_text {data : CharArray uiWorkerMaxJobSize} :
    (data.bytes.tail.take uiMaxStringLength).length = uiMaxStringLength := by
  simp [data.size, uiWorkerMaxJobSize, uiMaxStringLength]

/-- `(ui_home_screen_label_job_t *)arg` -/
def ofBytes (arg : CharArray uiWorkerMaxJobSize) : LabelJob :=
  ⟨arg.bytes.headD 0, arg.bytes.tail.take uiMaxStringLength, length_text⟩

theorem length_toBytes (job : LabelJob) : job.toBytes.length = 31 := by
  simp [toBytes, job.text.size, uiMaxStringLength]

/-- A job comes out of the message that it was copied into. -/
theorem ofBytes_write (job : LabelJob) (stack : CharArray uiWorkerMaxJobSize) :
    ofBytes (stack.write 0 job.toBytes) = job := by
  have hfits : job.toBytes.length ≤ uiWorkerMaxJobSize := by
    rw [length_toBytes]
    decide
  have hbytes := CharArray.bytes_write_front stack hfits
  obtain ⟨childIndex, bytes, hsize⟩ := job
  simp only [ofBytes, hbytes]
  simp [toBytes, ← hsize]

end LabelJob

/-- The callbacks that are handed to the worker. -/
inductive UiCb where
  | setWifiSsidJob
  | setDiscoveryMsgJob
  | setMainLabelJob
  | loadScreenCb
  deriving DecidableEq

/-- The text of an object, if there is one. -/
def setText (obj : Option LvObj) (text : CStr) : List LvCall :=
  obj.toList.map fun obj => .labelSetText obj text

/-- What the callbacks for the labels have in common. -/
def setLabelJob (s : UiScreen) (arg : CharArray uiWorkerMaxJobSize) : List LvCall :=
  let job := LabelJob.ofBytes arg
  setText (s.lvObj job.childIndex.toNat) job.text.str

def uiHomeScreenSetWifiSsidJob (s : UiScreen) (arg : CharArray uiWorkerMaxJobSize) :
    List LvCall := setLabelJob s arg

def uiHomeScreenSetDiscoveryMsgJob (s : UiScreen) (arg : CharArray uiWorkerMaxJobSize) :
    List LvCall := setLabelJob s arg

def uiHomeScreenSetMainLabelJob (s : UiScreen) (arg : CharArray uiWorkerMaxJobSize) :
    List LvCall := setLabelJob s arg

/-- `ui_home_load_screen_cb` -/
def uiHomeLoadScreenCb (s : UiScreen) : List LvCall := [.scrLoad s.lvScreen]

/-- `msg.cb((void *)msg.data)` -/
def UiCb.call (s : UiScreen) (cb : UiCb) (arg : CharArray uiWorkerMaxJobSize) : List LvCall :=
  match cb with
  | .setWifiSsidJob => uiHomeScreenSetWifiSsidJob s arg
  | .setDiscoveryMsgJob => uiHomeScreenSetDiscoveryMsgJob s arg
  | .setMainLabelJob => uiHomeScreenSetMainLabelJob s arg
  | .loadScreenCb => uiHomeLoadScreenCb s

/-- What the setters have in common: the job that they hand to the worker, made on their stack. -/
def labelJob (cb : UiCb) (childIndex : UInt8) (stack : CharArray uiMaxStringLength) (text : CStr) :
    UiCb × List UInt8 :=
  (cb, LabelJob.toBytes ⟨childIndex, stack.printStr text⟩)

def uiHomeScreenSetWifiSsid (stack : CharArray uiMaxStringLength) (text : CStr) :
    UiCb × List UInt8 := labelJob .setWifiSsidJob 0 stack text

def uiHomeScreenSetDiscoveryMsg (stack : CharArray uiMaxStringLength) (text : CStr) :
    UiCb × List UInt8 := labelJob .setDiscoveryMsgJob 1 stack text

def uiHomeScreenSetMainLabel (stack : CharArray uiMaxStringLength) (text : CStr) :
    UiCb × List UInt8 := labelJob .setMainLabelJob 2 stack text

def uiHomeLoadScreen : UiCb × List UInt8 := (.loadScreenCb, [])

/-- The functions of `ui_home.h`. -/
inductive UiCall where
  | loadScreen
  | setWifiSsid (text : CStr)
  | setDiscoveryMsg (text : CStr)
  | setMainLabel (text : CStr)
  deriving DecidableEq

/-- The job that such a function hands to the worker. -/
def UiCall.job (stack : CharArray uiMaxStringLength) : UiCall → UiCb × List UInt8
  | .loadScreen => uiHomeLoadScreen
  | .setWifiSsid text => uiHomeScreenSetWifiSsid stack text
  | .setDiscoveryMsg text => uiHomeScreenSetDiscoveryMsg stack text
  | .setMainLabel text => uiHomeScreenSetMainLabel stack text

/-! ## What the functions are for -/

/-- The text as far as a label takes it. -/
def shownText (text : CStr) : CStr := text.take (uiMaxStringLength - 1)

/-- What a function of `ui_home.h` is to do: to the label with the `id` that it names. -/
def UiCall.lvCalls (s : UiScreen) : UiCall → List LvCall
  | .loadScreen => [.scrLoad s.lvScreen]
  | .setWifiSsid text => setText (s.lvObjOf "wifi_ssid") (shownText text)
  | .setDiscoveryMsg text => setText (s.lvObjOf "discovery_msg") (shownText text)
  | .setMainLabel text => setText (s.lvObjOf "main_label") (shownText text)

/-- The home screen after `ui_home_init`. -/
def readyScreen (screen : LvObj) (objs : Nat → LvObj) : UiScreen :=
  (uiHomeInit homeScreen screen objs).1

/-- No job is too large for the worker. -/
theorem UiCall.length_job (c : UiCall) (stack : CharArray uiMaxStringLength) :
    (c.job stack).2.length ≤ uiWorkerMaxJobSize := by
  cases c with
  | loadScreen => exact Nat.zero_le _
  | setWifiSsid text | setDiscoveryMsg text | setMainLabel text =>
    apply (LabelJob.length_toBytes _).le.trans
    decide

theorem setLabelJob_write (s : UiScreen) (cb : UiCb) (childIndex : UInt8)
    (stack : CharArray uiMaxStringLength) (text : CStr) (msg : CharArray uiWorkerMaxJobSize) :
    setLabelJob s (msg.write 0 (labelJob cb childIndex stack text).2) =
      setText (s.lvObj childIndex.toNat) (shownText text) := by
  rw [setLabelJob, labelJob, LabelJob.ofBytes_write]
  simp only [CharArray.str_printStr stack text (n := uiMaxStringLength) (by decide), shownText]

/-- A job that arrives does what its function is for, whatever was on the stacks. -/
theorem UiCall.call_job (c : UiCall) (screen : LvObj) (objs : Nat → LvObj)
    (stack : CharArray uiMaxStringLength) (msg : CharArray uiWorkerMaxJobSize) :
    (c.job stack).1.call (readyScreen screen objs) (msg.write 0 (c.job stack).2) =
      c.lvCalls (readyScreen screen objs) := by
  cases c with
  | loadScreen => rfl
  | setWifiSsid text => exact setLabelJob_write _ .setWifiSsidJob 0 stack text msg
  | setDiscoveryMsg text => exact setLabelJob_write _ .setDiscoveryMsgJob 1 stack text msg
  | setMainLabel text => exact setLabelJob_write _ .setMainLabelJob 2 stack text msg

end HomeNode.Gui
