-- SUMMARY: The table of registered URIs: how a registration fills a record, and when the table holds what was registered.
import HomeNode.Lib.CString
import HomeNode.Lib.Transition
import Mathlib.Logic.Function.Basic

/-!
# The URI table

`http_server_register_uri` fills the record at `uri_count` and counts it, before
it hands the URI to the httpd. A record has room for 15 characters, and only the
zeros that were there before terminate the copy.
-/

namespace HomeNode.Http

open Transition

/-! ## Data -/

/-- `MAX_URIS` -/
abbrev maxUris : Nat := 5

/-- `MAX_URI_LENGTH` -/
abbrev maxUriLength : Nat := 15

abbrev EspErr := Int

def espOk : EspErr := 0

def espErrInvalidArg : EspErr := 0x102

/-- A function registered for a URI. -/
abbrev Callback := Nat

/-- `request_method_t` -/
inductive Method where
  | get
  | post
  deriving DecidableEq

/-- `http_uri_record_t`, zeroed at first. -/
structure UriRecord where
  uri : CharArray maxUriLength := .zeros _
  callback : Option Callback := none
  method : Method := .get

/-- `uri_record` and `uri_count`. The records below the count have a callback, those
from the count on have not been written. -/
structure UriTable where
  record : Fin maxUris → UriRecord
  uriCount : Nat
  inTable : uriCount ≤ maxUris
  registered : ∀ i, i.val < uriCount → (record i).callback.isSome = true
  blank : ∀ i, uriCount ≤ i.val → record i = {}

namespace UriTable

def empty : UriTable where
  record _ := {}
  uriCount := 0
  inTable := Nat.zero_le _
  registered _ h := absurd h (Nat.not_lt_zero _)
  blank _ _ := rfl

/-- The record at `uri_count` is filled and counted. -/
def push (t : UriTable) (r : UriRecord) (h : t.uriCount < maxUris)
    (hr : r.callback.isSome = true) : UriTable where
  record := Function.update t.record ⟨t.uriCount, h⟩ r
  uriCount := t.uriCount + 1
  inTable := h
  registered i hi := by
    by_cases heq : i = ⟨t.uriCount, h⟩
    · simpa [heq] using hr
    · have hne : i.val ≠ t.uriCount := fun hval => heq (Fin.ext hval)
      rw [Function.update_of_ne heq]
      exact t.registered i (by omega)
  blank i hi := by
    have heq : i ≠ ⟨t.uriCount, h⟩ := by
      rintro rfl
      exact absurd hi (Nat.not_succ_le_self _)
    rw [Function.update_of_ne heq]
    exact t.blank i (by omega)

/-- The search of `master_request_handler`. -/
def find (t : UriTable) (uri : CStr) : Option (Fin maxUris) :=
  (List.finRange maxUris).find? fun i =>
    i.val < t.uriCount && CStr.strcmp (t.record i).uri.str uri = 0

end UriTable

/-! ## Registration -/

/-- A call of `http_server_register_uri`. `httpd` is what `httpd_register_uri_handler`
answers. -/
structure Registration where
  uri : Option CStr
  method : Method := .get
  callback : Option Callback
  httpd : EspErr := espOk

/-- A write past the end of `uri_record`, or of the field `uri`. -/
inductive WriteFault where
  | outsideTable (index : Nat)
  | outsideField (length : Nat)

/-- `http_server_register_uri` -/
def registerUri (t : UriTable) (c : Registration) : Except WriteFault (EspErr × UriTable) :=
  match c.uri, c.callback with
  | some uri, some callback =>
    if maxUriLength < uri.length then .ok (espErrInvalidArg, t)
    else if h : t.uriCount < maxUris then
      match (t.record ⟨t.uriCount, h⟩).uri.memcpy uri.bytes with
      | none => .error (.outsideField uri.length)
      | some field => .ok (c.httpd, t.push ⟨field, some callback, c.method⟩ h rfl)
    else .error (.outsideTable t.uriCount)
  | _, _ => .ok (espErrInvalidArg, t)

/-- The check of the arguments fails. -/
def Registration.rejected (c : Registration) : Bool :=
  c.callback.isNone || c.uri.all fun uri => maxUriLength < uri.length

/-- What a call does: it is turned away, it writes past the table, or it pushes a record. -/
theorem registerUri_cases (t : UriTable) (c : Registration) :
    (c.rejected = true ∧ registerUri t c = .ok (espErrInvalidArg, t)) ∨
    (c.rejected = false ∧ ∃ uri callback, c.uri = some uri ∧ c.callback = some callback ∧
      uri.length ≤ maxUriLength ∧
      ((maxUris ≤ t.uriCount ∧ registerUri t c = .error (.outsideTable t.uriCount)) ∨
        ∃ h, registerUri t c = .ok (c.httpd,
          t.push ⟨(CharArray.zeros _).write 0 uri.bytes, some callback, c.method⟩ h rfl))) := by
  unfold registerUri
  cases huri : c.uri with
  | none => exact .inl ⟨by simp [Registration.rejected, huri], by simp⟩
  | some uri =>
    cases hcallback : c.callback with
    | none => exact .inl ⟨by simp [Registration.rejected, hcallback], by simp⟩
    | some callback =>
      by_cases hlong : maxUriLength < uri.length
      · exact .inl ⟨by simp [Registration.rejected, huri, hlong], by simp [hlong]⟩
      · refine .inr ⟨by simp [Registration.rejected, huri, hcallback, not_lt.mp hlong], uri,
          callback, rfl, rfl, not_lt.mp hlong, ?_⟩
        by_cases hfull : t.uriCount < maxUris
        · have hfield : (t.record ⟨t.uriCount, hfull⟩).uri.memcpy uri.bytes =
              some ((CharArray.zeros _).write 0 uri.bytes) := by
            rw [t.blank _ le_rfl]
            exact CharArray.memcpy_eq_some.mpr ⟨not_lt.mp hlong, rfl⟩
          refine .inr ⟨hfull, ?_⟩
          simp [hlong, hfull, hfield]
        · exact .inl ⟨not_lt.mp hfull, by simp [hlong, hfull]⟩

/-! ## The registry -/

/-- A URI with its callback. -/
structure Entry where
  uri : CStr
  callback : Callback

/-- What a call wants to register. -/
def Registration.entry (c : Registration) : Option Entry :=
  match c.uri, c.callback with
  | some uri, some callback => some ⟨uri, callback⟩
  | _, _ => none

/-- The table, and what the calls have registered that returned `ESP_OK`. -/
structure Registry where
  table : UriTable
  registered : List Entry

def Registry.start : Registry := ⟨.empty, []⟩

/-- One call. Undefined when it writes past the table or past a field. -/
def Registry.step (s : Registry) (c : Registration) : Option Registry :=
  match registerUri s.table c with
  | .error _ => none
  | .ok (err, t) =>
    some ⟨t, if err = espOk then s.registered ++ c.entry.toList else s.registered⟩

/-- The record holds a terminated copy of the URI, and its callback. -/
structure UriRecord.Holds (r : UriRecord) (e : Entry) : Prop where
  uri : r.uri.Holds e.uri
  callback : r.callback = some e.callback

/-- The table holds what was registered. -/
structure UriTable.Represents (t : UriTable) (es : List Entry) : Prop where
  count : t.uriCount = es.length
  records : ∀ (i : Fin maxUris) (e : Entry), es[i.val]? = some e → (t.record i).Holds e

/-- A call that returns an error leaves the counted records as they were. -/
def Atomic (s : Registry) (c : Registration) : Prop :=
  ∀ err t, registerUri s.table c = .ok (err, t) → err ≠ espOk →
    t.uriCount = s.table.uriCount ∧ ∀ i, i.val < s.table.uriCount → t.record i = s.table.record i

/-- The calls write within the table and the fields, the table holds what they registered,
and those that fail do nothing. -/
structure TableSound (cs : List Registration) : Prop where
  within : (Transition.run Registry.step .start cs).isSome = true
  represents : ∀ s, Transition.run Registry.step .start cs = some s →
    s.table.Represents s.registered
  atomic : Throughout Registry.step Atomic .start cs

/-- The call is turned away; or there is a record left for it, the URI leaves room for its
terminator, and the httpd takes it. -/
def Fits (s : Registry) (c : Registration) : Prop :=
  c.rejected = true ∨ (s.table.uriCount < maxUris ∧
    (∀ uri ∈ c.uri, uri.length < maxUriLength) ∧ c.httpd = espOk)

/-! ## One call -/

section

variable {s s' : Registry} {c : Registration}

theorem step_eq_none_iff :
    s.step c = none ↔ c.rejected = false ∧ maxUris ≤ s.table.uriCount := by
  unfold Registry.step
  rcases registerUri_cases s.table c with
    ⟨hrejected, h⟩ | ⟨hrejected, uri, cb, -, -, -, ⟨hfull, h⟩ | ⟨hroom, h⟩⟩
  · simp [h, hrejected]
  · simp [h, hrejected, hfull]
  · simp [h, hrejected, hroom]

theorem UriTable.push_record_of_lt {t : UriTable} {r : UriRecord} {h : t.uriCount < maxUris}
    {hr : r.callback.isSome = true} {i : Fin maxUris} (hi : i.val < t.uriCount) :
    (t.push r h hr).record i = t.record i := by
  refine Function.update_of_ne ?_ r t.record
  rintro rfl
  exact absurd hi (Nat.lt_irrefl _)

/-- A pushed record holds what was registered when it leaves room for the terminator. -/
theorem push_represents_iff {t : UriTable} {es : List Entry} {uri : CStr} {cb : Callback}
    {m : Method} (h : t.uriCount < maxUris) (hlen : uri.length ≤ maxUriLength) :
    (t.push ⟨(CharArray.zeros _).write 0 uri.bytes, some cb, m⟩ h rfl).Represents
        (es ++ [⟨uri, cb⟩]) ↔
      t.Represents es ∧ uri.length < maxUriLength := by
  rw [← CharArray.holds_write_zeros uri hlen]
  constructor
  · intro hrep
    have hcount : t.uriCount = es.length := by simpa [UriTable.push] using hrep.count
    refine ⟨⟨hcount, fun i e he => ?_⟩, ?_⟩
    · have hi : i.val < es.length := (List.getElem?_eq_some_iff.mp he).1
      rw [← UriTable.push_record_of_lt (hcount ▸ hi)]
      exact hrep.records i e ((List.getElem?_append_left hi).trans he)
    · have hlast := (hrep.records ⟨t.uriCount, h⟩ ⟨uri, cb⟩ (by simp [hcount])).uri
      simpa [UriTable.push] using hlast
  · rintro ⟨hrep, hholds⟩
    refine ⟨by simp [UriTable.push, hrep.count], fun i e he => ?_⟩
    rcases Nat.lt_or_ge i.val es.length with hi | hi
    · rw [UriTable.push_record_of_lt (hrep.count ▸ hi)]
      exact hrep.records i e ((List.getElem?_append_left hi).symm.trans he)
    · have hlast : i.val = es.length ∧ ⟨uri, cb⟩ = e := by
        rw [List.getElem?_append_right hi] at he
        obtain ⟨hlt, heq⟩ := List.getElem?_eq_some_iff.mp he
        simp only [List.length_singleton] at hlt
        exact ⟨by omega, by simpa using heq⟩
      obtain ⟨hi, rfl⟩ := hlast
      obtain rfl : i = ⟨t.uriCount, h⟩ := Fin.ext (hi.trans hrep.count.symm)
      simpa [UriTable.push] using UriRecord.Holds.mk hholds rfl

theorem step_of_rejected (h : c.rejected = true) : s.step c = some s := by
  rcases registerUri_cases s.table c with ⟨-, hcall⟩ | ⟨hno, -⟩
  · simp [Registry.step, hcall, espOk, espErrInvalidArg]
  · simp [h] at hno

/-- What has been registered has been counted. -/
theorem registered_le_step (h : s.registered.length ≤ s.table.uriCount)
    (hstep : s.step c = some s') : s'.registered.length ≤ s'.table.uriCount := by
  rcases registerUri_cases s.table c with
    ⟨hrejected, -⟩ | ⟨-, uri, cb, huri, hcb, -, ⟨-, hcall⟩ | ⟨hroom, hcall⟩⟩
  · rw [step_of_rejected hrejected] at hstep
    exact Option.some.inj hstep ▸ h
  · simp [Registry.step, hcall] at hstep
  · simp only [Registry.step, hcall, Option.some.injEq] at hstep
    subst hstep
    split_ifs
    · simpa [Registration.entry, huri, hcb, UriTable.push] using h
    · exact h.trans (Nat.le_succ _)

theorem represents_step (h : s.registered.length ≤ s.table.uriCount)
    (hstep : s.step c = some s') :
    s'.table.Represents s'.registered ↔ s.table.Represents s.registered ∧ Fits s c := by
  rcases registerUri_cases s.table c with
    ⟨hrejected, -⟩ | ⟨hrejected, uri, cb, huri, hcb, hlen, ⟨-, hcall⟩ | ⟨hroom, hcall⟩⟩
  · rw [step_of_rejected hrejected] at hstep
    simp [← Option.some.inj hstep, Fits, hrejected]
  · simp [Registry.step, hcall] at hstep
  · simp only [Registry.step, hcall, Option.some.injEq] at hstep
    subst hstep
    have hfits : Fits s c ↔ uri.length < maxUriLength ∧ c.httpd = espOk := by
      simp [Fits, hrejected, hroom, huri]
    rw [hfits]
    by_cases hok : c.httpd = espOk
    · simpa [hok, Registration.entry, huri, hcb] using push_represents_iff hroom hlen
    · -- the record is counted, but nothing was registered
      simp only [hok, if_false, and_false, iff_false]
      intro hrep
      have hcount : s.table.uriCount + 1 = s.registered.length := hrep.count
      omega

theorem Fits.isSome_step (h : Fits s c) : (s.step c).isSome = true := by
  rcases h with hrejected | ⟨hroom, -, -⟩
  · rw [step_of_rejected hrejected]
    rfl
  · rw [Option.isSome_iff_ne_none]
    intro hnone
    have := (step_eq_none_iff.mp hnone).2
    omega

theorem Fits.atomic (h : Fits s c) : Atomic s c := by
  intro err t hcall herr
  rcases registerUri_cases s.table c with
    ⟨-, hrejected⟩ | ⟨hrejected, uri, cb, -, -, -, ⟨-, hfault⟩ | ⟨hroom, hpushed⟩⟩
  · obtain ⟨-, rfl⟩ := Prod.mk.inj (Except.ok.inj (hrejected.symm.trans hcall))
    exact ⟨rfl, fun _ _ => rfl⟩
  · simp [hfault] at hcall
  · obtain ⟨rfl, -⟩ := Prod.mk.inj (Except.ok.inj (hpushed.symm.trans hcall))
    rcases h with h | ⟨-, -, hok⟩
    · simp [h] at hrejected
    · exact absurd hok herr

end

/-- A sequence of calls keeps the table sound exactly when each of them fits. -/
theorem tableSound_iff (cs : List Registration) :
    TableSound cs ↔ Throughout Registry.step Fits .start cs := by
  have hinv : Preserved Registry.step fun s => s.registered.length ≤ s.table.uriCount :=
    fun _ _ _ h hstep => registered_le_step h hstep
  have hstart : Registry.start.table.Represents Registry.start.registered :=
    ⟨rfl, fun i e he => by simp [Registry.start] at he⟩
  have hexact {s : Registry} (hrun : Transition.run Registry.step .start cs = some s) :
      s.table.Represents s.registered ↔ Throughout Registry.step Fits .start cs :=
    good_iff_throughout hinv (fun _ _ _ h hstep => represents_step h hstep) le_rfl hstart hrun
  constructor
  · intro hsound
    obtain ⟨s, hrun⟩ := Option.isSome_iff_exists.mp hsound.within
    exact (hexact hrun).mp (hsound.represents s hrun)
  · intro hfits
    exact ⟨hfits.run_isSome fun _ _ => Fits.isSome_step, fun s hrun => (hexact hrun).mpr hfits,
      fun pre c u hpre hu => (hfits pre c u hpre hu).atomic⟩

/-! ## The search -/

/-- A search by index finds the first element. -/
theorem finRange_find?_bind {α : Type*} {n : Nat} {es : List α} (h : es.length ≤ n) (p : α → Bool) :
    ((List.finRange n).find? fun i => es[i.val]?.any p).bind (fun i => es[i.val]?) = es.find? p := by
  induction es generalizing n with
  | nil => simp
  | cons e es ih =>
    cases n with
    | zero => simp at h
    | succ n =>
      have hrest := ih (n := n) (by simpa using h)
      rw [List.finRange_succ, List.find?_cons, List.find?_cons, List.find?_map]
      cases hp : p e with
      | true => simp [hp]
      | false => simpa [hp, Function.comp_def, Option.bind_map] using hrest

/-- The counted records are those of `es`, as far as they can be read. -/
structure UriTable.Lists (t : UriTable) (es : List Entry) : Prop where
  count : t.uriCount = es.length
  records : ∀ (i : Fin maxUris) (e : Entry), es[i.val]? = some e →
    (t.record i).uri.str = e.uri ∧ (t.record i).callback = some e.callback

theorem UriTable.Represents.lists {t : UriTable} {es : List Entry} (h : t.Represents es) :
    t.Lists es where
  count := h.count
  records i e he := ⟨(h.records i e he).uri.str, (h.records i e he).callback⟩

/-- A URI leads to the callback of its first record. -/
theorem UriTable.Lists.find {t : UriTable} {es : List Entry} (h : t.Lists es) (uri : CStr) :
    (t.find uri).bind (fun i => (t.record i).callback) =
      (es.find? fun e => e.uri = uri).map Entry.callback := by
  have hle : es.length ≤ maxUris := h.count ▸ t.inTable
  have hfind : t.find uri = (List.finRange maxUris).find? fun i =>
      es[i.val]?.any fun e => e.uri = uri := by
    rw [UriTable.find]
    congr 1
    funext i
    cases he : es[i.val]? with
    | none =>
      have hi : t.uriCount ≤ i.val := by
        rw [h.count]
        exact List.getElem?_eq_none_iff.mp he
      simp [not_lt.mpr hi]
    | some e =>
      have hi : i.val < t.uriCount := by
        rw [h.count]
        exact (List.getElem?_eq_some_iff.mp he).1
      simp [hi, CStr.strcmp_eq_zero_iff, (h.records i e he).1]
  rw [← finRange_find?_bind hle, ← hfind, Option.map_bind]
  cases hfound : t.find uri with
  | none => rfl
  | some i =>
    rw [hfind] at hfound
    have hany := List.find?_some hfound
    obtain ⟨e, he, -⟩ := (Option.any_eq_true _ es[i.val]?).mp hany
    simp [he, (h.records i e he).2]

/-- In a table that holds what was registered, a URI leads to the callback that was
registered for it first. -/
theorem UriTable.Represents.find {t : UriTable} {es : List Entry} (h : t.Represents es)
    (uri : CStr) :
    (t.find uri).bind (fun i => (t.record i).callback) =
      (es.find? fun e => e.uri = uri).map Entry.callback :=
  h.lists.find uri

theorem UriTable.lists_empty : UriTable.empty.Lists [] :=
  ⟨rfl, fun i e he => by simp at he⟩

theorem UriTable.Lists.push {t : UriTable} {es : List Entry} (h : t.Lists es) {r : UriRecord}
    {e : Entry} (hroom : t.uriCount < maxUris) (huri : r.uri.str = e.uri)
    (hcallback : r.callback = some e.callback) :
    (t.push r hroom (by rw [hcallback]; rfl)).Lists (es ++ [e]) := by
  refine ⟨by simp [UriTable.push, h.count], fun i e' he => ?_⟩
  rcases Nat.lt_or_ge i.val es.length with hi | hi
  · rw [UriTable.push_record_of_lt (h.count ▸ hi)]
    exact h.records i e' ((List.getElem?_append_left hi).symm.trans he)
  · rw [List.getElem?_append_right hi] at he
    obtain ⟨hlt, rfl⟩ := List.getElem?_eq_some_iff.mp he
    simp only [List.length_singleton] at hlt
    have hcount := h.count
    have hlast : i = ⟨t.uriCount, hroom⟩ := by
      apply Fin.ext
      show i.val = t.uriCount
      omega
    simpa [UriTable.push, hlast] using ⟨huri, hcallback⟩

/-- What a call leaves in the table, whatever the httpd answers. -/
def Registration.recorded (c : Registration) : Option Entry :=
  if c.rejected then none else c.entry

def recorded (cs : List Registration) : List Entry := cs.filterMap Registration.recorded

theorem Registration.recorded_eq_some_iff {c : Registration} {e : Entry} :
    c.recorded = some e ↔
      c.uri = some e.uri ∧ c.callback = some e.callback ∧ e.uri.length ≤ maxUriLength := by
  obtain ⟨uri, method, callback, httpd⟩ := c
  cases uri with
  | none => simp [Registration.recorded, Registration.rejected]
  | some uri =>
    cases callback with
    | none => simp [Registration.recorded, Registration.rejected]
    | some f =>
      simp only [Registration.recorded, Registration.rejected, Registration.entry,
        Option.isNone_some, Option.all_some, Bool.false_or, decide_eq_true_eq,
        Option.ite_none_left_eq_some, Option.some.injEq, not_lt]
      constructor
      · rintro ⟨hlen, rfl⟩
        exact ⟨rfl, rfl, hlen⟩
      · rintro ⟨rfl, rfl, hlen⟩
        exact ⟨hlen, rfl⟩

/-- A call that does not write past the table adds its record to it. -/
theorem lists_step {s s' : Registry} {c : Registration} {es : List Entry}
    (h : s.table.Lists es) (hstep : s.step c = some s') :
    s'.table.Lists (es ++ c.recorded.toList) := by
  rcases registerUri_cases s.table c with
    ⟨hrejected, -⟩ | ⟨hrejected, uri, cb, huri, hcb, hlen, ⟨-, hcall⟩ | ⟨hroom, hcall⟩⟩
  · rw [step_of_rejected hrejected] at hstep
    obtain rfl := Option.some.inj hstep
    simpa [Registration.recorded, hrejected] using h
  · simp [Registry.step, hcall] at hstep
  · simp only [Registry.step, hcall, Option.some.injEq] at hstep
    subst hstep
    have hentry : c.recorded = some ⟨uri, cb⟩ := by
      simp [Registration.recorded, hrejected, Registration.entry, huri, hcb]
    rw [hentry]
    exact h.push hroom (CharArray.str_write_zeros uri hlen) rfl

/-- What a call registers. -/
def Registration.accepted (c : Registration) : Option Entry :=
  if c.httpd = espOk then c.recorded else none

theorem Registration.accepted_eq_some_iff {c : Registration} {e : Entry} :
    c.accepted = some e ↔ c.httpd = espOk ∧ c.recorded = some e := by
  simp [Registration.accepted]

theorem registered_step {s s' : Registry} {c : Registration} (hstep : s.step c = some s') :
    s'.registered = s.registered ++ c.accepted.toList := by
  rcases registerUri_cases s.table c with
    ⟨hrejected, -⟩ | ⟨hrejected, uri, cb, -, -, -, ⟨-, hcall⟩ | ⟨hroom, hcall⟩⟩
  · rw [step_of_rejected hrejected] at hstep
    obtain rfl := Option.some.inj hstep
    simp [Registration.accepted, Registration.recorded, hrejected]
  · simp [Registry.step, hcall] at hstep
  · simp only [Registry.step, hcall, Option.some.injEq] at hstep
    subst hstep
    have hentry : c.recorded = c.entry := by simp [Registration.recorded, hrejected]
    by_cases hok : c.httpd = espOk
    · simp [Registration.accepted, hok, hentry]
    · simp [Registration.accepted, hok]

section

variable {cs : List Registration} {s : Registry}

theorem lists_run (hrun : Transition.run Registry.step .start cs = some s) :
    s.table.Lists (recorded cs) := by
  apply Transition.run_induction (P := fun cs s => s.table.Lists (recorded cs))
    UriTable.lists_empty _ cs s hrun
  intro cs s c s' _ h hstep
  have hrecorded : recorded (cs ++ [c]) = recorded cs ++ c.recorded.toList := by
    cases hc : c.recorded <;> simp [recorded, hc]
  rw [hrecorded]
  exact lists_step h hstep

theorem registered_run (hrun : Transition.run Registry.step .start cs = some s) :
    s.registered = cs.filterMap Registration.accepted := by
  apply Transition.run_induction
    (P := fun cs s => s.registered = cs.filterMap Registration.accepted) rfl _ cs s hrun
  intro cs s c s' _ h hstep
  rw [registered_step hstep, h]
  cases hc : c.accepted <;> simp [hc]

/-- What the httpd has accepted is in the table. -/
theorem registered_subset_recorded (hrun : Transition.run Registry.step .start cs = some s) :
    s.registered ⊆ recorded cs := by
  intro e he
  rw [registered_run hrun] at he
  obtain ⟨c, hc, haccepted⟩ := List.mem_filterMap.mp he
  exact List.mem_filterMap.mpr ⟨c, hc, (Registration.accepted_eq_some_iff.mp haccepted).2⟩

/-- No more calls than there are records stay within the table. -/
theorem run_isSome_of_length (h : s.table.uriCount + cs.length ≤ maxUris) :
    (Transition.run Registry.step s cs).isSome = true := by
  induction cs generalizing s with
  | nil => rfl
  | cons c cs ih =>
    simp only [List.length_cons] at h
    cases hstep : s.step c with
    | none =>
      have hfull := (step_eq_none_iff.mp hstep).2
      omega
    | some s' =>
      have hcount : s'.table.uriCount ≤ s.table.uriCount + 1 := by
        rcases registerUri_cases s.table c with
          ⟨hrejected, -⟩ | ⟨-, uri, cb, -, -, -, ⟨-, hcall⟩ | ⟨hroom, hcall⟩⟩
        · rw [step_of_rejected hrejected] at hstep
          obtain rfl := Option.some.inj hstep
          exact Nat.le_succ _
        · simp [Registry.step, hcall] at hstep
        · simp only [Registry.step, hcall, Option.some.injEq] at hstep
          subst hstep
          rfl
      rw [Transition.run_cons, hstep]
      exact ih (by omega)

end

/-! ## Calls that do not fit -/

/-- A URI of 15 characters. -/
def boundaryCall : Registration :=
  { uri := some ⟨CStr.ascii "/gate-status-15", by decide⟩, callback := some 1 }

def shortUri : CStr := ⟨CStr.ascii "/get-log", by decide⟩

/-- A 15-character URI is not terminated, the sixth record lies outside the table, and a call
that the httpd refuses is counted. -/
theorem not_tableSound :
    ¬ TableSound [boundaryCall] ∧
      ¬ TableSound (List.replicate 6 { uri := some shortUri, callback := some 1 }) ∧
      ¬ TableSound [{ uri := some shortUri, callback := some 1, httpd := -1 }] := by
  refine ⟨fun h => ?_, fun h => ?_, fun h => ?_⟩
  · have hholds := ((h.represents _ rfl).records 0 _ rfl).uri
    exact absurd hholds.1 (by decide)
  · exact absurd h.within (by decide +kernel)
  · exact absurd (h.represents _ rfl).count (by decide +kernel)

end HomeNode.Http
