-- SUMMARY: The two URI matchers, the httpd's on the path and the dispatcher's on the whole URI, and when they agree.
import HomeNode.Http.Dispatch

/-!
# Routing

A request is routed twice. The httpd looks for the first template that
`httpd_uri_match_wildcard` matches against the path of the request URI, and
calls `master_request_handler`. That looks for the record whose text is the
request URI, with its query.
-/

namespace HomeNode.Http.Routing

/-! ## The httpd -/

/-- `?`, `*`, `/` and `#` -/
def question : UInt8 := 63

def asterisk : UInt8 := 42

def slash : UInt8 := 47

def hash : UInt8 := 35

/-- A character of the path of a URI. -/
def PathChar (b : UInt8) : Prop := 33 ≤ b ∧ b ≤ 126 ∧ b ≠ question ∧ b ≠ hash

instance (b : UInt8) : Decidable (PathChar b) :=
  inferInstanceAs (Decidable (33 ≤ b ∧ b ≤ 126 ∧ b ≠ question ∧ b ≠ hash))

/-- An absolute path, without a query or a fragment. -/
def PlainPath (uri : CStr) : Prop :=
  uri.bytes.head? = some slash ∧ ∀ b ∈ uri.bytes, PathChar b

instance (uri : CStr) : Decidable (PlainPath uri) :=
  inferInstanceAs (Decidable (uri.bytes.head? = some slash ∧ ∀ b ∈ uri.bytes, PathChar b))

/-- What the httpd finds as the path of a request URI. It answers itself where it finds none. An
absolute path is the path of the URI that consists of it. -/
structure UriParser where
  path : CStr → Option CStr
  documented : ∀ uri, PlainPath uri → path uri = some uri

/-- A template that ends in neither `?` nor `*`. -/
def Literal (template : CStr) : Prop :=
  template.bytes.getLast? ≠ some question ∧ template.bytes.getLast? ≠ some asterisk

/-- What `httpd_uri_match_wildcard` is documented to match: `*` at the end lets anything
follow, `?` makes the character in front of it optional, and with both of them anything may
follow that character. -/
inductive Matches (template : CStr) : CStr → Prop where
  | literal (h : Literal template) : Matches template template
  | wildcard (uri : CStr) (pre : List UInt8) (h : template.bytes = pre ++ [asterisk])
    (hpre : pre.getLast? ≠ some question) (huri : pre <+: uri.bytes) : Matches template uri
  | optional (uri : CStr) (pre : List UInt8) (c : UInt8)
    (h : template.bytes = pre ++ [c, question]) (hc : c ≠ asterisk)
    (huri : uri.bytes = pre ∨ uri.bytes = pre ++ [c]) : Matches template uri
  | both (uri : CStr) (pre : List UInt8) (c : UInt8)
    (h : template.bytes = pre ++ [c, question, asterisk] ∨
      template.bytes = pre ++ [c, asterisk, question])
    (huri : uri.bytes = pre ∨ pre ++ [c] <+: uri.bytes) : Matches template uri

/-- A `uri_match_fn` that keeps to the documentation. -/
structure UriMatchFn where
  test : CStr → CStr → Bool
  documented : ∀ template uri, test template uri = true ↔ Matches template uri

/-- The template that the httpd routes a request by. -/
def route (m : UriMatchFn) (p : UriParser) (templates : List Entry) (uri : CStr) : Option Entry :=
  (p.path uri).bind fun path => templates.find? fun e => m.test e.uri path

theorem route_matches {m : UriMatchFn} {p : UriParser} {templates : List Entry} {uri : CStr}
    {e : Entry} (h : route m p templates uri = some e) :
    e ∈ templates ∧ ∃ path, p.path uri = some path ∧ Matches e.uri path := by
  obtain ⟨path, hpath, hfind⟩ := Option.bind_eq_some_iff.mp h
  have htest := List.find?_some (p := fun e : Entry => m.test e.uri path) hfind
  exact ⟨List.mem_of_find?_eq_some hfind, path, hpath, (m.documented _ _).mp htest⟩

theorem route_isSome {m : UriMatchFn} {p : UriParser} {templates : List Entry} {uri path : CStr}
    {e : Entry} (he : e ∈ templates) (hpath : p.path uri = some path) (h : Matches e.uri path) :
    (route m p templates uri).isSome = true := by
  rw [route, hpath, Option.bind_some, List.find?_isSome]
  exact ⟨e, he, (m.documented _ _).mpr h⟩

/-- A literal template matches itself only. -/
theorem matches_literal {template uri : CStr} (h : Literal template) :
    Matches template uri ↔ uri = template := by
  constructor
  · intro hmatch
    cases hmatch with
    | literal => rfl
    | wildcard _ pre ht => exact (h.2 (by simp [ht])).elim
    | optional _ pre c ht => exact (h.1 (by simp [ht])).elim
    | both _ pre c ht =>
      rcases ht with ht | ht
      · exact (h.2 (by simp [ht])).elim
      · exact (h.1 (by simp [ht])).elim
  · rintro rfl
    exact .literal h

/-- A plain path matches itself as a template, with a `*` at its end too. -/
theorem matches_self {template : CStr} (h : PlainPath template) : Matches template template := by
  have hquestion : question ∉ template.bytes := fun hmem => (h.2 question hmem).2.2.1 rfl
  by_cases hlast : template.bytes.getLast? = some asterisk
  · obtain ⟨pre, hpre⟩ := List.getLast?_eq_some_iff.mp hlast
    refine .wildcard template pre hpre (fun hq => hquestion ?_) ⟨[asterisk], hpre.symm⟩
    rw [hpre]
    exact List.mem_append_left _ (List.mem_of_getLast? hq)
  · exact .literal ⟨fun hq => hquestion (List.mem_of_getLast? hq), hlast⟩

/-- Where an entry has the text `uri`, some first one with this text is found. -/
theorem exists_find_uri {es : List Entry} {e : Entry} {uri : CStr} (he : e ∈ es)
    (huri : e.uri = uri) :
    ∃ r, (es.find? fun x => x.uri = uri) = some r ∧ r ∈ es ∧ r.uri = uri := by
  have hex : (es.find? fun x => x.uri = uri).isSome = true := by
    simpa using ⟨e, he, huri⟩
  obtain ⟨r, hr⟩ := Option.isSome_iff_exists.mp hex
  exact ⟨r, hr, List.mem_of_find?_eq_some hr, by simpa using List.find?_some hr⟩

/-! ## The dispatcher -/

/-- With a copy and a slot, `master_request_handler` calls `f` for `uri`, and no other
callback. -/
def Invokes (t : UriTable) (uri : CStr) (f : Callback) : Prop :=
  ∀ (r : Req) (j : SlotId) (a : Dispatch.Answers) (h : Dispatch.Handling Req), ∃ h' cs,
    (Dispatch.masterRequestHandler t uri (some r) (some j) a).run h = .ok (espOk, h') ∧
      h'.calls = h.calls ++ cs ∧ cs.filterMap Dispatch.Call.calls = [(f, j, uri)]

/-- The request is answered with 404. -/
def NotFound (t : UriTable) (uri : CStr) : Prop :=
  ∀ (r : Req) (j : SlotId) (h : Dispatch.Handling Req), ∃ h' cs,
    (Dispatch.masterRequestHandler t uri (some r) (some j) {}).run h = .ok (espOk, h') ∧
      h'.calls = h.calls ++ cs ∧ cs.filterMap Dispatch.Call.calls = [] ∧
      Dispatch.replies "200 OK" cs = [(.original, "404 Not Found")]

section

variable {t : UriTable} {uri : CStr}

theorem invokes_of_find {i : Fin maxUris} {f : Callback} (hfind : t.find uri = some i)
    (hf : (t.record i).callback = some f) : Invokes t uri f := by
  intro r j a h
  exact ⟨_, _, Dispatch.masterRequestHandler_served hfind hf r j, rfl, rfl⟩

theorem notFound_of_find (hfind : t.find uri = none) : NotFound t uri := by
  intro r j h
  refine ⟨{ h with calls := h.calls ++ [.setStatus .original "404 Not Found",
    .setType .original "text/plain", .setHdr .original "Cache-Control" "no-cache",
    .send .original "404 Not Found"] }, _, ?_, rfl, rfl, rfl⟩
  change _ = pure _
  simp [Dispatch.masterRequestHandler, hfind, Dispatch.sendError, Dispatch.reply]

theorem NotFound.not_invokes (h : NotFound t uri) (f : Callback) : ¬ Invokes t uri f := by
  intro hf
  obtain ⟨h₁, cs₁, hrun₁, hcalls₁, hnone, -⟩ :=
    h ⟨0, .log, 0⟩ 0 ⟨Bank.empty, fun _ => {}, []⟩
  obtain ⟨h₂, cs₂, hrun₂, hcalls₂, hsome⟩ :=
    hf ⟨0, .log, 0⟩ 0 {} ⟨Bank.empty, fun _ => {}, []⟩
  obtain ⟨-, rfl⟩ := Prod.mk.inj (Except.ok.inj (hrun₁.symm.trans hrun₂))
  obtain rfl := List.append_cancel_left (hcalls₁.symm.trans hcalls₂)
  simp [hnone] at hsome

theorem Invokes.callback_inj {f g : Callback} (hf : Invokes t uri f) (hg : Invokes t uri g) :
    f = g := by
  obtain ⟨h₁, cs₁, hrun₁, hcalls₁, hone⟩ :=
    hf ⟨0, .log, 0⟩ 0 {} ⟨Bank.empty, fun _ => {}, []⟩
  obtain ⟨h₂, cs₂, hrun₂, hcalls₂, htwo⟩ :=
    hg ⟨0, .log, 0⟩ 0 {} ⟨Bank.empty, fun _ => {}, []⟩
  obtain ⟨-, rfl⟩ := Prod.mk.inj (Except.ok.inj (hrun₁.symm.trans hrun₂))
  obtain rfl := List.append_cancel_left (hcalls₁.symm.trans hcalls₂)
  simpa using hone.symm.trans htwo

/-- The callback that is called is that of the first record for the whole URI. -/
theorem invokes_iff {es : List Entry} (h : t.Lists es) (f : Callback) :
    Invokes t uri f ↔ (es.find? fun e => e.uri = uri).map Entry.callback = some f := by
  rw [← h.find uri]
  cases hfind : t.find uri with
  | none =>
    simp only [Option.bind_none, reduceCtorEq, iff_false]
    exact (notFound_of_find hfind).not_invokes f
  | some i =>
    obtain ⟨g, hg⟩ := Dispatch.find_callback hfind
    simp only [Option.bind_some, hg, Option.some.injEq]
    constructor
    · exact fun hf => (invokes_of_find hfind hg).callback_inj hf
    · rintro rfl
      exact invokes_of_find hfind hg

end

/-! ## Agreement -/

/-- A request that is routed by a template gets to the callback of that template. -/
def MatchersAgree (m : UriMatchFn) (p : UriParser) (s : Registry) (uri : CStr) : Prop :=
  ∀ e, route m p s.registered uri = some e → Invokes s.table uri e.callback

/-- Among the records that `cs` leave there is one whose text is the whole URI, and the first
of them has the callback `f`. -/
def NamedFirst (cs : List Registration) (uri : CStr) (f : Callback) : Prop :=
  ∃ r, ((recorded cs).find? fun e => e.uri = uri) = some r ∧ r.callback = f

variable {cs : List Registration} {s : Registry}

/-- The matchers agree on a URI exactly when the first record for the whole of it has the
callback of the template that its path is routed by. -/
theorem matchersAgree_iff (m : UriMatchFn) (p : UriParser)
    (hrun : Transition.run Registry.step .start cs = some s) (uri : CStr) :
    MatchersAgree m p s uri ↔
      ∀ e, route m p s.registered uri = some e → NamedFirst cs uri e.callback := by
  have hlists := lists_run hrun
  constructor
  · intro h e he
    have hfind := (invokes_iff hlists e.callback).mp (h e he)
    exact Option.map_eq_some_iff.mp hfind
  · intro h e he
    exact (invokes_iff hlists e.callback).mpr (Option.map_eq_some_iff.mpr (h e he))

/-- Where the templates are plain paths and no two callbacks have the same one, the matchers
agree on a routed URI exactly when it is its own path. -/
theorem matchersAgree_iff_of_plain (m : UriMatchFn) (p : UriParser)
    (hrun : Transition.run Registry.step .start cs = some s)
    (hplain : ∀ e ∈ recorded cs, Literal e.uri ∧ PlainPath e.uri)
    (hunique : ∀ e ∈ recorded cs, ∀ e' ∈ recorded cs, e.uri = e'.uri → e.callback = e'.callback)
    {uri : CStr} {e : Entry} (hroute : route m p s.registered uri = some e) :
    MatchersAgree m p s uri ↔ p.path uri = some uri := by
  obtain ⟨hmem, path, hpath, hmatch⟩ := route_matches hroute
  have he : e ∈ recorded cs := registered_subset_recorded hrun hmem
  obtain rfl : path = e.uri := (matches_literal (hplain e he).1).mp hmatch
  rw [matchersAgree_iff m p hrun]
  constructor
  · intro h
    obtain ⟨r, hr, -⟩ := h e hroute
    have huri : r.uri = uri := by simpa using List.find?_some hr
    exact p.documented uri (huri ▸ (hplain r (List.mem_of_find?_eq_some hr)).2)
  · intro hself e' he'
    obtain rfl : e' = e := Option.some.inj (he'.symm.trans hroute)
    have huri : e'.uri = uri := Option.some.inj (hpath.symm.trans hself)
    obtain ⟨r, hr, hrmem, hruri⟩ := exists_find_uri he huri
    exact ⟨r, hr, hunique r hrmem e' he (hruri.trans huri.symm)⟩

/-! ## A query and a wildcard -/

open Classical in
/-- The documented matching itself. -/
noncomputable def documentedMatchFn : UriMatchFn where
  test template uri := decide (Matches template uri)
  documented _ _ := decide_eq_true_iff

/-- What stands in front of the query and the fragment. -/
def beforeQuery (uri : CStr) : CStr :=
  ⟨uri.bytes.takeWhile fun b => b != question && b != hash,
    fun h => uri.nulFree ((List.takeWhile_prefix _).subset h)⟩

theorem beforeQuery_eq_self {uri : CStr} (h : PlainPath uri) : beforeQuery uri = uri := by
  apply CStr.ext
  apply List.takeWhile_eq_self_iff.mpr
  intro b hb
  obtain ⟨-, -, hquestion, hhash⟩ := h.2 b hb
  simp [hquestion, hhash]

/-- The URIs that begin with their path. -/
def originParser : UriParser where
  path uri := if uri.bytes.head? = some slash then some (beforeQuery uri) else none
  documented _ h := by rw [if_pos h.1, beforeQuery_eq_self h]

/-- The httpd routes by the only template there is. -/
theorem route_singleton {template uri path : CStr} (f : Callback)
    (hpath : originParser.path uri = some path) (h : Matches template path) :
    route documentedMatchFn originParser [⟨template, f⟩] uri = some ⟨template, f⟩ := by
  have htest := (documentedMatchFn.documented template path).mpr h
  simp [route, hpath, htest]

def getLog : Registration := { uri := some shortUri, callback := some 1 }

/-- `/get-log?n=1` -/
def queryUri : CStr := ⟨CStr.ascii "/get-log?n=1", by decide⟩

def wildcardTemplate : CStr := ⟨CStr.ascii "/get-*", by decide⟩

def getAny : Registration := { uri := some wildcardTemplate, callback := some 1 }

/-- The registry after one call. -/
def registryOf (c : Registration) : Registry := (Registry.start.step c).getD .start

theorem literal_shortUri : Literal shortUri := by
  constructor <;> decide

theorem matchersAgree_getLog :
    MatchersAgree documentedMatchFn originParser (registryOf getLog) shortUri := by
  have hrun : Transition.run Registry.step .start [getLog] = some (registryOf getLog) := rfl
  refine (matchersAgree_iff documentedMatchFn originParser hrun shortUri).mpr fun e he => ?_
  obtain ⟨hmem, -⟩ := route_matches he
  obtain rfl : e = ⟨shortUri, 1⟩ := List.mem_singleton.mp hmem
  exact ⟨_, rfl, rfl⟩

/-- A request with a query, and one that only a wildcard matches, are routed to the handler
and answered with 404. -/
theorem not_matchersAgree :
    (¬ MatchersAgree documentedMatchFn originParser (registryOf getLog) queryUri ∧
      NotFound (registryOf getLog).table queryUri) ∧
    (¬ MatchersAgree documentedMatchFn originParser (registryOf getAny) shortUri ∧
      NotFound (registryOf getAny).table shortUri) := by
  have hquery : NotFound (registryOf getLog).table queryUri :=
    notFound_of_find (by decide +kernel)
  have hwildcard : NotFound (registryOf getAny).table shortUri :=
    notFound_of_find (by decide +kernel)
  refine ⟨⟨fun h => ?_, hquery⟩, ⟨fun h => ?_, hwildcard⟩⟩
  · have hpath : originParser.path queryUri = some shortUri := by decide
    exact hquery.not_invokes 1 (h _ (route_singleton 1 hpath (.literal literal_shortUri)))
  · have hpath : originParser.path shortUri = some shortUri :=
      originParser.documented shortUri (by decide +kernel)
    have hmatch : Matches wildcardTemplate shortUri :=
      .wildcard _ (CStr.ascii "/get-") rfl (by decide) (by decide)
    exact hwildcard.not_invokes 1 (h _ (route_singleton 1 hpath hmatch))

end HomeNode.Http.Routing
