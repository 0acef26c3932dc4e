/-
  The contract between the middleware and the verifier.

  The verifier gets the token header and the forwarded ones, whatever else the
  request carries and in whatever case the names are spelled
  (`credentials_minimal`).  Both sides read back what the other one wrote, but
  for an evidence of `null` or with a raw value (`wire_roundtrip`).
-/
import ExtAuthz.Demo.Network
import ExtAuthz.Proof.Wire

namespace ExtAuthz

open Text Json ExtAuthzMiddleware

/-! ## Headers -/

theorem findHeader_eq (headers : List (String × String)) (n : String) :
    findHeader headers n = (headerValues headers n).head? := by
  rw [findHeader, headerValues, List.head?_map, List.head?_filter]

/-- The name of a header that is looked up. -/
def ExtAuthzConfig.looksUp (cfg : ExtAuthzConfig) (name : String) : Bool :=
  (cfg.tokenHeader :: cfg.forwardHeaders).any (eqIgnoreAsciiCase name)

/-- Two headers that differ in the case of their names. -/
def SameHeader (h h' : String × String) : Prop :=
  eqIgnoreAsciiCase h.1 h'.1 = true ∧ h.2 = h'.2

section
variable {X : Crates} {m : ExtAuthzMiddleware} {headers headers' : List (String × String)}

/-- Other headers do not enter a lookup. -/
theorem headerValues_filter {cfg : ExtAuthzConfig} {n : String}
    (hn : n ∈ cfg.tokenHeader :: cfg.forwardHeaders) (headers : List (String × String)) :
    headerValues (headers.filter fun h => cfg.looksUp h.1) n = headerValues headers n := by
  rw [headerValues, headerValues, List.filter_filter]
  congr 1
  refine List.filter_congr fun h _ => ?_
  rw [Bool.and_eq_left_iff_imp]
  exact fun he => List.any_eq_true.2 ⟨n, hn, he⟩

theorem headerValues_congr_case (h : List.Forall₂ SameHeader headers headers') (n : String) :
    headerValues headers n = headerValues headers' n := by
  induction h with
  | nil => rfl
  | @cons a b l l' hab _ ih =>
    have he : eqIgnoreAsciiCase a.1 n = eqIgnoreAsciiCase b.1 n := by
      simp only [eqIgnoreAsciiCase, eqIgnoreAsciiCase_iff.1 hab.1]
    simp only [headerValues] at ih
    simp only [headerValues, List.filter_cons, he]
    split
    · rw [List.map_cons, List.map_cons, ih, hab.2]
    · exact ih

/-- The credentials depend on the headers that are looked up. -/
theorem credentials_congr (h : ∀ n ∈ m.cfg.tokenHeader :: m.cfg.forwardHeaders,
    headerValues headers n = headerValues headers' n) (token : String) :
    m.credentials headers token = m.credentials headers' token := by
  apply Std.ExtTreeMap.ext_getElem?
  intro name
  rw [credentials_getElem?, credentials_getElem?, findHeader_eq, findHeader_eq]
  by_cases hn : name ∈ m.cfg.forwardHeaders
  · rw [h name (List.mem_cons_of_mem _ hn)]
  · rw [if_neg hn, if_neg hn]

/-- A call with other headers. -/
def EvaluateCall.withHeaders (call : EvaluateCall) (headers : List (String × String)) :
    EvaluateCall :=
  { call with req := { call.req with headers } }

theorem sent_congr {call : EvaluateCall}
    (h : ∀ n ∈ call.middleware.cfg.tokenHeader :: call.middleware.cfg.forwardHeaders,
      headerValues call.req.headers n = headerValues headers n) :
    (call.withHeaders headers).sent X = call.sent X := by
  apply Option.ext
  intro r
  rw [EvaluateCall.sent_eq_some, EvaluateCall.sent_eq_some]
  have hw (token : String) : call.middleware.wire X.sha256 call.readings call.ctx
      { call.req with headers } token =
      call.middleware.wire X.sha256 call.readings call.ctx call.req token := by
    simp only [wire, credentials_congr h token, EgressRequest.parts]
  simp only [EvaluateCall.withHeaders, hw, ← h _ List.mem_cons_self]

theorem map_toAsciiLowercase_congr {l l' : List String}
    (h : List.Forall₂ (fun n n' => eqIgnoreAsciiCase n n' = true) l l') :
    l'.map toAsciiLowercase = l.map toAsciiLowercase := by
  induction h with
  | nil => rfl
  | cons h _ ih => rw [List.map_cons, List.map_cons, ih, eqIgnoreAsciiCase_iff.1 h]

theorem new_congr_case {cfg : ExtAuthzConfig} {tokenHeader : String} {forwardHeaders : List String}
    (ht : eqIgnoreAsciiCase cfg.tokenHeader tokenHeader = true)
    (hf : List.Forall₂ (fun n n' => eqIgnoreAsciiCase n n' = true) cfg.forwardHeaders
      forwardHeaders) :
    ExtAuthzMiddleware.new { cfg with tokenHeader, forwardHeaders } = .new cfg := by
  have he : ExtAuthzConfig.normalized { cfg with tokenHeader, forwardHeaders } =
      cfg.normalized := by
    simp only [ExtAuthzConfig.normalized, map_toAsciiLowercase_congr hf, eqIgnoreAsciiCase_iff.1 ht]
  simp only [new, he]

theorem toAsciiLowercase_of_mem {m : ExtAuthzMiddleware} {n : String}
    (hn : n ∈ m.cfg.tokenHeader :: m.cfg.forwardHeaders) : toAsciiLowercase n = n := by
  rw [← m.normalized] at hn
  rcases List.mem_cons.1 hn with rfl | hn
  · exact toAsciiLowercase_idem _
  · obtain ⟨n', -, rfl⟩ := List.mem_map.1 hn
    exact toAsciiLowercase_idem _

end

/-- **Least disclosure**: the credentials of a request that passes the local checks
    are the token, under the token header, and the first values of the other
    forwarded names; the token has one key.  Headers that are not looked up, and
    the case of all names, in the request and in the configuration, do not change
    what is sent. -/
theorem credentials_minimal (X : Crates) :
    (∀ call : EvaluateCall, PassesLocalChecks call.middleware.cfg call.req →
      let cfg := call.middleware.cfg
      ∃ r token, call.sent X = some r ∧ headerValues call.req.headers cfg.tokenHeader = [token] ∧
        (∀ name, r.credentials[name]? =
          if name = cfg.tokenHeader then some token
          else if name ∈ cfg.forwardHeaders then (headerValues call.req.headers name).head?
          else none) ∧
        ∀ name, eqIgnoreAsciiCase name cfg.tokenHeader = true → name ∈ r.credentials →
          name = cfg.tokenHeader) ∧
    (∀ call : EvaluateCall, ¬ PassesLocalChecks call.middleware.cfg call.req →
      call.sent X = none) ∧
    (∀ (call : EvaluateCall) headers,
      (call.req.headers.filter fun h => call.middleware.cfg.looksUp h.1) =
        (List.filter (fun h => call.middleware.cfg.looksUp h.1) headers) →
      (call.withHeaders headers).sent X = call.sent X) ∧
    (∀ (call : EvaluateCall) headers, List.Forall₂ SameHeader call.req.headers headers →
      (call.withHeaders headers).sent X = call.sent X) ∧
    ∀ (cfg : ExtAuthzConfig) tokenHeader forwardHeaders,
      eqIgnoreAsciiCase cfg.tokenHeader tokenHeader = true →
      List.Forall₂ (fun n n' => eqIgnoreAsciiCase n n' = true) cfg.forwardHeaders forwardHeaders →
      ExtAuthzMiddleware.new { cfg with tokenHeader, forwardHeaders } = .new cfg := by
  refine ⟨?_, ?_, ?_, ?_, fun cfg _ _ => new_congr_case⟩
  · rintro call ⟨⟨token, ht⟩, hb⟩
    have hget (name : String) := credentials_getElem? call.middleware call.req.headers token name
    refine ⟨_, token, EvaluateCall.sent_eq_some.2 ⟨token, ht, hb, rfl⟩, ht, ?_, ?_⟩
    · intro name
      rw [← findHeader_eq]
      exact hget name
    · intro name he hm
      by_contra hn
      have hmem : name ∈ call.middleware.cfg.forwardHeaders := by
        by_contra hnf
        have hsome := Std.ExtTreeMap.isSome_getElem?_iff_mem.2 hm
        simp only [wire, hget, if_neg hn, if_neg hnf] at hsome
        cases hsome
      rw [eqIgnoreAsciiCase_iff, toAsciiLowercase_of_mem (List.mem_cons_of_mem _ hmem),
        toAsciiLowercase_of_mem List.mem_cons_self] at he
      exact hn he
  · intro call h
    rw [Option.eq_none_iff_forall_ne_some]
    intro r hr
    obtain ⟨token, ht, hb, -⟩ := EvaluateCall.sent_eq_some.1 hr
    exact h ⟨⟨token, ht⟩, hb⟩
  · intro call headers h
    apply sent_congr
    intro n hn
    rw [← headerValues_filter hn, h, headerValues_filter hn]
  · intro call headers h
    exact sent_congr fun n _ => headerValues_congr_case h n

namespace Driver

/-- A configuration that forwards a name twice, and the token header in another
    case. -/
def forwardingCfg : ExtAuthzConfig :=
  { cfg "http://127.0.0.1:18443/v1/authorize" .enforce .closed with
    forwardHeaders := ["x-request-id", "X-Request-ID", "X-HAWCX-haap-token", "x-trace"] }

/-- The happy path with two request ids, in two spellings, and with a cookie. -/
def forwardingCall : EvaluateCall :=
  ⟨.new forwardingCfg, readings, ctx agent sandbox, { happy.request with
    headers := [("X-Request-Id", "first"), ("Cookie", "session"),
      ("X-Hawcx-HAAP-Token", happy.token), ("x-request-ID", "second")] }, none⟩

theorem headerValues_forwardingCall (n : String) : headerValues forwardingCall.req.headers n =
    (if eqIgnoreAsciiCase "X-Request-Id" n then ["first"] else []) ++
    (if eqIgnoreAsciiCase "Cookie" n then ["session"] else []) ++
    (if eqIgnoreAsciiCase "X-Hawcx-HAAP-Token" n then [happy.token] else []) ++
    if eqIgnoreAsciiCase "x-request-ID" n then ["second"] else [] := by
  simp only [headerValues, forwardingCall, List.filter_cons, List.filter_nil]
  split_ifs <;> rfl

end Driver

/-- The token and the first request id are sent, and nothing else.  Without the
    cookie, and with other spellings, the same is sent. -/
theorem credentials_minimal_happy :
    let call := Driver.forwardingCall
    (∃ r, call.sent Driver.happy.crates = some r ∧
      r.credentials = ((∅ : Std.ExtTreeMap String String).insert "x-hawcx-haap-token"
        Driver.happy.token).insert "x-request-id" "first") ∧
    (call.withHeaders [("X-Request-Id", "first"), ("X-Hawcx-HAAP-Token", Driver.happy.token),
      ("x-request-ID", "second")]).sent Driver.happy.crates = call.sent Driver.happy.crates ∧
    (call.withHeaders [("x-request-id", "first"), ("COOKIE", "session"),
      ("x-hawcx-haap-token", Driver.happy.token), ("X-REQUEST-ID", "second")]).sent
        Driver.happy.crates = call.sent Driver.happy.crates ∧
    ExtAuthzMiddleware.new { Driver.forwardingCfg with
      tokenHeader := "X-Hawcx-Haap-Token"
      forwardHeaders := ["X-REQUEST-ID", "x-request-id", "x-hawcx-haap-token", "X-Trace"] } =
        .new Driver.forwardingCfg := by
  intro call
  obtain ⟨hsent, -, hother, hcase, hcfg⟩ := credentials_minimal Driver.happy.crates
  have hheader : call.middleware.cfg.tokenHeader = "x-hawcx-haap-token" := by decide
  have hforward : call.middleware.cfg.forwardHeaders =
      ["x-request-id", "x-request-id", "x-hawcx-haap-token", "x-trace"] := by decide
  have htoken : headerValues call.req.headers "x-hawcx-haap-token" = [Driver.happy.token] := by
    rw [Driver.headerValues_forwardingCall, if_neg (by decide), if_neg (by decide),
      if_pos (by decide), if_neg (by decide)]
    rfl
  have hid : headerValues call.req.headers "x-request-id" = ["first", "second"] := by
    rw [Driver.headerValues_forwardingCall, if_pos (by decide), if_neg (by decide),
      if_neg (by decide), if_pos (by decide)]
    rfl
  have htrace : headerValues call.req.headers "x-trace" = [] := by
    rw [Driver.headerValues_forwardingCall, if_neg (by decide), if_neg (by decide),
      if_neg (by decide), if_neg (by decide)]
    rfl
  refine ⟨?_, ?_, ?_, ?_⟩
  · have hbody : call.req.body.length ≤ call.middleware.cfg.maxBodyBytes :=
      (Driver.happy.passesLocalChecks "http://127.0.0.1:18443/v1/authorize" .enforce .closed).2
    obtain ⟨r, token, hr, ht, hmap, -⟩ := hsent call ⟨⟨_, hheader ▸ htoken⟩, hbody⟩
    rw [hheader, htoken, List.singleton_inj] at ht
    subst ht
    refine ⟨r, hr, Std.ExtTreeMap.ext_getElem? fun name => ?_⟩
    rw [hmap, hheader, hforward, Std.ExtTreeMap.getElem?_insert, Std.ExtTreeMap.getElem?_insert]
    simp only [Std.LawfulEqCmp.compare_eq_iff_eq]
    by_cases h₁ : name = "x-request-id"
    · simp [h₁, hid]
    by_cases h₂ : name = "x-hawcx-haap-token"
    · simp [h₂]
    by_cases h₃ : name = "x-trace"
    · simp [h₃, htrace]
    · simp [h₁, h₂, h₃, eq_comm]
  · refine hother call _ ?_
    have hcookie : call.middleware.cfg.looksUp "Cookie" = false := by decide
    have hheaders : call.req.headers = [("X-Request-Id", "first"), ("Cookie", "session"),
      ("X-Hawcx-HAAP-Token", Driver.happy.token), ("x-request-ID", "second")] := rfl
    simp only [hheaders, List.filter_cons, hcookie, Bool.false_eq_true, if_false]
  · exact hcase call _ (.cons ⟨by decide, rfl⟩ (.cons ⟨by decide, rfl⟩
      (.cons ⟨by decide, rfl⟩ (.cons ⟨by decide, rfl⟩ .nil))))
  · exact hcfg _ _ _ (by decide) (.cons (by decide) (.cons (by decide) (.cons (by decide)
      (.cons (by decide) .nil))))

/-! ## The wire format -/

/-- A raw value is read back as the value of its text. -/
theorem AuthorizeResponse.fromJson_toJson_raw (R : ValueReader) {v : AuthorizeResponse}
    {e : Value} {fs : List (String × Json)} (he : v.evidence = some e) (hj : e.json = .obj fs)
    (hraw : IsRaw fs) : fromJson R v.toJson =
      ((ValueReader.rawText fs).bind R.fromStr).map fun w => { v with evidence := some w } := by
  have ho : orNone (readValue R) (some (.obj fs)) = (readValue R (.obj fs)).map some := rfl
  rw [fromJson_toJson_eq, he, Option.map_some, hj, ho, readValue_raw R hraw, Option.map_map]
  rfl

/-- **The wire format round-trips**: a request is read back, and so is a response
    whose evidence is absent or a document without floats and raw values.  The
    exceptions are an evidence of `null`, which is read back as absent, and that of
    a raw value, which is read back as the value of its text. -/
theorem wire_roundtrip :
    (∀ r : AuthorizeRequest, AuthorizeRequest.fromJson r.toJson = some r) ∧
    (∀ (R : ValueReader) (v : AuthorizeResponse),
      (∀ e, v.evidence = some e → e.json ≠ .null ∧ e.json.Verbatim) →
      AuthorizeResponse.fromJson R v.toJson = some v) ∧
    (∀ (R : ValueReader) (v : AuthorizeResponse) (e : Value), v.evidence = some e →
      e.json = .null → AuthorizeResponse.fromJson R v.toJson = some { v with evidence := none }) ∧
    ∀ (R : ValueReader) (v : AuthorizeResponse) (e : Value) fs, v.evidence = some e →
      e.json = .obj fs → IsRaw fs → AuthorizeResponse.fromJson R v.toJson =
        ((ValueReader.rawText fs).bind R.fromStr).map fun w => { v with evidence := some w } := by
  refine ⟨AuthorizeRequest.fromJson_toJson, fun R v => AuthorizeResponse.fromJson_toJson R,
    ?_, ?_⟩
  · intro R v e he hn
    rw [AuthorizeResponse.fromJson_toJson_eq, he, Option.map_some, hn]
    rfl
  · intro R v e fs he hj hraw
    exact AuthorizeResponse.fromJson_toJson_raw R he hj hraw

/-- An allowance with a raw value for its evidence. -/
def rawResponse (text : String) : AuthorizeResponse :=
  ⟨.allow, Reason.ok, none, none, some (Value.object [(rawToken, .str text)])⟩

theorem floatFree_rawResponse (text : String) :
    ∀ e, (rawResponse text).evidence = some e → e.json.FloatFree := by
  rintro _ ⟨⟩
  exact ⟨trivial, trivial, trivial⟩

/-- An evidence of `null` is lost.  One that looks like a raw value is read as the
    value of its text, or not at all. -/
theorem not_wire_roundtrip :
    (∀ R : ValueReader, ¬ ∀ v : AuthorizeResponse,
      (∀ e, v.evidence = some e → e.json.FloatFree) →
      AuthorizeResponse.fromJson R v.toJson = some v) ∧
    (∀ (R : ValueReader) (one : Value), one.json = .num 1 → R.fromStr "1" = some one →
      (∀ e, (rawResponse "1").evidence = some e → e.json.FloatFree) ∧
      AuthorizeResponse.fromJson R (rawResponse "1").toJson =
        some { rawResponse "1" with evidence := some one }) ∧
    ∀ R : ValueReader, R.fromStr "not json" = none →
      (∀ e, (rawResponse "not json").evidence = some e → e.json.FloatFree) ∧
      AuthorizeResponse.fromJson R (rawResponse "not json").toJson = none := by
  have hraw (R : ValueReader) (text : String) :
      AuthorizeResponse.fromJson R (rawResponse text).toJson =
        (R.fromStr text).map fun w => { rawResponse text with evidence := some w } :=
    @AuthorizeResponse.fromJson_toJson_raw R _ _ [(rawToken, .str text)] rfl rfl rfl
  refine ⟨?_, ?_, ?_⟩
  · intro R h
    have hn := h ⟨.allow, Reason.ok, none, none, some (.ofOption none)⟩ (by
      rintro _ ⟨⟩
      trivial)
    rw [AuthorizeResponse.fromJson_toJson_eq] at hn
    cases hn
  · intro R one hone hread
    refine ⟨floatFree_rawResponse "1", ?_⟩
    rw [hraw, hread, Option.map_some]
  · intro R hread
    refine ⟨floatFree_rawResponse "not json", ?_⟩
    rw [hraw, hread, Option.map_none]

theorem wire_roundtrip_happy :
    AuthorizeResponse.fromJson Driver.happy.crates.values (allow Driver.happy.claims).toJson =
      some (allow Driver.happy.claims) :=
  wire_roundtrip.2.1 _ _ (lossless_allow _)

end ExtAuthz
