/-
  From the document of a configuration to the decisions under it.

  A configuration is read from its members by their names: in any order, among
  unknown ones, and without those that have their default values
  (`config_read`).  The defaults are the secure values, and nothing else in a
  document stands in for them: a middleware continues a request without an ALLOW,
  or with its credential, only if the document says so (`insecure_said`).
-/
import ExtAuthz.Proof.Trail

namespace ExtAuthz

open Json ExtAuthzMiddleware

/-! ## Reading -/

section
variable {α : Type} {ms : List (String × Json)} {k : String} {d v : α} {read : Json → Option α}

theorem withDefault_of_written {w : Json} {keep : Bool}
    (hm : member k ms = if keep then some w else none) (hw : read w = some v)
    (hd : keep = false → v = d) : withDefault ms k d read = some v := by
  cases keep with
  | true => simp [withDefault, hm, hw]
  | false => simp [withDefault, hm, hd]

theorem withDefault_eq_some (h : withDefault ms k d read = some v) :
    v = d ∨ ∃ w, member k ms = some w ∧ read w = some v := by
  rw [withDefault] at h
  cases hm : member k ms with
  | none =>
    rw [hm] at h
    exact .inl (Option.some.inj h).symm
  | some w =>
    rw [hm] at h
    exact .inr ⟨w, rfl, h⟩

end

namespace ExtAuthzConfig

/-- The members that `keep` leaves out have their default values. -/
structure KeepsEnough (cfg : ExtAuthzConfig) (keep : String → Bool) : Prop where
  verifierUrl : keep "verifier_url" = true
  mode : keep "mode" = false → cfg.mode = dMode
  fail : keep "fail" = false → cfg.fail = dFail
  timeoutMs : keep "timeout_ms" = false → cfg.timeoutMs = dTimeoutMs
  tokenHeader : keep "token_header" = false → cfg.tokenHeader = dTokenHeader
  forwardHeaders : keep "forward_headers" = false → cfg.forwardHeaders = []
  stripTokenHeader : keep "strip_token_header" = false → cfg.stripTokenHeader = dTrue
  maxBodyBytes : keep "max_body_bytes" = false → cfg.maxBodyBytes = dMaxBody

/-- The members that `keep` leaves. -/
def keptFields (cfg : ExtAuthzConfig) (keep : String → Bool) : List (String × Option Json) :=
  cfg.toFields.map fun p => (p.1, if keep p.1 then p.2 else none)

theorem keys_keptFields (cfg : ExtAuthzConfig) (keep : String → Bool) :
    (cfg.keptFields keep).map Prod.fst = names := rfl

theorem ofMembers_keptFields {cfg : ExtAuthzConfig} {keep : String → Bool}
    {ms : List (String × Json)} (hk : cfg.KeepsEnough keep) (hb : cfg.maxBodyBytes < 2 ^ 64)
    (hm : ∀ k, member k ms = (member k (cfg.keptFields keep)).join) :
    ofMembers ms = some cfg := by
  have hurl : required ms "verifier_url" readStr = some cfg.verifierUrl := by
    simp [required, hm, keptFields, toFields, member, hk.verifierUrl]
  have hmode := withDefault_of_written (hm "mode") (Mode.fromJson_toJson _) hk.mode
  have hfail := withDefault_of_written (hm "fail") (FailPolicy.fromJson_toJson _) hk.fail
  have htimeout := withDefault_of_written (hm "timeout_ms") (readUInt64_num _) hk.timeoutMs
  have htoken := withDefault_of_written (hm "token_header") (readStr_str _) hk.tokenHeader
  have hforward := withDefault_of_written (hm "forward_headers") (readVec_map readStr_str _)
    hk.forwardHeaders
  have hstrip := withDefault_of_written (hm "strip_token_header") (readBool_bool _)
    hk.stripTokenHeader
  have hbody := withDefault_of_written (hm "max_body_bytes") (readUSize_num hb) hk.maxBodyBytes
  rw [ofMembers, hurl, hmode, hfail, htimeout, htoken, hforward, hstrip, hbody]
  rfl

end ExtAuthzConfig

/-- **Reading a configuration**: its members are read in any order and among
    unknown ones, and those with their default values may be left out. -/
theorem config_read {cfg : ExtAuthzConfig} {keep : String → Bool} {fs extra : List (String × Json)}
    (hk : cfg.KeepsEnough keep) (hb : cfg.maxBodyBytes < 2 ^ 64)
    (hp : fs.Perm (present (cfg.keptFields keep) ++ extra))
    (hx : ∀ p ∈ extra, p.1 ∉ ExtAuthzConfig.names) :
    ExtAuthzConfig.fromJson (.obj fs) = some cfg := by
  obtain ⟨ms, hr, hm⟩ := readFields_of_perm hp (cfg.keys_keptFields keep)
    ExtAuthzConfig.names_nodup hx
  rw [ExtAuthzConfig.fromJson, hr, Option.bind_some]
  exact ExtAuthzConfig.ofMembers_keptFields hk hb hm

/-- A document with the URL and an unknown member. -/
theorem config_read_default :
    ExtAuthzConfig.fromJson (.obj [("stage", .str "pre_credentials"),
        ("verifier_url", .str "http://127.0.0.1:18443/v1/authorize")]) =
      some (.default "http://127.0.0.1:18443/v1/authorize") := by
  have hk : (ExtAuthzConfig.default "http://127.0.0.1:18443/v1/authorize").KeepsEnough
      (· == "verifier_url") := by
    constructor <;> intros <;> rfl
  refine @config_read _ _ _ [("stage", .str "pre_credentials")] hk (by decide) ?_ (by decide)
  exact .swap _ _ _

/-! ## Insecure settings -/

/-- The document `j` says `v` for the member `k`. -/
def Says {α : Type} (j : Json) (k : String) (read : Json → Option α) (v : α) : Prop :=
  ∃ ms w, readFields false ExtAuthzConfig.names j = some ms ∧ member k ms = some w ∧
    read w = some v

theorem says_of_ne_default {j : Json} {cfg : ExtAuthzConfig}
    (h : ExtAuthzConfig.fromJson j = some cfg) :
    (cfg.mode ≠ dMode → Says j "mode" Mode.fromJson cfg.mode) ∧
      (cfg.fail ≠ dFail → Says j "fail" FailPolicy.fromJson cfg.fail) ∧
      (cfg.stripTokenHeader ≠ dTrue → Says j "strip_token_header" readBool cfg.stripTokenHeader) := by
  obtain ⟨ms, hms, h⟩ := Option.bind_eq_some_iff.1 h
  have hread {α : Type} {k : String} {d v : α} {read : Json → Option α}
      (hr : withDefault ms k d read = some v) (hv : v ≠ d) : Says j k read v := by
    obtain ⟨w, hw, hwv⟩ := (withDefault_eq_some hr).resolve_left hv
    exact ⟨ms, w, hms, hw, hwv⟩
  simp only [ExtAuthzConfig.ofMembers, Option.bind_eq_bind, Option.bind_eq_some_iff] at h
  obtain ⟨url, -, mode, hmode, fail, hfail, timeout, -, token, -, forward, -, strip, hstrip, body, -,
    h⟩ := h
  cases h
  exact ⟨hread hmode, hread hfail, hread hstrip⟩

section
variable {m : ExtAuthzMiddleware} {audit : AuditEvent}

theorem resolve_continue {o : VerifierOutcome} (h : (m.resolve audit o).1.isAllow = true) :
    (m.resolve audit o).1 = m.continueDecision := by
  cases o with
  | verdict v =>
    cases hv : v.decision <;> cases hm : m.cfg.mode <;>
      simp_all [resolve, resolveVerdictDeny, Decision.isAllow]
  | _ =>
    cases hm : m.cfg.mode <;> cases hf : m.cfg.fail <;>
      simp_all [resolve, resolveVerifierFailure, Decision.isAllow]

theorem run_continue {X : Crates} {call : EvaluateCall} {reply : Reply}
    (h : (call.run X reply).1.isAllow = true) :
    (call.run X reply).1 = call.middleware.continueDecision := by
  rw [EvaluateCall.run] at h ⊢
  rcases evaluate_cases call.middleware X.sha256 call.readings (fun _ => reply) call.ctx call.req
    with ⟨-, code, msg, -, he⟩ | ⟨-, token, -, he⟩
  · rw [he] at h ⊢
    cases hm : call.middleware.cfg.mode <;> simp_all [resolveLocalDeny, Decision.isAllow]
  · rw [he] at h ⊢
    exact resolve_continue h

end

/-- **Nothing insecure unless said**: under a configuration that was read from a
    document, a request continues on an ALLOW of the verifier for what was sent,
    unless the document says `observe`, or it says `open` and the verifier
    failed; and the token header is stripped unless the document says not to. -/
theorem insecure_said {X : Crates} {j : Json} {cfg : ExtAuthzConfig} {call : EvaluateCall}
    {reply : Reply} (h : ExtAuthzConfig.fromJson j = some cfg) (hm : call.middleware = .new cfg)
    (ha : (call.run X reply).1.isAllow = true) :
    (((call.sent X).isSome = true ∧ ∃ v, reply.Verdict v ∧ v.decision = .allow) ∨
        Says j "mode" Mode.fromJson .observe ∨
        (Says j "fail" FailPolicy.fromJson .open ∧ reply.Failed)) ∧
      ((call.run X reply).1 = .continue [call.middleware.cfg.tokenHeader] ∨
        Says j "strip_token_header" readBool false) := by
  obtain ⟨hmode, hfail, hstrip⟩ := says_of_ne_default h
  constructor
  · cases hc : cfg.mode with
    | observe => exact .inr (.inl (hc ▸ hmode (by simp [hc, dMode])))
    | enforce =>
      have hcm : call.middleware.cfg.mode = .enforce := by rw [hm]; exact hc
      obtain ⟨hl, hv | ⟨hf, ho⟩⟩ := (run_isAllow_enforce hcm).1 ha
      · exact .inl ⟨sent_isSome_iff.2 hl, hv⟩
      · have hcf : cfg.fail = .open := by rw [hm] at ho; exact ho
        exact .inr (.inr ⟨hcf ▸ hfail (by simp [hcf, dFail]), hf⟩)
  · rw [run_continue ha, continueDecision]
    cases hc : cfg.stripTokenHeader with
    | false => exact .inr (hc ▸ hstrip (by simp [hc, dTrue]))
    | true =>
      left
      have hcs : call.middleware.cfg.stripTokenHeader = true := by rw [hm]; exact hc
      rw [hcs, if_pos rfl]

/-- The happy path under a document that says nothing. -/
theorem insecure_said_happy :
    let j := Json.obj [("verifier_url", .str "http://127.0.0.1:18443/v1/authorize")]
    let cfg := ExtAuthzConfig.default "http://127.0.0.1:18443/v1/authorize"
    let call : EvaluateCall := ⟨.new cfg, Driver.readings, Driver.ctx Driver.agent Driver.sandbox,
      Driver.happy.request, none⟩
    let reply := Reply.response .ok (.ok (allow Driver.happy.claims))
    ExtAuthzConfig.fromJson j = some cfg ∧ (call.run Driver.happy.crates reply).1.isAllow = true ∧
      ((call.run Driver.happy.crates reply).1 = .continue [call.middleware.cfg.tokenHeader] ∨
        Says j "strip_token_header" readBool false) := by
  intro j cfg call reply
  have h : ExtAuthzConfig.fromJson j = some cfg := rfl
  have hheader : call.middleware.cfg.tokenHeader = defaultTokenHeader :=
    toAsciiLowercase_defaultTokenHeader
  have hl : PassesLocalChecks call.middleware.cfg call.req :=
    ⟨⟨Driver.happy.token, hheader ▸ Driver.headerValues_hdr (some Driver.happy.token)⟩,
      (Driver.happy.passesLocalChecks "http://127.0.0.1:18443/v1/authorize" .enforce .closed).2⟩
  have hv : reply.Verdict (allow Driver.happy.claims) := .decoded rfl
  have ha : (call.run Driver.happy.crates reply).1.isAllow = true :=
    (run_isAllow_enforce rfl).2 ⟨hl, .inl ⟨_, hv, rfl⟩⟩
  exact ⟨h, ha, (insecure_said h rfl ha).2⟩

end ExtAuthz
