/-
  The middleware and the reference verifier together.

  `Authorizes` is what it means for claims to authorize a raw request in a
  context, without a wire in between.  For the request that the middleware
  sends, `authorize` allows exactly under this condition (`authorize_wire_iff`),
  so that an evaluation is sound (`continue_sound`) and complete
  (`continue_complete`).

  What the size limit of the verifier does to `fail = open` is `continue_requires_allow_iff`.
-/
import ExtAuthz.Proof.Policy
import ExtAuthz.Proof.Wire

namespace ExtAuthz

open Text Json ExtAuthzMiddleware

/-- The `crh_v1` of a raw request, in hex. -/
def EgressRequest.crhHex (X : Crates) (req : EgressRequest) : String :=
  Hex.encode (canonicalRequestHash X.sha256 (req.parts X.sha256)).toList

/-- The claims `c` authorize the request `req` in the context `ctx`, at the
    verifier state `st` and the time `now`. -/
structure Authorizes (X : Crates) (st : VerifierState) (now : Int64) (ctx : RequestContext)
    (req : EgressRequest) (c : Claims) : Prop where
  unexpired : now ≤ c.expUnixMs
  agent : c.agentId = ctx.agentId
  notRevoked : c.agentId ∉ st.revokedAgents
  onBehalfOf : ∀ obo, c.onBehalfOf = some obo → ctx.onBehalfOf = some obo
  workload : ∀ sel, c.workloadSelector = some sel → startsWith ctx.sandboxId sel = true
  method : eqIgnoreAsciiCase c.scope.method req.method = true
  authority : normalizeAuthority (toAsciiLowercase req.scheme) c.scope.authority =
    normalizeAuthority (toAsciiLowercase req.scheme) req.authority
  path : pathInScope req.path c.scope.pathPrefix = true
  crh : ∀ h, c.crh = some h → h = req.crhHex X
  fresh : c.jti ∉ st.seenJti

section
variable {X : Crates} {st : VerifierState} {now : Int64} {m : ExtAuthzMiddleware} {k : Readings}
  {ctx : RequestContext} {req : EgressRequest} {token : String} {c : Claims}

theorem intentBound_wire_iff :
    IntentBound c (m.wire X.sha256 k ctx req token) ↔
      (∀ obo, c.onBehalfOf = some obo → ctx.onBehalfOf = some obo) ∧
      (∀ sel, c.workloadSelector = some sel → startsWith ctx.sandboxId sel = true) ∧
      eqIgnoreAsciiCase c.scope.method req.method = true ∧
      normalizeAuthority (toAsciiLowercase req.scheme) c.scope.authority =
        normalizeAuthority (toAsciiLowercase req.scheme) req.authority ∧
      pathInScope req.path c.scope.pathPrefix = true ∧ ∀ h, c.crh = some h → h = req.crhHex X := by
  have hm : eqIgnoreAsciiCase c.scope.method (m.wire X.sha256 k ctx req token).request.method =
      eqIgnoreAsciiCase c.scope.method req.method := by
    simp [eqIgnoreAsciiCase, wire]
  have ha : authorityInScope (m.wire X.sha256 k ctx req token).request.scheme
      (m.wire X.sha256 k ctx req token).request.authority c.scope.authority = true ↔
      normalizeAuthority (toAsciiLowercase req.scheme) c.scope.authority =
        normalizeAuthority (toAsciiLowercase req.scheme) req.authority := by
    simp only [authorityInScope, wire, toAsciiLowercase_idem, beq_iff_eq]
    exact eq_comm
  constructor
  · rintro ⟨ho, hw, hme, hau, hp, hc⟩
    exact ⟨ho, hw, hm.symm.trans hme, ha.1 hau, hp, hc⟩
  · rintro ⟨ho, hw, hme, hau, hp, hc⟩
    exact ⟨ho, hw, hm.trans hme, ha.2 hau, hp, hc⟩

/-- On the request of the middleware `authorize` allows exactly what the claims
    authorize. -/
theorem authorize_wire_iff (ht : m.cfg.tokenHeader = defaultTokenHeader)
    (hv : verify X token st.key = .ok c) :
    (st.authorize X now (m.wire X.sha256 k ctx req token)).1.decision = .allow ↔
      Authorizes X st now ctx req c := by
  have hcl : tokenClaims X st.key (m.wire X.sha256 k ctx req token) = some c := by
    rw [tokenClaims_wire X k ctx req token ht, hv]
    rfl
  rw [VerifierState.authorize_allow_iff]
  constructor
  · rintro ⟨c', hp, hr, hi, hj⟩
    cases hcl.symm.trans hp.claims
    obtain ⟨ho, hw, hme, hau, hpa, hc⟩ := intentBound_wire_iff.1 hi
    exact ⟨hp.unexpired, hp.agent, hr, ho, hw, hme, hau, hpa, hc, hj⟩
  · intro h
    have hp : PrincipalBound X st.key now (m.wire X.sha256 k ctx req token) c :=
      ⟨hcl, rfl, h.unexpired, recomputeCrh_wire X k ctx req token m, h.agent⟩
    have hi : IntentBound c (m.wire X.sha256 k ctx req token) :=
      intentBound_wire_iff.2 ⟨h.onBehalfOf, h.workload, h.method, h.authority, h.path, h.crh⟩
    exact ⟨c, hp, h.notRevoked, hi, h.fresh⟩

theorem authorize_of_verdict {v : AuthorizeResponse} {r : AuthorizeRequest}
    (h : (st.post X now r.toJson).1.outcome = .verdict v) :
    extractRequest r.toJson = .ok r ∧ (st.authorize X now r).1 = v := by
  by_cases hs : r.FitsLimit
  · rw [outcome_post hs] at h
    cases h
    exact ⟨extractRequest_toJson hs, rfl⟩
  · rw [outcome_post_of_not_fitsLimit hs] at h
    cases h

theorem evaluate_of_authorizes (ht : m.cfg.tokenHeader = defaultTokenHeader)
    (hv : verify X token st.key = .ok c) (hauth : Authorizes X st now ctx req c)
    (hh : headerValues req.headers m.cfg.tokenHeader = [token])
    (hb : req.body.length ≤ m.cfg.maxBodyBytes)
    (hs : (m.wire X.sha256 k ctx req token).FitsLimit) :
    m.evaluate X.sha256 k (fun body => (st.post X now body).1) ctx req =
        (m.continueDecision, { m.sentAudit k ctx req (m.wire X.sha256 k ctx req token) with
          reasonCode := Reason.ok
          receiptId := some ("rcpt-" ++ c.jti)
          decision := "allow" }) ∧
      (st.post X now (m.wire X.sha256 k ctx req token).toJson).2 =
        { st with seenJti := insert c.jti st.seenJti } := by
  obtain ⟨c', hp, hr, hi, hj⟩ := VerifierState.authorize_allow_iff.1
    ((authorize_wire_iff (k := k) ht hv).2 hauth)
  have he := VerifierState.authorize_of_bound hp hr hi hj
  have hcl := hp.claims
  rw [tokenClaims_wire X k ctx req _ ht, hv] at hcl
  cases hcl
  rw [evaluate_of_token hh hb, callVerifier, outcome_post hs, VerifierState.post,
    extractRequest_toJson hs]
  simp only [he]
  exact ⟨rfl, trivial⟩

end

namespace Driver

theorem happy_authorizes : Authorizes happy.crates (VerifierState.new key) now (ctx agent sandbox)
    happy.request happy.claims := by
  obtain ⟨ho, hw, hm, ha, hp, hc⟩ := intentBound_wire_iff.1 happy_intentBound
  exact ⟨by decide, rfl, by simp [VerifierState.new], ho, hw, hm, ha, hp, hc,
    by simp [VerifierState.new]⟩

theorem happy_continues : (middleware.evaluate happy.crates.sha256 readings
    (fun body => ((VerifierState.new key).post happy.crates now body).1) (ctx agent sandbox)
    happy.request).1.isAllow = true := by
  have hh : headerValues happy.request.headers middleware.cfg.tokenHeader = [happy.token] :=
    happy.headerValues_request _ _ _
  have hv : verify happy.crates happy.token (VerifierState.new key).key = .ok happy.claims :=
    happy.verify_token
  have h := (evaluate_of_authorizes (k := readings) middleware_tokenHeader hv happy_authorizes hh
    (happy.passesLocalChecks _ _ _).2 happy_fitsLimit).1
  rw [h]
  rfl

/-- The digests of a scenario do not collide on the byte strings of its request
    and of a respelling of it. -/
theorem Scenario.injOn (s : Scenario) (hs : bodySha256 ≠ s.crh) {p q : CanonicalRequestParts}
    (h : crhPreimage p = crhPreimage q) :
    Set.InjOn s.crates.sha256 {crhPreimage p, crhPreimage q, body, body} := by
  have hp : s.crates.sha256 (crhPreimage q) = s.crh := s.canonicalRequestHash_eq q
  have hb := s.sha256_body
  simp only [h, Set.insert_eq_of_mem, Set.mem_singleton_iff, Set.mem_insert_iff, true_or]
  rintro x (rfl | rfl) y (rfl | rfl) hxy
  · rfl
  · rw [hp, hb] at hxy
    exact absurd hxy.symm hs
  · rw [hp, hb] at hxy
    exact absurd hxy hs
  · rfl

end Driver

/-! ## Soundness -/

/-- Under an injective hash, requests with one `crh_v1` are one canonical
    request with one body. -/
theorem eq_of_crhHex_eq {X : Crates} {req req₀ : EgressRequest}
    (h : req.crhHex X = req₀.crhHex X) (hf : (req.parts X.sha256).Fits)
    (hf₀ : (req₀.parts X.sha256).Fits)
    (hinj : Set.InjOn X.sha256 {crhPreimage (req.parts X.sha256),
      crhPreimage (req₀.parts X.sha256), req.body, req₀.body}) :
    (req.parts X.sha256).canonical = (req₀.parts X.sha256).canonical ∧ req.body = req₀.body := by
  have hd : X.sha256 (crhPreimage (req.parts X.sha256)) =
      X.sha256 (crhPreimage (req₀.parts X.sha256)) := Vector.toList_inj.1 (Hex.encode_inj h)
  have hcan := (crhPreimage_eq_iff hf hf₀).1 (hinj (by simp) (by simp) hd)
  exact ⟨hcan, hinj (by simp) (by simp) (congrArg CanonicalRequestParts.bodySha256 hcan)⟩

/-- **Soundness and intent binding**: when an evaluation in enforce mode with
    `fail = closed` continues, the request carried one token, and the claims of
    this token authorized the request.  A bound hash is the hash of the request
    itself, and with it the canonical request and the body. -/
theorem continue_sound {X : Crates} {st : VerifierState} {now : Int64} {m : ExtAuthzMiddleware}
    {k : Readings} {post : Json → Reply} {ctx : RequestContext} {req : EgressRequest}
    (hm : m.cfg.mode = .enforce) (hf : m.cfg.fail = .closed)
    (ht : m.cfg.tokenHeader = defaultTokenHeader)
    (hpost : ∀ body, post body = (st.post X now body).1 ∨ (post body).outcome.isVerdict = false)
    (hc : (m.evaluate X.sha256 k post ctx req).1.isAllow = true) :
    ∃ token c, headerValues req.headers defaultTokenHeader = [token] ∧
      verify X token st.key = .ok c ∧ Authorizes X st now ctx req c ∧
      ∀ req₀ : EgressRequest, c.crh = some (req₀.crhHex X) →
        (req.parts X.sha256).Fits → (req₀.parts X.sha256).Fits →
        Set.InjOn X.sha256 {crhPreimage (req.parts X.sha256), crhPreimage (req₀.parts X.sha256),
          req.body, req₀.body} →
        (req.parts X.sha256).canonical = (req₀.parts X.sha256).canonical ∧ req.body = req₀.body := by
  obtain ⟨-, token, v, hh, ho, hv⟩ := (evaluate_isAllow_closed hm hf).1 hc
  have hans : (st.post X now (m.wire X.sha256 k ctx req token).toJson).1.outcome = .verdict v := by
    rcases hpost (m.wire X.sha256 k ctx req token).toJson with hp | hp
    · rw [← hp]
      exact ho
    · rw [callVerifier] at ho
      rw [ho] at hp
      cases hp
  obtain ⟨-, rfl⟩ := authorize_of_verdict hans
  obtain ⟨c, hpb, -⟩ := VerifierState.authorize_allow_iff.1 hv
  have hcl := hpb.claims
  rw [tokenClaims_wire X k ctx req token ht] at hcl
  have hver : verify X token st.key = .ok c := by
    cases hx : verify X token st.key with
    | error e => rw [hx] at hcl; cases hcl
    | ok c' => rw [hx] at hcl; cases hcl; rfl
  have hauth := (authorize_wire_iff ht hver).1 hv
  exact ⟨token, c, ht ▸ hh, hver, hauth, fun req₀ h₀ hfit hfit₀ hinj =>
    eq_of_crhHex_eq (hauth.crh _ h₀).symm hfit hfit₀ hinj⟩

/-- The happy path of the demo, minted for another spelling of the request. -/
theorem continue_sound_happy :
    let req₀ := { Driver.happy.request with method := "post" }
    ∃ token c, headerValues Driver.happy.request.headers defaultTokenHeader = [token] ∧
      verify Driver.happy.crates token Driver.key = .ok c ∧
      Authorizes Driver.happy.crates (VerifierState.new Driver.key) Driver.now
        (Driver.ctx Driver.agent Driver.sandbox) Driver.happy.request c ∧
      (Driver.happy.request.parts Driver.happy.crates.sha256).canonical =
        (req₀.parts Driver.happy.crates.sha256).canonical := by
  intro req₀
  obtain ⟨token, c, hh, hv, ha, hb⟩ := continue_sound rfl rfl Driver.middleware_tokenHeader
    (fun _ => .inl rfl) Driver.happy_continues
  have ht : token = Driver.happy.token := by
    have := hh.symm.trans (Driver.headerValues_hdr (some Driver.happy.token))
    simpa using this
  subst ht
  cases Driver.happy.verify_token.symm.trans hv
  have h₀ : Driver.happy.claims.crh = some (req₀.crhHex Driver.happy.crates) := by
    rw [Driver.happy_crh, EgressRequest.crhHex, Driver.happy.canonicalRequestHash_eq]
  have hp : crhPreimage (Driver.happy.request.parts Driver.happy.crates.sha256) =
      crhPreimage (req₀.parts Driver.happy.crates.sha256) :=
    crhPreimage_congr (by decide +kernel)
  have hi := Driver.happy.injOn (by decide) hp
  exact ⟨_, _, hh, hv, ha, (hb req₀ h₀ (by decide +kernel) (by decide +kernel) hi).1⟩

/-! ## Completeness -/

theorem tokenHeader_new {cfg : ExtAuthzConfig}
    (ht : eqIgnoreAsciiCase cfg.tokenHeader defaultTokenHeader = true) :
    (ExtAuthzMiddleware.new cfg).cfg.tokenHeader = defaultTokenHeader :=
  (eqIgnoreAsciiCase_iff.1 ht).trans toAsciiLowercase_defaultTokenHeader

/-- **Completeness**: a request that carries the minted claims that authorize
    it continues, with the receipt of the nonce, which is consumed. -/
theorem continue_complete {X : Crates} {st : VerifierState} {now : Int64} {cfg : ExtAuthzConfig}
    {k : Readings} {ctx : RequestContext} {req : EgressRequest} {c : Claims}
    (ht : eqIgnoreAsciiCase cfg.tokenHeader defaultTokenHeader = true)
    (hjson : X.fromSlice (bytes (claimsBytes c)) = some c.toJson)
    (hauth : Authorizes X st now ctx req c)
    (hh : headerValues req.headers defaultTokenHeader = [mint X c st.key])
    (hb : req.body.length ≤ cfg.maxBodyBytes)
    (hs : ((ExtAuthzMiddleware.new cfg).wire X.sha256 k ctx req (mint X c st.key)).FitsLimit) :
    let r := (ExtAuthzMiddleware.new cfg).evaluate X.sha256 k (fun body => (st.post X now body).1)
      ctx req
    r.1.isAllow = true ∧ r.2.decision = "allow" ∧ r.2.reasonCode = Reason.ok ∧
      r.2.receiptId = some ("rcpt-" ++ c.jti) ∧ r.2.wouldDeny = false ∧ r.2.degraded = false ∧
      (st.post X now
        ((ExtAuthzMiddleware.new cfg).wire X.sha256 k ctx req (mint X c st.key)).toJson).2 =
          { st with seenJti := insert c.jti st.seenJti } := by
  have hdef := tokenHeader_new ht
  obtain ⟨hr, hst⟩ := evaluate_of_authorizes (m := .new cfg) (k := k) hdef
    (verify_mint st.key hjson) hauth (by rw [hdef, hh]) hb hs
  intro r
  rw [show r = _ from hr]
  exact ⟨rfl, rfl, rfl, rfl, rfl, rfl, hst⟩

theorem continue_complete_happy :
    let r := Driver.middleware.evaluate Driver.happy.crates.sha256 Driver.readings
      (fun body => ((VerifierState.new Driver.key).post Driver.happy.crates Driver.now body).1)
      (Driver.ctx Driver.agent Driver.sandbox) Driver.happy.request
    r.1.isAllow = true ∧ r.2.reasonCode = "OK" ∧ r.2.receiptId = some "rcpt-jti-happy" := by
  have ht : eqIgnoreAsciiCase
      (Driver.cfg "http://127.0.0.1:18443/v1/authorize" .enforce .closed).tokenHeader
      defaultTokenHeader = true := by decide
  have h := continue_complete (k := Driver.readings) ht Driver.happy.fromSlice_claims
    Driver.happy_authorizes (Driver.headerValues_hdr (some Driver.happy.token))
    (Driver.happy.passesLocalChecks _ _ _).2 Driver.happy_fitsLimit
  have hm : ExtAuthzMiddleware.new
      (Driver.cfg "http://127.0.0.1:18443/v1/authorize" .enforce .closed) = Driver.middleware := rfl
  have hj : "rcpt-" ++ Driver.happy.claims.jti = "rcpt-jti-happy" := by decide
  rw [hj, hm] at h
  obtain ⟨h₁, -, h₂, h₃, -⟩ := h
  exact ⟨h₁, h₂, h₃⟩

/-! ## The size limit -/

section
variable {X : Crates} {st : VerifierState} {now : Int64} {m : ExtAuthzMiddleware} {k : Readings}
  {ctx : RequestContext} {req : EgressRequest} {token : String}

theorem evaluate_of_not_fitsLimit (hm : m.cfg.mode = .enforce) (hf : m.cfg.fail = .open)
    (hh : headerValues req.headers m.cfg.tokenHeader = [token])
    (hb : req.body.length ≤ m.cfg.maxBodyBytes)
    (hs : ¬ (m.wire X.sha256 k ctx req token).FitsLimit) :
    (m.evaluate X.sha256 k (fun body => (st.post X now body).1) ctx req).1.isAllow = true := by
  rw [evaluate_of_token hh hb, callVerifier, outcome_post_of_not_fitsLimit hs,
    resolve_isAllow_failure hm _ rfl]
  exact hf

/-- In enforce mode, with a live verifier, a request that passes the local
    checks continues only on an ALLOW, unless the policy is open and the request
    is over the limit of the verifier. -/
theorem continue_requires_allow_iff (hm : m.cfg.mode = .enforce)
    (hh : headerValues req.headers m.cfg.tokenHeader = [token])
    (hb : req.body.length ≤ m.cfg.maxBodyBytes) :
    ((m.evaluate X.sha256 k (fun body => (st.post X now body).1) ctx req).1.isAllow = true →
      extractRequest (m.wire X.sha256 k ctx req token).toJson =
          .ok (m.wire X.sha256 k ctx req token) ∧
        (st.authorize X now (m.wire X.sha256 k ctx req token)).1.decision = .allow) ↔
      m.cfg.fail = .closed ∨ (m.wire X.sha256 k ctx req token).FitsLimit := by
  constructor
  · intro h
    by_contra hn
    rw [not_or] at hn
    have hopen : m.cfg.fail = .open := by
      cases hf : m.cfg.fail with
      | closed => exact absurd hf hn.1
      | «open» => rfl
    obtain ⟨he, -⟩ := h (evaluate_of_not_fitsLimit hm hopen hh hb hn.2)
    rw [extractRequest_of_not_fitsLimit hn.2] at he
    cases he
  · rintro (hf | hs) hc
    · rw [evaluate_of_token hh hb, resolve_isAllow_closed hm hf] at hc
      obtain ⟨v, ho, hv⟩ := hc
      obtain ⟨he, rfl⟩ := authorize_of_verdict ho
      exact ⟨he, hv⟩
    · refine ⟨extractRequest_toJson hs, ?_⟩
      rw [evaluate_of_token hh hb, callVerifier, outcome_post hs, resolve_verdict_isAllow hm] at hc
      exact hc

end

theorem continue_requires_allow_happy :
    ((VerifierState.new Driver.key).authorize Driver.happy.crates Driver.now
      Driver.happy.wire).1.decision = .allow := by
  have hh : headerValues Driver.happy.request.headers Driver.middleware.cfg.tokenHeader =
      [Driver.happy.token] := Driver.happy.headerValues_request _ _ _
  have hm : Driver.middleware.cfg.mode = .enforce := rfl
  have hb : Driver.happy.request.body.length ≤ Driver.middleware.cfg.maxBodyBytes :=
    (Driver.happy.passesLocalChecks _ _ _).2
  have hs : (Driver.middleware.wire Driver.happy.crates.sha256 Driver.readings
      (Driver.ctx Driver.agent Driver.sandbox) Driver.happy.request Driver.happy.token).FitsLimit :=
    Driver.happy_fitsLimit
  rw [Driver.Scenario.wire]
  exact ((continue_requires_allow_iff hm hh hb).2 (.inr hs) Driver.happy_continues).2

/-- A query of 64 KiB under `fail = open`: the request continues, and `authorize`
    never ran on it. -/
theorem oversize_bypasses :
    let m := ExtAuthzMiddleware.new
      (Driver.cfg "http://127.0.0.1:18443/v1/authorize" .enforce .open)
    let X := Driver.oversize.crates
    let st := VerifierState.new Driver.key
    let ctx := Driver.ctx Driver.agent Driver.sandbox
    let req := Driver.oversize.request
    let wire := m.wire X.sha256 Driver.readings ctx req Driver.oversize.token
    ¬ ((m.evaluate X.sha256 Driver.readings (fun body => (st.post X Driver.now body).1) ctx
        req).1.isAllow = true →
      extractRequest wire.toJson = .ok wire ∧
        (st.authorize X Driver.now wire).1.decision = .allow) := by
  intro m X st ctx req wire h
  have hh : headerValues req.headers m.cfg.tokenHeader = [Driver.oversize.token] :=
    Driver.oversize.headerValues_request _ _ _
  have hs : ¬ wire.FitsLimit := by
    intro hs
    have hq : wire.request.query.utf8ByteSize = 65536 := by
      have : wire.request.query = String.ofList (List.replicate 65536 'a') := rfl
      rw [this, size_ofList, List.map_replicate, List.sum_replicate]
      rfl
    have := hs.query_le
    rw [hq] at this
    exact absurd this (by decide)
  obtain ⟨he, -⟩ := h (evaluate_of_not_fitsLimit rfl rfl hh
    (Driver.oversize.passesLocalChecks _ _ _).2 hs)
  rw [extractRequest_of_not_fitsLimit hs] at he
  cases he

end ExtAuthz
