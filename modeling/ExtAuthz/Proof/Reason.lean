/-
  The reason of an evaluation against a live verifier.

  `tokenReason` is the first of the conditions that fails, in terms of the raw
  request: the signature, the expiry, the agent, its revocation, the human, the
  workload, the scope, the bound hash, the nonce.  It is the reason code of every
  request that the middleware sends (`reason_exact`), so that the checks on what
  comes over the wire never fail for one of its own.
-/
import ExtAuthz.Proof.EndToEnd
import ExtAuthz.Proof.Trail

namespace ExtAuthz

open Text Json ExtAuthzMiddleware

/-- The request is inside the scope. -/
def Scope.admits (s : Scope) (req : EgressRequest) : Bool :=
  let scheme := toAsciiLowercase req.scheme
  eqIgnoreAsciiCase s.method req.method &&
    normalizeAuthority scheme req.authority == normalizeAuthority scheme s.authority &&
    pathInScope req.path s.pathPrefix

/-- The first reason against the request `req` in the context `ctx` with the
    claims `c`, at the verifier state `st` and the time `now`. -/
def claimsReason (X : Crates) (st : VerifierState) (now : Int64) (ctx : RequestContext)
    (req : EgressRequest) (c : Claims) : String :=
  if now > c.expUnixMs then Reason.tokenExpired
  else if c.agentId ≠ ctx.agentId then Reason.agentMismatch
  else if c.agentId ∈ st.revokedAgents then Reason.agentRevoked
  else if ∃ obo ∈ c.onBehalfOf, ctx.onBehalfOf ≠ some obo then Reason.agentMismatch
  else if ∃ sel ∈ c.workloadSelector, startsWith ctx.sandboxId sel = false then
    Reason.workloadMismatch
  else if !c.scope.admits req then Reason.intentMismatch
  else if ∃ bound ∈ c.crh, bound ≠ req.crhHex X then Reason.intentMismatch
  else if c.jti ∈ st.seenJti then Reason.tokenReplayed
  else Reason.ok

/-- The first reason against the request with its token. -/
def tokenReason (X : Crates) (st : VerifierState) (now : Int64) (ctx : RequestContext)
    (req : EgressRequest) (token : String) : String :=
  match verify X token st.key with
  | .error .badSignature => Reason.tokenSignatureInvalid
  | .error .malformed => Reason.tokenMalformed
  | .ok c => claimsReason X st now ctx req c

section
variable {X : Crates} {st : VerifierState} {now : Int64} {m : ExtAuthzMiddleware} {k : Readings}
  {ctx : RequestContext} {req : EgressRequest} {token : String} {c : Claims}

theorem credentials_wire (ht : m.cfg.tokenHeader = defaultTokenHeader) :
    (m.wire X.sha256 k ctx req token).credentials[defaultTokenHeader]? = some token :=
  ht ▸ (m.credentials_getElem? req.headers token _).trans (if_pos rfl)

/-- Before the lock only the expiry and the agent can fail. -/
theorem beforeRevocation_wire (ht : m.cfg.tokenHeader = defaultTokenHeader) {key : List UInt8}
    (hv : verify X token key = .ok c) :
    beforeRevocation X key now (m.wire X.sha256 k ctx req token) =
      if now > c.expUnixMs then .error (Reason.tokenExpired, "token exp in the past")
      else if c.agentId ≠ ctx.agentId then
        .error (Reason.agentMismatch, "token agent != acting agent")
      else .ok c := by
  have hver : (m.wire X.sha256 k ctx req token).version = wireVersion := rfl
  have hag : (m.wire X.sha256 k ctx req token).context.agentId = ctx.agentId := rfl
  simp [beforeRevocation, credentials_wire ht, hv, hver, hag, recomputeCrh_wire]

theorem scope_wire : (!eqIgnoreAsciiCase c.scope.method
        (m.wire X.sha256 k ctx req token).request.method ||
      !authorityInScope (m.wire X.sha256 k ctx req token).request.scheme
        (m.wire X.sha256 k ctx req token).request.authority c.scope.authority ||
      !pathInScope (m.wire X.sha256 k ctx req token).request.path c.scope.pathPrefix) =
    !c.scope.admits req := by
  simp [Scope.admits, eqIgnoreAsciiCase, authorityInScope, wire]

theorem afterRevocation_wire : afterRevocation c (m.wire X.sha256 k ctx req token) =
    if ∃ obo ∈ c.onBehalfOf, ctx.onBehalfOf ≠ some obo then
      .error (Reason.agentMismatch, "token on-behalf-of != acting on-behalf-of")
    else if ∃ sel ∈ c.workloadSelector, startsWith ctx.sandboxId sel = false then
      .error (Reason.workloadMismatch, "acting sandbox outside token workload selector")
    else if !c.scope.admits req then .error (Reason.intentMismatch, "request outside token scope")
    else if ∃ bound ∈ c.crh, bound ≠ req.crhHex X then
      .error (Reason.intentMismatch, "request crh != token-bound crh")
    else .ok () := by
  rw [afterRevocation, scope_wire]
  rfl

/-- The verdict has the code `code`, and is an ALLOW with the code `OK` only. -/
structure Coded (v : AuthorizeResponse) (code : String) : Prop where
  reasonCode : v.reasonCode = code
  decision : v.decision = .allow ↔ code = Reason.ok

theorem coded_deny {code : String} (msg : String) (h : code ≠ Reason.ok) :
    Coded (deny code msg) code :=
  ⟨rfl, iff_of_false (by simp [deny]) h⟩

theorem coded_allow (c : Claims) : Coded (allow c) Reason.ok := ⟨rfl, iff_of_true rfl rfl⟩

/-- `authorize` answers with the first reason. -/
theorem coded_authorize_wire (ht : m.cfg.tokenHeader = defaultTokenHeader) :
    Coded (st.authorize X now (m.wire X.sha256 k ctx req token)).1
      (tokenReason X st now ctx req token) := by
  rw [VerifierState.authorize_eq, tokenReason]
  cases hv : verify X token st.key with
  | error e =>
    cases e <;> simp only [beforeRevocation, credentials_wire ht, hv] <;>
      exact coded_deny _ (by decide)
  | ok c =>
    rw [beforeRevocation_wire ht hv]
    simp only [claimsReason]
    by_cases hexp : now > c.expUnixMs
    · rw [if_pos hexp, if_pos hexp]
      exact coded_deny _ (by decide)
    rw [if_neg hexp, if_neg hexp]
    by_cases hag : c.agentId ≠ ctx.agentId
    · rw [if_pos hag, if_pos hag]
      exact coded_deny _ (by decide)
    rw [if_neg hag, if_neg hag]
    simp only [afterRevocation_wire]
    by_cases hrev : c.agentId ∈ st.revokedAgents
    · rw [if_pos hrev, if_pos hrev]
      exact coded_deny _ (by decide)
    rw [if_neg hrev, if_neg hrev]
    by_cases hobo : ∃ obo ∈ c.onBehalfOf, ctx.onBehalfOf ≠ some obo
    · rw [if_pos hobo, if_pos hobo]
      exact coded_deny _ (by decide)
    rw [if_neg hobo, if_neg hobo]
    by_cases hsel : ∃ sel ∈ c.workloadSelector, startsWith ctx.sandboxId sel = false
    · rw [if_pos hsel, if_pos hsel]
      exact coded_deny _ (by decide)
    rw [if_neg hsel, if_neg hsel]
    by_cases hscope : (!c.scope.admits req) = true
    · rw [if_pos hscope, if_pos hscope]
      exact coded_deny _ (by decide)
    rw [if_neg hscope, if_neg hscope]
    by_cases hcrh : ∃ bound ∈ c.crh, bound ≠ req.crhHex X
    · rw [if_pos hcrh, if_pos hcrh]
      exact coded_deny _ (by decide)
    rw [if_neg hcrh, if_neg hcrh]
    by_cases hjti : c.jti ∈ st.seenJti
    · rw [if_pos hjti]
      simp only [if_pos hjti]
      exact coded_deny _ (by decide)
    · rw [if_neg hjti]
      simp only [if_neg hjti]
      exact coded_allow c

theorem authorize_wire_state (ht : m.cfg.tokenHeader = defaultTokenHeader)
    (hv : verify X token st.key = .ok c) :
    (st.authorize X now (m.wire X.sha256 k ctx req token)).2 =
      if tokenReason X st now ctx req token = Reason.ok then
        { st with seenJti := insert c.jti st.seenJti }
      else st := by
  have hcoded : Coded (st.authorize X now (m.wire X.sha256 k ctx req token)).1
    (tokenReason X st now ctx req token) := coded_authorize_wire ht
  split_ifs with hok
  · obtain ⟨c', hp, hr, hi, hj⟩ := VerifierState.authorize_allow_iff.1 (hcoded.decision.2 hok)
    have hc := hp.claims
    rw [tokenClaims_wire X k ctx req token ht, hv] at hc
    cases hc
    rw [VerifierState.authorize_of_bound hp hr hi hj]
  · refine VerifierState.authorize_state_of_deny ?_
    cases hd : (st.authorize X now (m.wire X.sha256 k ctx req token)).1.decision with
    | deny => rfl
    | allow => exact absurd (hcoded.decision.1 hd) hok

/-- A request that is sent to a live verifier, within its limit, is resolved with
    the verdict of `authorize`. -/
theorem evaluate_live (hh : headerValues req.headers m.cfg.tokenHeader = [token])
    (hb : req.body.length ≤ m.cfg.maxBodyBytes)
    (hs : (m.wire X.sha256 k ctx req token).FitsLimit) :
    m.evaluate X.sha256 k (fun body => (st.post X now body).1) ctx req =
      m.resolve (m.sentAudit k ctx req (m.wire X.sha256 k ctx req token))
        (.verdict (st.authorize X now (m.wire X.sha256 k ctx req token)).1) := by
  rw [evaluate_of_token hh hb, callVerifier, outcome_post hs]

/-- The codes for what the middleware sends wrong. -/
def linkReasons : List String :=
  [Reason.unsupportedVersion, Reason.descriptorMalformed, Reason.crhMismatch]

theorem claimsReason_notMem_linkReasons : claimsReason X st now ctx req c ∉ linkReasons := by
  unfold claimsReason
  split_ifs <;> decide

theorem tokenReason_notMem_linkReasons : tokenReason X st now ctx req token ∉ linkReasons := by
  unfold tokenReason
  split
  · decide
  · decide
  · exact claimsReason_notMem_linkReasons

/-- **Every reason, exactly**: the audit event of a request that is sent to a
    live verifier, within its limit, has the first reason against the raw
    request; in enforce mode the request continues when there is none.  The
    verifier never objects to what the middleware makes of the request. -/
theorem reason_exact (ht : m.cfg.tokenHeader = defaultTokenHeader)
    (hh : headerValues req.headers m.cfg.tokenHeader = [token])
    (hb : req.body.length ≤ m.cfg.maxBodyBytes)
    (hs : (m.wire X.sha256 k ctx req token).FitsLimit) :
    let r := m.evaluate X.sha256 k (fun body => (st.post X now body).1) ctx req
    r.2.reasonCode = tokenReason X st now ctx req token ∧
      (m.cfg.mode = .enforce →
        (r.1.isAllow = true ↔ tokenReason X st now ctx req token = Reason.ok)) ∧
      r.2.reasonCode ∉ linkReasons := by
  intro r
  have hr : r = m.resolve (m.sentAudit k ctx req (m.wire X.sha256 k ctx req token))
    (.verdict (st.authorize X now (m.wire X.sha256 k ctx req token)).1) := evaluate_live hh hb hs
  have hcoded : Coded (st.authorize X now (m.wire X.sha256 k ctx req token)).1
    (tokenReason X st now ctx req token) := coded_authorize_wire ht
  obtain ⟨hcode, hdecision⟩ := hcoded
  have hreason : r.2.reasonCode = tokenReason X st now ctx req token := by
    rw [hr, (resolve_verdict_frame _).1, hcode]
  refine ⟨hreason, fun hm => ?_, hreason ▸ tokenReason_notMem_linkReasons⟩
  rw [hr, resolve_verdict_isAllow hm, hdecision]

end

/-- The happy path has no reason against it. -/
theorem reason_exact_happy :
    let r := Driver.middleware.evaluate Driver.happy.crates.sha256 Driver.readings
      (fun body => ((VerifierState.new Driver.key).post Driver.happy.crates Driver.now body).1)
      (Driver.ctx Driver.agent Driver.sandbox) Driver.happy.request
    r.2.reasonCode = tokenReason Driver.happy.crates (.new Driver.key) Driver.now
        (Driver.ctx Driver.agent Driver.sandbox) Driver.happy.request Driver.happy.token ∧
      (r.1.isAllow = true ↔ tokenReason Driver.happy.crates (.new Driver.key) Driver.now
        (Driver.ctx Driver.agent Driver.sandbox) Driver.happy.request Driver.happy.token =
          Reason.ok) := by
  have h := @reason_exact Driver.happy.crates (.new Driver.key) Driver.now Driver.middleware
    Driver.readings (Driver.ctx Driver.agent Driver.sandbox) Driver.happy.request
    Driver.happy.token Driver.middleware_tokenHeader (Driver.happy.headerValues_request _ _ _)
    (Driver.happy.passesLocalChecks _ _ _).2 Driver.happy_fitsLimit
  exact ⟨h.1, h.2.1 rfl⟩

end ExtAuthz
