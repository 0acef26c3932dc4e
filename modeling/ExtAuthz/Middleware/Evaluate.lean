/-
  The egress middleware (`ext-authz-middleware/src/lib.rs`).

  `evaluate` is split where the source awaits the verifier: `prepare` is what
  happens before, the local denials included, and `resolve` what happens with
  the outcome.  The environment comes in as arguments: the clock readings, and
  `post`, the HTTP round trip of a JSON body.

  The latency is kept in nanoseconds; the source prints it in milliseconds.
-/
import ExtAuthz.Core.Config
import ExtAuthz.Core.Hash
import ExtAuthz.Core.Types
import ExtAuthz.Lib.Hex

namespace ExtAuthz

open Text Json

/-- Proxy-attested execution context for one request. -/
structure RequestContext where
  /-- The durable agent principal. -/
  agentId : String
  /-- The human the agent acts for. -/
  onBehalfOf : Option String
  agentClass : Option String
  /-- The runtime sandbox; not the principal. -/
  sandboxId : String
  sandboxName : Option String
  endpointRule : String
  policyRevision : Option String
  requestId : Option String
  deriving DecidableEq

/-- The outbound request at the egress hook. -/
structure EgressRequest where
  method : String
  scheme : String
  /-- `host[:port]` exactly as it will be dialed. -/
  authority : String
  path : String
  query : String
  /-- Header name (any case) and value. -/
  headers : List (String × String)
  /-- The buffered request body. -/
  body : List UInt8
  deriving DecidableEq

/-- A structured denial. -/
structure DenyVerdict where
  /-- 403 for authorization denials, 503 for fail-closed infrastructure denials. -/
  httpStatus : UInt16
  reasonCode : String
  message : String
  receiptId : Option String
  evidence : Value

/-- The decision of the middleware for one request. -/
inductive Decision where
  /-- Let the request continue without the named headers. -/
  | «continue» (stripHeaders : List String)
  | deny (verdict : DenyVerdict)

/-- The request may go on (`is_allow`). -/
def Decision.isAllow : Decision → Bool
  | .continue _ => true
  | .deny _ => false

@[simp] theorem Decision.isAllow_continue (s : List String) :
    (Decision.continue s).isAllow = true := rfl

@[simp] theorem Decision.isAllow_deny (v : DenyVerdict) : (Decision.deny v).isAllow = false := rfl

/-- One structured audit line per request. -/
structure AuditEvent where
  tsUnixMs : Int64
  middleware : String
  agentId : String
  sandboxId : String
  endpointRule : String
  method : String
  authority : String
  path : String
  canonicalRequestHash : Option String
  /-- The effective decision, `allow` or `deny`. -/
  decision : String
  /-- False in observe mode. -/
  enforced : Bool
  /-- Observe mode only: the verifier or a local check would have denied. -/
  wouldDeny : Bool
  reasonCode : String
  receiptId : Option String
  verifierLatency : Option ℕ
  /-- The verifier was unreachable and the fail policy decided. -/
  degraded : Bool
  deriving DecidableEq

/-! ## Headers -/

/-- What is found under a header name. -/
inductive HeaderLookup where
  | none
  | one (value : String)
  | many
  deriving DecidableEq

/-- The loop of `find_token_header`, with the value `found` so far. -/
def findTokenHeader.go (nameLower : String) :
    Option String → List (String × String) → HeaderLookup
  | some v, [] => .one v
  | .none, [] => .none
  | found, (k, v) :: headers =>
    if eqIgnoreAsciiCase k nameLower then
      if found.isSome then .many else go nameLower (some v) headers
    else go nameLower found headers

/-- Case-insensitive lookup for the credential header. -/
def findTokenHeader (headers : List (String × String)) (nameLower : String) : HeaderLookup :=
  findTokenHeader.go nameLower .none headers

/-- Case-insensitive lookup, first match wins. -/
def findHeader (headers : List (String × String)) (nameLower : String) : Option String :=
  (headers.find? fun h => eqIgnoreAsciiCase h.1 nameLower).map Prod.snd

/-- The values of the headers of a name. -/
def headerValues (headers : List (String × String)) (name : String) : List String :=
  (headers.filter fun h => eqIgnoreAsciiCase h.1 name).map Prod.snd

theorem findTokenHeader_go (n v : String) : ∀ headers, findTokenHeader.go n (some v) headers =
    if headerValues headers n = [] then .one v else .many
  | [] => rfl
  | (k, w) :: headers => by
    rw [findTokenHeader.go]
    by_cases hk : eqIgnoreAsciiCase k n = true
    · simp only [hk, headerValues, List.filter_cons_of_pos, Option.isSome_some, if_true]
      simp
    · rw [if_neg hk, findTokenHeader_go n v headers, headerValues, headerValues,
        List.filter_cons_of_neg (by simpa using hk)]

theorem findTokenHeader_eq (headers : List (String × String)) (n : String) :
    findTokenHeader headers n =
      match headerValues headers n with
      | [] => .none
      | [v] => .one v
      | _ => .many := by
  unfold findTokenHeader
  induction headers with
  | nil => rfl
  | cons h headers ih =>
    obtain ⟨k, v⟩ := h
    rw [findTokenHeader.go]
    by_cases hk : eqIgnoreAsciiCase k n = true
    · rw [if_pos hk, headerValues, List.filter_cons_of_pos (by simpa using hk)]
      rw [Option.isSome_none, if_neg Bool.false_ne_true, findTokenHeader_go, List.map_cons,
        ← headerValues]
      cases headerValues headers n <;> simp
    · rw [if_neg hk, ih, headerValues, headerValues, List.filter_cons_of_neg (by simpa using hk)]

/-- Exactly one header of the name, with the value `v`. -/
theorem findTokenHeader_eq_one {headers : List (String × String)} {n v : String} :
    findTokenHeader headers n = .one v ↔ headerValues headers n = [v] := by
  rw [findTokenHeader_eq]
  split <;> simp_all

/-! ## The verifier client -/

/-- A status line, as it is displayed. -/
structure StatusCode where
  code : ℕ
  phrase : String
  deriving DecidableEq

namespace StatusCode

/-- The status of an answer. -/
def ok : StatusCode := ⟨200, "OK"⟩

/-- The text of a status. -/
def display (s : StatusCode) : String := toString s.code ++ " " ++ s.phrase

end StatusCode

/-- What a `reqwest::Error` says of itself. -/
structure ReqwestError where
  isTimeout : Bool
  isConnect : Bool
  isDecode : Bool
  status : Option StatusCode
  isBody : Bool
  deriving DecidableEq

/-- The error of a response body that does not decode. -/
def ReqwestError.decode : ReqwestError where
  isTimeout := false
  isConnect := false
  isDecode := true
  status := none
  isBody := false

/-- The body of a response, from its document. -/
def AuthorizeResponse.decode (R : ValueReader) (body : Json) :
    Except ReqwestError AuthorizeResponse :=
  (fromJson R body).elim (.error .decode) .ok

theorem AuthorizeResponse.decode_toJson (R : ValueReader) {v : AuthorizeResponse}
    (h : v.Lossless) : decode R v.toJson = .ok v := by
  rw [decode, fromJson_toJson R h, Option.elim_some]

/-- The result of an HTTP round trip.  The body of a response is read later, as an
    `AuthorizeResponse`, and this may fail as well. -/
inductive Reply where
  | error (e : ReqwestError)
  | response (status : StatusCode) (body : Except ReqwestError AuthorizeResponse)

/-- What became of a request to the verifier. -/
inductive VerifierOutcome where
  | verdict (v : AuthorizeResponse)
  | timeout
  | unavailable (e : String)
  | malformed (e : String)

/-- A verdict, as opposed to a failure of the verifier. -/
def VerifierOutcome.isVerdict : VerifierOutcome → Bool
  | .verdict _ => true
  | _ => false

/-- Classify an error by kind, so that no URL reaches the audit. -/
def redactErr (e : ReqwestError) : String :=
  if e.isTimeout then "timeout"
  else if e.isConnect then "connect error"
  else if e.isDecode then "decode error"
  else match e.status with
    | some status => "http status " ++ status.display
    | none => if e.isBody then "body error" else "request error"

/-- What `call_verifier` makes of the round trip. -/
def Reply.outcome : Reply → VerifierOutcome
  | .error e => if e.isTimeout then .timeout else .unavailable (redactErr e)
  | .response status body =>
    if status.code ≠ 200 then .malformed ("http status " ++ status.display)
    else match body with
      | .ok v => .verdict v
      | .error e => if e.isTimeout then .timeout else .malformed (redactErr e)

/-- One round trip to the verifier. -/
def callVerifier (post : Json → Reply) (wire : AuthorizeRequest) : VerifierOutcome :=
  (post wire.toJson).outcome

/-! ## The middleware -/

/-- The middleware holds a normalized configuration. -/
structure ExtAuthzMiddleware where
  cfg : ExtAuthzConfig
  normalized : cfg.normalized = cfg

/-- The clock readings of one evaluation. -/
structure Readings where
  tsUnixMs : Int64
  receivedAtUnixMs : Int64
  elapsed : ℕ
  deriving DecidableEq

/-- The parts of a request that are hashed. -/
def EgressRequest.parts (sha256 : List UInt8 → Digest) (req : EgressRequest) :
    CanonicalRequestParts where
  method := req.method
  scheme := req.scheme
  authority := req.authority
  path := req.path
  query := req.query
  bodySha256 := sha256 req.body

/-- The request passes the local checks: one token header, and a body within
    the bound. -/
def PassesLocalChecks (cfg : ExtAuthzConfig) (req : EgressRequest) : Prop :=
  (∃ token, headerValues req.headers cfg.tokenHeader = [token]) ∧
    req.body.length ≤ cfg.maxBodyBytes

namespace ExtAuthzMiddleware

/-- The middleware of a configuration. -/
def new (cfg : ExtAuthzConfig) : ExtAuthzMiddleware := ⟨cfg.normalized, cfg.normalized_normalized⟩

/-- Go on, without the token header if this is to be stripped. -/
def continueDecision (m : ExtAuthzMiddleware) : Decision :=
  .continue (if m.cfg.stripTokenHeader then [m.cfg.tokenHeader] else [])

/-- A denial decided by the middleware itself, before any round trip. -/
def resolveLocalDeny (m : ExtAuthzMiddleware) (audit : AuditEvent) (code message : String) :
    Decision × AuditEvent :=
  let audit := { audit with reasonCode := code }
  match m.cfg.mode with
  | .enforce =>
    (.deny {
      httpStatus := 403
      reasonCode := code
      message := message
      receiptId := none
      evidence := Value.object [("source", .str "middleware-local")] },
    { audit with decision := "deny" })
  | .observe => (m.continueDecision, { audit with decision := "allow", wouldDeny := true })

/-- A deny verdict returned by the verifier. -/
def resolveVerdictDeny (m : ExtAuthzMiddleware) (audit : AuditEvent) (v : AuthorizeResponse) :
    Decision × AuditEvent :=
  match m.cfg.mode with
  | .enforce =>
    (.deny {
      httpStatus := 403
      reasonCode := v.reasonCode
      message := v.message.getD "denied by verifier"
      receiptId := v.receiptId
      evidence := v.evidence.getD (Value.object []) },
    { audit with decision := "deny" })
  | .observe => (m.continueDecision, { audit with decision := "allow", wouldDeny := true })

/-- The verifier could not produce a verdict: apply the fail policy. -/
def resolveVerifierFailure (m : ExtAuthzMiddleware) (audit : AuditEvent) (code message : String) :
    Decision × AuditEvent :=
  let audit := { audit with reasonCode := code, degraded := true }
  match m.cfg.mode, m.cfg.fail with
  | .enforce, .closed =>
    (.deny {
      httpStatus := 503
      reasonCode := code
      message := message
      receiptId := none
      evidence := Value.object [("fail_policy", .str "closed")] },
    { audit with decision := "deny" })
  | .enforce, .open | .observe, _ =>
    (m.continueDecision,
      { audit with decision := "allow", wouldDeny := decide (m.cfg.mode = .observe) })

/-- The audit event that an evaluation starts with. -/
def initialAudit (m : ExtAuthzMiddleware) (k : Readings) (ctx : RequestContext)
    (req : EgressRequest) : AuditEvent where
  tsUnixMs := k.tsUnixMs
  middleware := "ext-authz"
  agentId := ctx.agentId
  sandboxId := ctx.sandboxId
  endpointRule := ctx.endpointRule
  method := toAsciiUppercase req.method
  authority := req.authority
  path := req.path
  canonicalRequestHash := none
  decision := "deny"
  enforced := decide (m.cfg.mode = .enforce)
  wouldDeny := false
  reasonCode := ""
  receiptId := none
  verifierLatency := none
  degraded := false

/-- The token, and the forwarded headers that the request has. -/
def credentials (m : ExtAuthzMiddleware) (headers : List (String × String)) (token : String) :
    Std.ExtTreeMap String String :=
  m.cfg.forwardHeaders.foldl
    (fun creds name =>
      if name ≠ m.cfg.tokenHeader then
        match findHeader headers name with
        | some v => creds.insert name v
        | none => creds
      else creds)
    ((∅ : Std.ExtTreeMap String String).insert m.cfg.tokenHeader token)

/-- The request to the verifier. -/
def wire (m : ExtAuthzMiddleware) (sha256 : List UInt8 → Digest) (k : Readings)
    (ctx : RequestContext) (req : EgressRequest) (token : String) : AuthorizeRequest where
  version := wireVersion
  request := {
    method := toAsciiUppercase req.method
    scheme := toAsciiLowercase req.scheme
    authority := req.authority
    path := req.path
    query := req.query
    bodySha256 := Hex.encode (sha256 req.body).toList
    bodyLen := UInt64.ofNat req.body.length
    canonicalRequestHash := Hex.encode (canonicalRequestHash sha256 (req.parts sha256)).toList }
  context := {
    agentId := ctx.agentId
    onBehalfOf := ctx.onBehalfOf
    agentClass := ctx.agentClass
    sandboxId := ctx.sandboxId
    sandboxName := ctx.sandboxName
    endpointRule := ctx.endpointRule
    policyRevision := ctx.policyRevision
    requestId := ctx.requestId
    receivedAtUnixMs := k.receivedAtUnixMs }
  credentials := m.credentials req.headers token

/-- Up to the round trip: a local denial, or the audit so far and the request
    to the verifier. -/
def prepare (m : ExtAuthzMiddleware) (sha256 : List UInt8 → Digest) (k : Readings)
    (ctx : RequestContext) (req : EgressRequest) :
    Except (Decision × AuditEvent) (AuditEvent × AuthorizeRequest) :=
  let audit := m.initialAudit k ctx req
  match findTokenHeader req.headers m.cfg.tokenHeader with
  | .none =>
    .error (m.resolveLocalDeny audit Reason.tokenMissing
      ("request carries no `" ++ m.cfg.tokenHeader ++ "` header"))
  | .many =>
    .error (m.resolveLocalDeny audit Reason.tokenAmbiguous
      ("request carries multiple `" ++ m.cfg.tokenHeader ++
        "` headers; refusing to guess which to authorize"))
  | .one token =>
    if req.body.length > m.cfg.maxBodyBytes then
      .error (m.resolveLocalDeny audit Reason.requestTooLarge
        ("body is " ++ toString req.body.length ++ " bytes; max_body_bytes=" ++
          toString m.cfg.maxBodyBytes ++ " (intent binding requires hashing the body)"))
    else
      let wire := m.wire sha256 k ctx req token
      .ok ({ audit with canonicalRequestHash := some wire.request.canonicalRequestHash }, wire)

/-- Resolve the outcome through mode and fail policy. -/
def resolve (m : ExtAuthzMiddleware) (audit : AuditEvent) :
    VerifierOutcome → Decision × AuditEvent
  | .verdict v =>
    let audit := { audit with reasonCode := v.reasonCode, receiptId := v.receiptId }
    match v.decision with
    | .allow => (m.continueDecision, { audit with decision := "allow" })
    | .deny => m.resolveVerdictDeny audit v
  | .timeout =>
    m.resolveVerifierFailure audit Reason.verifierTimeout
      ("verifier did not answer within " ++ toString m.cfg.timeoutMs ++ "ms")
  | .unavailable e =>
    m.resolveVerifierFailure audit Reason.verifierUnavailable ("verifier unreachable: " ++ e)
  | .malformed e =>
    m.resolveVerifierFailure audit Reason.verifierMalformedResponse
      ("verifier protocol error: " ++ e)

/-- Evaluate one request. -/
def evaluate (m : ExtAuthzMiddleware) (sha256 : List UInt8 → Digest) (k : Readings)
    (post : Json → Reply) (ctx : RequestContext) (req : EgressRequest) : Decision × AuditEvent :=
  match m.prepare sha256 k ctx req with
  | .error result => result
  | .ok (audit, wire) =>
    m.resolve { audit with verifierLatency := some k.elapsed } (callVerifier post wire)

end ExtAuthzMiddleware

end ExtAuthz
