/-
  The wire contract between the middleware and the verifier
  (`ext-authz-core/src/types.rs`), with the JSON that the derived `Serialize`
  and `Deserialize` give it.

  `AuthorizeRequest.fromJson_toJson` and `AuthorizeResponse.fromJson_toJson`:
  what one side writes the other side reads back.  A response needs an evidence
  that is read as it is (`AuthorizeResponse.Lossless`).
-/
import ExtAuthz.Lib.Json

namespace ExtAuthz

open Json

/-- Wire-contract version carried in every request. -/
def wireVersion : String := "1"

/-- What is about to egress. -/
structure RequestDescriptor where
  method : String
  scheme : String
  authority : String
  path : String
  query : String
  /-- Lowercase hex SHA-256 of the request body. -/
  bodySha256 : String
  /-- Advisory: the body length in bytes. -/
  bodyLen : UInt64
  /-- Lowercase hex `crh_v1`. -/
  canonicalRequestHash : String
  deriving DecidableEq

/-- Who is acting: the proxy execution context. -/
structure WireContext where
  /-- The durable agent principal, the authorization subject. -/
  agentId : String
  /-- The human the agent acts for. -/
  onBehalfOf : Option String
  agentClass : Option String
  /-- The sandbox the action executes in; not the principal. -/
  sandboxId : String
  sandboxName : Option String
  endpointRule : String
  policyRevision : Option String
  requestId : Option String
  receivedAtUnixMs : Int64
  deriving DecidableEq

/-- The request of the middleware to the verifier. -/
structure AuthorizeRequest where
  version : String
  request : RequestDescriptor
  context : WireContext
  /-- Lowercase header name to value, for the forwarded headers. -/
  credentials : Std.ExtTreeMap String String

/-- The decision of the verifier. -/
inductive WireDecision where
  | allow
  | deny
  deriving DecidableEq

/-- The verdict of the verifier. -/
structure AuthorizeResponse where
  decision : WireDecision
  reasonCode : String
  message : Option String
  /-- Verifier-side audit handle. -/
  receiptId : Option String
  /-- Opaque structured evidence for the audit sink. -/
  evidence : Option Value

/-! ## Known reason codes -/

namespace Reason

-- emitted by the middleware itself
/-- The request has no token header. -/
def tokenMissing : String := "TOKEN_MISSING"
/-- The request has the token header more than once. -/
def tokenAmbiguous : String := "TOKEN_AMBIGUOUS"
/-- The body is over the bound of the configuration. -/
def requestTooLarge : String := "REQUEST_TOO_LARGE"
/-- The verifier was not reached. -/
def verifierUnavailable : String := "VERIFIER_UNAVAILABLE"
/-- The verifier did not answer in time. -/
def verifierTimeout : String := "VERIFIER_TIMEOUT"
/-- The verifier answered with something else than a verdict. -/
def verifierMalformedResponse : String := "VERIFIER_MALFORMED_RESPONSE"

-- emitted by a verifier
/-- The verifier does not implement the version of the request. -/
def unsupportedVersion : String := "UNSUPPORTED_VERSION"
/-- The canonical allow code. -/
def ok : String := "OK"
/-- There is no token, or it cannot be decoded. -/
def tokenMalformed : String := "TOKEN_MALFORMED"
/-- The token was not signed with the key of the verifier. -/
def tokenSignatureInvalid : String := "TOKEN_SIGNATURE_INVALID"
/-- The token is too old. -/
def tokenExpired : String := "TOKEN_EXPIRED"
/-- The nonce of the token was consumed. -/
def tokenReplayed : String := "TOKEN_REPLAYED"
/-- The token is for another agent, or for another human. -/
def agentMismatch : String := "AGENT_MISMATCH"
/-- The agent has been revoked, in all of its sandboxes. -/
def agentRevoked : String := "AGENT_REVOKED"
/-- The sandbox is outside of the workload selector of the token. -/
def workloadMismatch : String := "WORKLOAD_MISMATCH"
/-- The request is outside of what the token grants. -/
def intentMismatch : String := "INTENT_MISMATCH"
/-- The descriptor does not hash to the hash that was sent. -/
def crhMismatch : String := "CRH_MISMATCH"
/-- The descriptor cannot be canonicalized. -/
def descriptorMalformed : String := "DESCRIPTOR_MALFORMED"

end Reason

/-! ## JSON -/

namespace RequestDescriptor

/-- The members of a descriptor. -/
def names : List String :=
  ["method", "scheme", "authority", "path", "query", "body_sha256", "body_len",
    "canonical_request_hash"]

/-- The members with their values. -/
def toFields (r : RequestDescriptor) : List (String × Option Json) :=
  [("method", some (.str r.method)), ("scheme", some (.str r.scheme)),
    ("authority", some (.str r.authority)), ("path", some (.str r.path)),
    ("query", some (.str r.query)), ("body_sha256", some (.str r.bodySha256)),
    ("body_len", some (.num r.bodyLen.toNat)),
    ("canonical_request_hash", some (.str r.canonicalRequestHash))]

/-- A descriptor as it is written. -/
def toJson (r : RequestDescriptor) : Json := ofFields r.toFields

/-- A descriptor as it is read: `deny_unknown_fields`; `query` has a default. -/
def fromJson (j : Json) : Option RequestDescriptor := do
  let fs ← readFields true names j
  return {
    method := ← required fs "method" readStr
    scheme := ← required fs "scheme" readStr
    authority := ← required fs "authority" readStr
    path := ← required fs "path" readStr
    query := ← withDefault fs "query" "" readStr
    bodySha256 := ← required fs "body_sha256" readStr
    bodyLen := ← required fs "body_len" readUInt64
    canonicalRequestHash := ← required fs "canonical_request_hash" readStr }

theorem names_nodup : names.Nodup := by simp [names]

theorem fromJson_toJson (r : RequestDescriptor) : fromJson r.toJson = some r := by
  have hk : r.toFields.map Prod.fst = names := rfl
  have hn : (r.toFields.map Prod.fst).Nodup := hk ▸ names_nodup
  rw [fromJson, toJson, readFields_ofFields hk names_nodup]
  simp only [Option.bind_eq_bind, Option.bind_some, required, withDefault, member_present hn]
  simp [toFields, member]

end RequestDescriptor

namespace WireContext

/-- The members of a context. -/
def names : List String :=
  ["agent_id", "on_behalf_of", "agent_class", "sandbox_id", "sandbox_name", "endpoint_rule",
    "policy_revision", "request_id", "received_at_unix_ms"]

/-- The members that are written: an absent `Option` is not. -/
def toFields (c : WireContext) : List (String × Option Json) :=
  [("agent_id", some (.str c.agentId)), ("on_behalf_of", c.onBehalfOf.map .str),
    ("agent_class", c.agentClass.map .str), ("sandbox_id", some (.str c.sandboxId)),
    ("sandbox_name", c.sandboxName.map .str), ("endpoint_rule", some (.str c.endpointRule)),
    ("policy_revision", c.policyRevision.map .str), ("request_id", c.requestId.map .str),
    ("received_at_unix_ms", some (.num c.receivedAtUnixMs.toInt))]

/-- A context as it is written. -/
def toJson (c : WireContext) : Json := ofFields c.toFields

/-- A context as it is read: `deny_unknown_fields`; the `Option` fields have a
    default. -/
def fromJson (j : Json) : Option WireContext := do
  let fs ← readFields true names j
  return {
    agentId := ← required fs "agent_id" readStr
    onBehalfOf := ← nullable fs "on_behalf_of" readStr
    agentClass := ← nullable fs "agent_class" readStr
    sandboxId := ← required fs "sandbox_id" readStr
    sandboxName := ← nullable fs "sandbox_name" readStr
    endpointRule := ← required fs "endpoint_rule" readStr
    policyRevision := ← nullable fs "policy_revision" readStr
    requestId := ← nullable fs "request_id" readStr
    receivedAtUnixMs := ← required fs "received_at_unix_ms" readInt64 }

theorem names_nodup : names.Nodup := by simp [names]

theorem fromJson_toJson (c : WireContext) : fromJson c.toJson = some c := by
  have hk : c.toFields.map Prod.fst = names := rfl
  have hn : (c.toFields.map Prod.fst).Nodup := hk ▸ names_nodup
  rw [fromJson, toJson, readFields_ofFields hk names_nodup]
  simp only [Option.bind_eq_bind, Option.bind_some, required, nullable, member_present hn]
  simp [toFields, member]

end WireContext

namespace AuthorizeRequest

/-- The members of a request. -/
def names : List String := ["version", "request", "context", "credentials"]

/-- The members with their values. -/
def toFields (r : AuthorizeRequest) : List (String × Option Json) :=
  [("version", some (.str r.version)), ("request", some r.request.toJson),
    ("context", some r.context.toJson), ("credentials", some (ofMap r.credentials))]

/-- A request as it is written. -/
def toJson (r : AuthorizeRequest) : Json := ofFields r.toFields

/-- A request as it is read: `deny_unknown_fields`; `credentials` has a default. -/
def fromJson (j : Json) : Option AuthorizeRequest := do
  let fs ← readFields true names j
  return {
    version := ← required fs "version" readStr
    request := ← required fs "request" RequestDescriptor.fromJson
    context := ← required fs "context" WireContext.fromJson
    credentials := ← withDefault fs "credentials" ∅ readMap }

theorem names_nodup : names.Nodup := by simp [names]

/-- The verifier reads the request that the middleware wrote. -/
theorem fromJson_toJson (r : AuthorizeRequest) : fromJson r.toJson = some r := by
  have hk : r.toFields.map Prod.fst = names := rfl
  have hn : (r.toFields.map Prod.fst).Nodup := hk ▸ names_nodup
  rw [fromJson, toJson, readFields_ofFields hk names_nodup]
  simp only [Option.bind_eq_bind, Option.bind_some, required, withDefault, member_present hn]
  simp [toFields, member, RequestDescriptor.fromJson_toJson, WireContext.fromJson_toJson]

end AuthorizeRequest

namespace WireDecision

/-- A decision as it is written: `rename_all = "lowercase"`. -/
def toJson : WireDecision → Json
  | allow => .str "allow"
  | deny => .str "deny"

/-- The decision of a name. -/
def ofName : String → Option WireDecision
  | "allow" => some allow
  | "deny" => some deny
  | _ => none

/-- A decision as it is read. -/
def fromJson : Json → Option WireDecision := readVariant ofName

@[simp] theorem fromJson_toJson (d : WireDecision) : fromJson d.toJson = some d := by
  cases d <;> rfl

end WireDecision

namespace AuthorizeResponse

/-- The members of a response. -/
def names : List String := ["decision", "reason_code", "message", "receipt_id", "evidence"]

/-- The members that are written: an absent `Option` is not. -/
def toFields (v : AuthorizeResponse) : List (String × Option Json) :=
  [("decision", some v.decision.toJson), ("reason_code", some (.str v.reasonCode)),
    ("message", v.message.map .str), ("receipt_id", v.receiptId.map .str),
    ("evidence", v.evidence.map Value.json)]

/-- A response as it is written. -/
def toJson (v : AuthorizeResponse) : Json := ofFields v.toFields

/-- A response as it is read: unknown members are ignored; the `Option` fields have
    a default. -/
def fromJson (R : ValueReader) (j : Json) : Option AuthorizeResponse := do
  let fs ← readFields false names j
  return {
    decision := ← required fs "decision" WireDecision.fromJson
    reasonCode := ← required fs "reason_code" readStr
    message := ← nullable fs "message" readStr
    receiptId := ← nullable fs "receipt_id" readStr
    evidence := ← nullable fs "evidence" (readValue R) }

/-- The evidence, if there is any, is read as it is: it is not `null`, which is
    read as no evidence, and it has no floats and no raw values. -/
def Lossless (v : AuthorizeResponse) : Prop :=
  ∀ e, v.evidence = some e → e.json ≠ .null ∧ e.json.Verbatim

theorem names_nodup : names.Nodup := by simp [names]

/-- A response is read back, with the evidence as an `Option` reads it. -/
theorem fromJson_toJson_eq (R : ValueReader) (v : AuthorizeResponse) : fromJson R v.toJson =
    (orNone (readValue R) (v.evidence.map Value.json)).map fun e => { v with evidence := e } := by
  have hk : v.toFields.map Prod.fst = names := rfl
  have hn : (v.toFields.map Prod.fst).Nodup := hk ▸ names_nodup
  rw [fromJson, toJson, readFields_ofFields hk names_nodup]
  simp only [Option.bind_eq_bind, Option.bind_some, required, nullable, member_present hn]
  generalize he : orNone (readValue R) (v.evidence.map Value.json) = e
  cases e <;> simp [toFields, member, he]

/-- The middleware reads the response that the verifier wrote. -/
theorem fromJson_toJson (R : ValueReader) {v : AuthorizeResponse} (h : v.Lossless) :
    fromJson R v.toJson = some v := by
  rw [fromJson_toJson_eq, orNone_value R h, Option.map_some]

/-- The decision survives, whatever the evidence is. -/
theorem decision_of_fromJson_toJson {R : ValueReader} {v v' : AuthorizeResponse}
    (h : fromJson R v.toJson = some v') : v'.decision = v.decision := by
  rw [fromJson_toJson_eq] at h
  obtain ⟨e, -, rfl⟩ := Option.map_eq_some_iff.1 h
  rfl

end AuthorizeResponse

end ExtAuthz
