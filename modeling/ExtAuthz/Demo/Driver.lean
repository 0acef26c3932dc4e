/-
  The demo driver (`ext-authz-demo/src/driver.rs`): the requests, contexts and
  tokens of its scenarios.

  A `Scenario` fixes one request with its token, and with the digests of the
  byte strings that occur in it.  `Scenario.crates` are the external functions
  on these byte strings.
-/
import ExtAuthz.Demo.Server

namespace ExtAuthz.Driver

open Text Json

/-- The durable agent. -/
def agent : String := "agt-7f3a"

/-- The sandbox of its first run. -/
def sandbox : String := "sbx-run-1"

/-- The upstream of the scenarios. -/
def authority : String := "api.github.com"

/-- The path of the scenarios. -/
def path : String := "/repos/acme/widgets/issues"

/-- The body of the scenarios. -/
def body : List UInt8 := bytes "\x7b\"title\":\"fix egress\"\x7d"

/-- The demo key. -/
def key : List UInt8 := bytes "demo-hawcx"

/-- The clock of the scenarios. -/
def now : Int64 := 1700000000000

/-- The scope of the tokens. -/
def goodScope : Scope where
  method := "POST"
  authority := authority
  pathPrefix := "/repos/acme/"

/-- The claims of `token_for`. -/
def claimsFor (agent jti : String) (crh workloadSelector : Option String) : Claims where
  jti := jti
  agentId := agent
  onBehalfOf := none
  workloadSelector := workloadSelector
  scope := goodScope
  crh := crh
  expUnixMs := 1700000060000

/-- The headers of a request, with a token or without. -/
def hdr (tok : Option String) : List (String × String) :=
  ("content-type", "application/json") ::
    match tok with
    | some t => [("X-Hawcx-HAAP-Token", t)]
    | none => []

/-- The configuration of a middleware of the demo. -/
def cfg (url : String) (mode : Mode) (fail : FailPolicy) : ExtAuthzConfig where
  verifierUrl := url
  mode := mode
  fail := fail
  timeoutMs := 1000
  tokenHeader := "x-hawcx-haap-token"
  forwardHeaders := ["x-request-id"]
  stripTokenHeader := true
  maxBodyBytes := 1048576

/-- The context of a request. -/
def ctx (agent sandbox : String) : RequestContext where
  agentId := agent
  onBehalfOf := none
  agentClass := some "demo-agent"
  sandboxId := sandbox
  sandboxName := some "demo-sandbox"
  endpointRule := "github-api"
  policyRevision := some "rev-7"
  requestId := some "req-demo"

/-- The middleware of the scenarios. -/
def middleware : ExtAuthzMiddleware :=
  .new (cfg "http://127.0.0.1:18443/v1/authorize" .enforce .closed)

/-- The clock readings of an evaluation. -/
def readings : Readings := ⟨now, now, 0⟩

/-- The request of `eval_one`. -/
def egress (path query : String) (tok : Option String) : EgressRequest where
  method := "POST"
  scheme := "https"
  authority := authority
  path := path
  query := query
  headers := hdr tok
  body := body

/-- Without a token the token header is missing; with one it occurs once. -/
theorem headerValues_hdr (tok : Option String) :
    headerValues (hdr tok) defaultTokenHeader = tok.toList := by
  have h₁ : eqIgnoreAsciiCase "content-type" defaultTokenHeader = false := by decide
  have h₂ : eqIgnoreAsciiCase "X-Hawcx-HAAP-Token" defaultTokenHeader = true := by decide
  cases tok <;> simp [headerValues, hdr, h₁, h₂]

theorem cfg_tokenHeader (url : String) (mode : Mode) (fail : FailPolicy) :
    (cfg url mode fail).normalized.tokenHeader = defaultTokenHeader :=
  toAsciiLowercase_defaultTokenHeader

theorem length_body : body.length = 22 := by decide

/-! ## Scenarios -/

/-- One request, with its token. -/
structure Scenario where
  path : String
  query : String
  claims : Claims
  /-- The `crh_v1` of the request. -/
  crh : Digest
  /-- The HMAC-SHA256 of the claims under `key`. -/
  mac : Digest

/-- SHA-256 of `body`. -/
def bodySha256 : Digest :=
  #v[0x47, 0xa8, 0x41, 0xa6, 0x7a, 0xac, 0xc7, 0x31, 0x68, 0x27, 0x02, 0x7e, 0x22, 0x34, 0xba, 0x8b,
    0x76, 0x70, 0x04, 0xf0, 0xe0, 0x86, 0xb5, 0x81, 0x5a, 0x8b, 0xf8, 0x8e, 0x6d, 0x50, 0x01, 0x2a]

namespace Scenario

/-- The external functions on the inputs of a scenario: the two byte strings
    that are hashed, the claims that are signed and parsed, and no value with a
    float or a raw text. -/
def crates (s : Scenario) : Crates where
  sha256 bs := if bs = body then bodySha256 else s.crh
  hmacSha256 _ _ := s.mac
  fromSlice bs := if bs = bytes (claimsBytes s.claims) then some s.claims.toJson else none
  values := ⟨fun _ => none, fun _ => none⟩

/-- The token of the scenario. -/
def token (s : Scenario) : String := mint s.crates s.claims key

/-- The request of the scenario. -/
def request (s : Scenario) : EgressRequest := egress s.path s.query (some s.token)

/-- What the middleware sends to the verifier for it. -/
def wire (s : Scenario) : AuthorizeRequest :=
  middleware.wire s.crates.sha256 readings (ctx agent sandbox) s.request s.token

theorem sha256_body (s : Scenario) : s.crates.sha256 body = bodySha256 := by
  simp [crates]

/-- The body is not a `crh_v1` preimage. -/
theorem canonicalRequestHash_eq (s : Scenario) (p : CanonicalRequestParts) :
    canonicalRequestHash s.crates.sha256 p = s.crh := by
  have hd : (bytes "openshell-crh-v1").head? = some 111 := by decide
  have hb : body.head? = some 123 := by decide
  have hne : crhPreimage p ≠ body := by
    intro h
    have := congrArg List.head? h
    simp [crhPreimage, put, crhDomain, hd, hb] at this
  simp [canonicalRequestHash, crates, hne]

theorem fromSlice_claims (s : Scenario) :
    s.crates.fromSlice (bytes (claimsBytes s.claims)) = some s.claims.toJson := by
  simp [crates]

theorem verify_token (s : Scenario) : verify s.crates s.token key = .ok s.claims :=
  verify_mint key s.fromSlice_claims

/-- A scenario carries its token once. -/
theorem headerValues_request (s : Scenario) (url : String) (mode : Mode) (fail : FailPolicy) :
    headerValues s.request.headers (cfg url mode fail).normalized.tokenHeader = [s.token] := by
  rw [cfg_tokenHeader]
  exact headerValues_hdr (some s.token)

/-- The requests of the scenarios reach the verifier. -/
theorem passesLocalChecks (s : Scenario) (url : String) (mode : Mode) (fail : FailPolicy) :
    PassesLocalChecks (cfg url mode fail).normalized s.request := by
  have h : (22 : ℕ) ≤ 1048576 := by decide
  exact ⟨⟨s.token, s.headerValues_request url mode fail⟩, length_body.trans_le h⟩

end Scenario

/-- The happy path: an exact grant for the request that carries it. -/
def happy : Scenario where
  path := path
  query := ""
  claims := claimsFor agent "jti-happy"
    (some "362355bedda9c2511a0b5f3f26362618702f0baad6539f7debaf2e7e315bd21a") none
  crh :=
    #v[0x36, 0x23, 0x55, 0xbe, 0xdd, 0xa9, 0xc2, 0x51, 0x1a, 0x0b, 0x5f, 0x3f, 0x26, 0x36, 0x26,
      0x18, 0x70, 0x2f, 0x0b, 0xaa, 0xd6, 0x53, 0x9f, 0x7d, 0xeb, 0xaf, 0x2e, 0x7e, 0x31, 0x5b,
      0xd2, 0x1a]
  mac :=
    #v[0x94, 0x56, 0x3a, 0x08, 0x8f, 0x8a, 0xcc, 0x33, 0xf5, 0xc0, 0xc5, 0xd0, 0xd0, 0x2c, 0xfe,
      0x7e, 0xf9, 0xa2, 0x28, 0x17, 0xa0, 0x0e, 0x35, 0x40, 0x5f, 0x2b, 0x92, 0x36, 0xe3, 0x66,
      0x1f, 0xae]

/-- A coarse grant for `/repos/acme/`, spent on a path that climbs out of it. -/
def climbing : Scenario where
  path := "/repos/acme/../evil"
  query := ""
  claims := claimsFor agent "jti-coarse" none none
  crh :=
    #v[0x0a, 0xed, 0xbf, 0xc4, 0xb3, 0xb5, 0x50, 0xbe, 0x8b, 0x5a, 0x12, 0x17, 0x3f, 0xc3, 0xa5,
      0x51, 0x64, 0x13, 0xa5, 0x4c, 0x82, 0x0f, 0x72, 0x8c, 0x49, 0x40, 0x71, 0xea, 0x0b, 0xa4,
      0x72, 0xb3]
  mac :=
    #v[0x67, 0x29, 0x1f, 0x81, 0xc2, 0xb3, 0x1c, 0x1b, 0xe8, 0xe6, 0xe6, 0x59, 0x05, 0xec, 0xbd,
      0xde, 0x2d, 0x06, 0x70, 0x55, 0x0f, 0xd6, 0xab, 0x68, 0x91, 0x9d, 0x3c, 0x0b, 0x2c, 0x5d,
      0xa8, 0xe0]

/-- The same coarse grant, spent on a path that comes back before it climbs. -/
def wandering : Scenario where
  path := "/repos/acme/widgets/../issues"
  query := ""
  claims := climbing.claims
  crh :=
    #v[0xf6, 0x07, 0x3f, 0x5c, 0x75, 0xe4, 0x91, 0x56, 0x9f, 0x45, 0xdb, 0x4a, 0x78, 0x9d, 0x79,
      0x57, 0xd4, 0xdb, 0xab, 0xff, 0xbf, 0x8b, 0xfe, 0x71, 0x36, 0x02, 0x86, 0x6c, 0x48, 0x30,
      0xa7, 0xf0]
  mac := climbing.mac

/-- The same coarse grant, spent on a query that the verifier does not accept. -/
def oversize : Scenario where
  path := path
  query := String.ofList (List.replicate 65536 'a')
  claims := climbing.claims
  crh :=
    #v[0xf5, 0xa0, 0x6e, 0xa8, 0xb1, 0xac, 0xc3, 0xf5, 0x39, 0x66, 0x1a, 0x9c, 0xc6, 0x58, 0x66,
      0x75, 0xcb, 0x1b, 0xd1, 0x7f, 0x95, 0xd6, 0x95, 0x2b, 0x16, 0xb2, 0x4b, 0x22, 0x00, 0x2c,
      0xa3, 0x56]
  mac := climbing.mac

/-- The happy path is minted for its own hash. -/
theorem happy_crh : happy.claims.crh = some (Hex.encode happy.crh.toList) := by
  decide

end ExtAuthz.Driver
