/-
  The scenario suite of the driver (`run_scenarios`): twelve evaluations against
  one verifier, eleven of them with an expected outcome.

  The blocks of the source that mint a token differ in the values of an
  `Attempt`.  What the suite finds around it are its `Surroundings`: the two URLs,
  what is behind the URLs, and the clocks.
-/
import ExtAuthz.Demo.Driver

namespace ExtAuthz.Driver

open Text

/-! ## Results -/

/-- What a scenario came to, beside what was expected. -/
structure ScenarioResult where
  name : String
  bodyLen : ℕ
  tokenPresent : Bool
  expectAllow : Bool
  expectReason : String
  gotAllow : Bool
  gotReason : String
  httpStatus : Option UInt16
  message : String
  crhHex : Option String
  boundCrh : Option String
  audit : AuditEvent

/-- A scenario passes on the expected decision with the expected reason. -/
def ScenarioResult.passed (r : ScenarioResult) : Bool :=
  r.gotAllow == r.expectAllow && r.gotReason == r.expectReason

/-- Allowed, reason code, HTTP status and message of a decision and its audit
    event. -/
def decisionDetail (d : Decision) (a : AuditEvent) : Bool × String × Option UInt16 × String :=
  match d with
  | .continue _ => (true, a.reasonCode, none, "forwarded to upstream · token stripped")
  | .deny v => (false, v.reasonCode, some v.httpStatus, v.message)

/-! ## The world of the suite -/

/-- What is around the suite.  A `POST` to a URL arrives at a route of the verifier,
    or it fails. -/
structure Surroundings where
  crates : Crates
  verifierUrl : String
  downUrl : String
  /-- Where a `POST` of a middleware arrives. -/
  route : String → Option Route
  /-- What a `POST` of a middleware that does not arrive ends with. -/
  down : Reply
  /-- Where a `POST` of the client of `revoke_agent` arrives. -/
  revokeRoute : String → Option Route
  /-- The readings of `now_ms`, in order. -/
  nowMs : ℕ → Int64
  /-- The clock readings of the evaluations, in order. -/
  readings : ℕ → Readings
  /-- The clock readings of the verifier at the evaluations. -/
  verifierNow : ℕ → Int64

/-- The verifier, the number of evaluations so far, and the results so far. -/
structure Suite where
  verifier : VerifierState
  evaluations : ℕ
  out : List ScenarioResult

/-- A `POST` of a middleware. -/
def Surroundings.post (S : Surroundings) (st : VerifierState) (now : Int64) (url : String)
    (body : Json) : Reply × VerifierState :=
  match S.route url with
  | some r => st.serve S.crates now body r
  | none => (S.down, st)

/-- The `crh_v1` of a request, in hex. -/
def crhHex (X : Crates) (method scheme authority path query : String) (body : List UInt8) :
    String :=
  Hex.encode (canonicalRequestHash X.sha256
    ⟨method, scheme, authority, path, query, X.sha256 body⟩).toList

/-- Mint a demo token bound to a durable agent principal. -/
def tokenFor (X : Crates) (agent jti : String) (crh workloadSelector : Option String)
    (expUnixMs : Int64) (key : List UInt8) : String :=
  mint X ⟨jti, agent, none, workloadSelector, goodScope, crh, expUnixMs⟩ key

/-- The URL that an agent is revoked at, from the URL of the verifier. -/
def revokeUrl (verifierUrl agentId : String) : String :=
  replace verifierUrl "/v1/authorize" ("/v1/revoke/" ++ agentId)

/-- Revoke an agent at the verifier, with a `POST` without a body. -/
def revokeAgent (S : Surroundings) (agentId : String) (w : Suite) : Suite :=
  match S.revokeRoute (revokeUrl S.verifierUrl agentId) with
  | some (.revoke a) => { w with verifier := w.verifier.revokeAgent a }
  | some .authorize => w  -- the extractor rejects it
  | none => w  -- an error is ignored

/-- Evaluate one request, and go on with the verifier that it leaves. -/
def evalOne (S : Surroundings) (mw : ExtAuthzMiddleware) (agent sandbox method path : String)
    (body : List UInt8) (token : Option String) (w : Suite) : (Decision × AuditEvent) × Suite :=
  let req : EgressRequest := ⟨method, "https", authority, path, "", hdr token, body⟩
  let k := S.readings w.evaluations
  let post := S.post w.verifier (S.verifierNow w.evaluations) mw.cfg.verifierUrl
  let st := match mw.prepare S.crates.sha256 k (ctx agent sandbox) req with
    | .error _ => w.verifier
    | .ok (_, wire) => (post wire.toJson).2
  (mw.evaluate S.crates.sha256 k (fun j => (post j).1) (ctx agent sandbox) req,
    { w with verifier := st, evaluations := w.evaluations + 1 })

/-- The macro `record!`. -/
def record (name : String) (body : List UInt8) (tokenPresent expectAllow : Bool)
    (expectReason : String) (r : (Decision × AuditEvent) × Suite) : Suite :=
  let (gotAllow, gotReason, httpStatus, message) := decisionDetail r.1.1 r.1.2
  { r.2 with out := r.2.out ++ [{
      name, tokenPresent, expectAllow, expectReason, gotAllow, gotReason, httpStatus, message
      bodyLen := body.length
      crhHex := r.1.2.canonicalRequestHash
      boundCrh := none
      audit := r.1.2 }] }

/-- Note the hash that the token of the last scenario was bound to. -/
def boundLast (crh : String) (w : Suite) : Suite :=
  { w with out := w.out.dropLast ++
      (w.out.getLast?.map fun r => { r with boundCrh := some crh }).toList }

/-! ## The scenarios -/

/-- A token for `tokenAgent`, minted for a `POST` of `body` to `path`, and the
    `POST` that it is presented with. -/
structure Attempt where
  tokenAgent : String
  jti : String
  workloadSelector : Option String
  expUnixMs : Int64
  agent : String
  sandbox : String
  path : String
  sent : List UInt8

namespace Attempt

/-- The hash that the token is bound to. -/
def crh (S : Surroundings) (a : Attempt) : String :=
  crhHex S.crates "POST" "https" authority a.path "" body

/-- The token. -/
def token (S : Surroundings) (key : List UInt8) (a : Attempt) : String :=
  tokenFor S.crates a.tokenAgent a.jti (some (a.crh S)) a.workloadSelector a.expUnixMs key

/-- The evaluation of the `POST` with the token. -/
def eval (S : Surroundings) (key : List UInt8) (mw : ExtAuthzMiddleware) (a : Attempt)
    (w : Suite) : (Decision × AuditEvent) × Suite :=
  evalOne S mw a.agent a.sandbox "POST" a.path a.sent (some (a.token S key)) w

end Attempt

/-- A valid token, bound to the durable agent. -/
def valid (exp : Int64) : Attempt where
  tokenAgent := agent
  jti := "jti-happy"
  workloadSelector := none
  expUnixMs := exp
  agent := agent
  sandbox := sandbox
  path := path
  sent := body

/-- The same agent in a new sandbox. -/
def respawned (exp : Int64) : Attempt :=
  { valid exp with jti := "jti-respawn", sandbox := "sbx-run-2" }

/-- A token of one agent, while another one acts. -/
def wrongAgent (exp : Int64) : Attempt :=
  { valid exp with jti := "jti-wrongagent", agent := "agt-intruder" }

/-- The other agent, which the suite revokes. -/
def revoked (exp : Int64) : Attempt :=
  { valid exp with tokenAgent := "agt-revoked", jti := "jti-revoked", agent := "agt-revoked" }

/-- A token that pins a workload selector, in another sandbox. -/
def offSelector (exp : Int64) : Attempt :=
  { valid exp with jti := "jti-workload", workloadSelector := some "sbx-prod-",
                   sandbox := "sbx-dev-1" }

/-- Presented twice. -/
def replayed (exp : Int64) : Attempt := { valid exp with jti := "jti-replay" }

/-- Outside the prefix of the scope. -/
def outOfScope (exp : Int64) : Attempt :=
  { valid exp with jti := "jti-scope", path := "/repos/evil/exfil/contents" }

/-- The body changed after the token was minted. -/
def altered (exp : Int64) : Attempt :=
  { valid exp with jti := "jti-intent", sent := bytes "\x7b\"title\":\"exfiltrate secrets\"\x7d" }

/-- Expired for a second. -/
def expired (now : Int64) : Attempt := { valid (now - 1000) with jti := "jti-exp" }

/-- Sent to a closed port. -/
def unreachable (exp : Int64) : Attempt := { valid exp with jti := "jti-down" }

/-- The middleware of the suite. -/
def enforcing (url : String) : ExtAuthzMiddleware := .new (cfg url .enforce .closed)

/-- Run the full scenario suite against a verifier. -/
def runScenarios (S : Surroundings) (key : List UInt8) (st : VerifierState) :
    List ScenarioResult × VerifierState :=
  let mw := enforcing S.verifierUrl
  let exp := S.nowMs 0 + 60000
  let w : Suite := ⟨st, 0, []⟩
  -- 1. happy path
  let w := record "allow (valid agent, in-scope, intent-bound)" body true true Reason.ok
    ((valid exp).eval S key mw w)
  -- 2. agent respawn
  let w := record "allow: agent respawned into a new sandbox" body true true Reason.ok
    ((respawned exp).eval S key mw w)
  -- 3. wrong agent
  let w := record "deny: wrong agent" body true false Reason.agentMismatch
    ((wrongAgent exp).eval S key mw w)
  -- 4. agent revoked
  let w := revokeAgent S "agt-revoked" w
  let w := record "deny: agent revoked (applies across sandboxes)" body true false
    Reason.agentRevoked ((revoked exp).eval S key mw w)
  -- 5. workload constraint
  let w := record "deny: workload constraint (off-selector sandbox)" body true false
    Reason.workloadMismatch ((offSelector exp).eval S key mw w)
  -- 6. replay
  let w := ((replayed exp).eval S key mw w).2
  let w := record "deny: token replay (jti consumed)" body true false Reason.tokenReplayed
    ((replayed exp).eval S key mw w)
  -- 7. out of scope
  let w := record "deny: out of scope (path prefix)" body true false Reason.intentMismatch
    ((outOfScope exp).eval S key mw w)
  -- 8. intent mismatch
  let w := boundLast ((altered exp).crh S)
    (record "deny: intent mismatch (body changed after mint)" (altered exp).sent true false
      Reason.intentMismatch ((altered exp).eval S key mw w))
  -- 9. expired
  let w := record "deny: token expired" body true false Reason.tokenExpired
    ((expired (S.nowMs 1)).eval S key mw w)
  -- 10. missing token
  let w := record "deny: token missing (local)" body false false Reason.tokenMissing
    (evalOne S mw agent sandbox "POST" path body none w)
  -- 11. fail-closed
  let w := record "deny: fail-closed (verifier down)" body true false Reason.verifierUnavailable
    ((unreachable exp).eval S key (enforcing S.downUrl) w)
  (w.out, w.verifier)

/-- The URL of the verifier of `run_demo`, which listens on `port`. -/
def demoUrl (port : String) : String := "http://127.0.0.1:" ++ port ++ "/v1/authorize"

/-- Of the slashes of the URL, only that of its path starts a match. -/
theorem replace_go_demoUrl {l port r : List Char} (h : '/' ∉ port) :
    replace.go ('/' :: 'v' :: l) r 0
        ("http:".toList ++ '/' :: '/' :: ("127.0.0.1:".toList ++ port ++ '/' :: 'v' :: l)) =
      "http:".toList ++ '/' :: '/' :: ("127.0.0.1:".toList ++ port ++ r) := by
  have hscheme : '/' ∉ "http:".toList := by decide
  have hhost : '/' ∉ "127.0.0.1:".toList ++ port := by
    simp [h]
  have h₁ {m : List Char} : ('/' :: 'v' :: l).isPrefixOf ('/' :: '/' :: m) = false := by
    simp [List.isPrefixOf]
  have h₂ {m : List Char} :
      ('/' :: 'v' :: l).isPrefixOf ('/' :: ("127.0.0.1:".toList ++ port ++ m)) = false := by
    simp [List.isPrefixOf]
  have hpath : replace.go ('/' :: 'v' :: l) r 0 ('/' :: 'v' :: l) = r := by
    have hm := @replace_go_match '/' ('v' :: l) r []
    simpa [replace.go] using hm
  rw [replace_go_append hscheme, replace_go_cons h₁, replace_go_cons h₂, replace_go_append hhost,
    hpath]

theorem replace_demoUrl {l : List Char} {host p port r : String} (hp : p.toList = '/' :: 'v' :: l)
    (hhost : host.toList = "http:".toList ++ '/' :: '/' :: "127.0.0.1:".toList)
    (h : '/' ∉ port.toList) : replace (host ++ port ++ p) p r = host ++ port ++ r := by
  have hgo := @replace_go_demoUrl l port.toList r.toList h
  apply String.toList_inj.1
  rw [replace, String.toList_ofList]
  simp only [String.toList_append, hhost, hp, List.append_assoc, List.cons_append] at hgo ⊢
  exact hgo

/-- Agents are revoked at the same port. -/
theorem revokeUrl_demoUrl {port : String} (h : '/' ∉ port.toList) (agentId : String) :
    revokeUrl (demoUrl port) agentId =
      "http://127.0.0.1:" ++ port ++ ("/v1/revoke/" ++ agentId) :=
  @replace_demoUrl "1/authorize".toList _ _ _ _ (by simp) (by simp) h

/-- The exit of `run_demo`: every scenario is as expected. -/
def allPassed (results : List ScenarioResult) : Bool := results.all ScenarioResult.passed

end ExtAuthz.Driver
