/-
  The request on the wire, as the verifier sees it.

  The middleware hashes the raw request and sends a descriptor in uppercase and
  lowercase; the verifier hashes the descriptor.  Both hash one canonical
  request, so that the verifier finds the hash that was sent
  (`recomputeCrh_wire`).  The token is in the credentials under the token
  header, whatever headers are forwarded (`credentials_getElem?`).
-/
import ExtAuthz.Demo.Driver
import ExtAuthz.Proof.Canonical

namespace ExtAuthz

open Text

namespace ExtAuthzMiddleware

/-- The token header has the token, and every forwarded name the header that the
    request has. -/
theorem credentials_getElem? (m : ExtAuthzMiddleware) (headers : List (String × String))
    (token name : String) : (m.credentials headers token)[name]? =
      if name = m.cfg.tokenHeader then some token
      else if name ∈ m.cfg.forwardHeaders then findHeader headers name
      else none := by
  have hget (creds : Std.ExtTreeMap String String) (k v : String) :
      (creds.insert k v)[name]? = if name = k then some v else creds[name]? := by
    rw [Std.ExtTreeMap.getElem?_insert]
    simp only [Std.LawfulEqCmp.compare_eq_iff_eq, @eq_comm _ name]
  unfold credentials
  induction m.cfg.forwardHeaders using List.reverseRecOn with
  | nil => simp [hget]
  | append_singleton names last ih =>
    simp only [List.foldl_append, List.foldl_cons, List.foldl_nil, List.mem_append,
      List.mem_singleton]
    by_cases hl : last = m.cfg.tokenHeader
    · rw [if_neg (not_not.2 hl), ih]
      split_ifs <;> simp_all
    · rw [if_pos hl]
      cases hf : findHeader headers last with
      | none =>
        rw [ih]
        split_ifs <;> simp_all
      | some v =>
        simp only [hget, ih]
        split_ifs <;> simp_all

section
variable {m : ExtAuthzMiddleware} (X : Crates) (k : Readings) (ctx : RequestContext)
  (req : EgressRequest) (token : String)

theorem tokenClaims_wire (hm : m.cfg.tokenHeader = defaultTokenHeader) (key : List UInt8) :
    tokenClaims X key (m.wire X.sha256 k ctx req token) = (verify X token key).toOption := by
  have h : (m.wire X.sha256 k ctx req token).credentials[defaultTokenHeader]? = some token :=
    hm ▸ (m.credentials_getElem? req.headers token _).trans (if_pos rfl)
  simp only [tokenClaims, h]

/-- The descriptor has the canonical request of the raw parts. -/
theorem canonical_wire (m : ExtAuthzMiddleware) :
    CanonicalRequestParts.canonical
      ⟨(m.wire X.sha256 k ctx req token).request.method,
        (m.wire X.sha256 k ctx req token).request.scheme,
        (m.wire X.sha256 k ctx req token).request.authority,
        (m.wire X.sha256 k ctx req token).request.path,
        (m.wire X.sha256 k ctx req token).request.query, X.sha256 req.body⟩ =
      (req.parts X.sha256).canonical := by
  simp [wire, CanonicalRequestParts.canonical, EgressRequest.parts]

/-- The hash that the verifier recomputes is the one that was sent. -/
theorem recomputeCrh_wire (m : ExtAuthzMiddleware) :
    recomputeCrh X (m.wire X.sha256 k ctx req token).request =
      some (m.wire X.sha256 k ctx req token).request.canonicalRequestHash := by
  have hb : decodeLowerHex32 (m.wire X.sha256 k ctx req token).request.bodySha256 =
      some (X.sha256 req.body) := decodeLowerHex32_encode _
  have hc : decodeLowerHex32 (m.wire X.sha256 k ctx req token).request.canonicalRequestHash =
      some (canonicalRequestHash X.sha256 (req.parts X.sha256)) := decodeLowerHex32_encode _
  rw [recomputeCrh, hb, hc]
  simp only [canonicalRequestHash, crhPreimage_congr (canonical_wire X k ctx req token m)]
  rfl

end

end ExtAuthzMiddleware

/-! ## The scenarios on the wire -/

namespace Driver

open ExtAuthzMiddleware

theorem middleware_tokenHeader : middleware.cfg.tokenHeader = defaultTokenHeader :=
  cfg_tokenHeader _ _ _

namespace Scenario

variable (s : Scenario)

theorem tokenClaims_wire : tokenClaims s.crates key s.wire = some s.claims := by
  rw [wire, ExtAuthzMiddleware.tokenClaims_wire _ _ _ _ _ middleware_tokenHeader, verify_token]
  rfl

theorem wire_request : s.wire.request =
    { method := "POST"
      scheme := "https"
      authority := authority
      path := s.path
      query := s.query
      bodySha256 := Hex.encode bodySha256.toList
      bodyLen := 22
      canonicalRequestHash := Hex.encode s.crh.toList } := by
  have hm : toAsciiUppercase "POST" = "POST" := by decide
  have hs : toAsciiLowercase "https" = "https" := by decide
  simp only [wire, ExtAuthzMiddleware.wire, request, egress, EgressRequest.parts,
    s.canonicalRequestHash_eq, s.sha256_body, length_body, hm, hs]
  rfl

/-- A token of the agent passes the checks up to the first lock. -/
theorem principalBound (ha : s.claims.agentId = agent) (he : now ≤ s.claims.expUnixMs) :
    PrincipalBound s.crates key now s.wire s.claims where
  claims := s.tokenClaims_wire
  version := rfl
  unexpired := he
  crh := recomputeCrh_wire _ _ _ _ _ _
  agent := ha

end Scenario

theorem happy_principalBound : PrincipalBound happy.crates key now happy.wire happy.claims :=
  happy.principalBound rfl (by decide)

theorem happy_intentBound : IntentBound happy.claims happy.wire where
  onBehalfOf := by simp [happy, claimsFor]
  workload := by simp [happy, claimsFor]
  method := by rw [happy.wire_request]; decide
  authority := by rw [happy.wire_request]; decide
  path := by rw [happy.wire_request]; decide
  crh bound hb := by
    rw [happy_crh] at hb
    cases hb
    rw [happy.wire_request]

/-- No header of a scenario is forwarded besides the token. -/
theorem Scenario.wire_credentials (s : Scenario) : s.wire.credentials =
    (∅ : Std.ExtTreeMap String String).insert defaultTokenHeader s.token := by
  have h₁ : eqIgnoreAsciiCase "content-type" "x-request-id" = false := by decide
  have h₂ : eqIgnoreAsciiCase "X-Hawcx-HAAP-Token" "x-request-id" = false := by decide
  have hf : findHeader s.request.headers "x-request-id" = none := by
    simp [Scenario.request, egress, hdr, findHeader, h₁, h₂]
  have hl : middleware.cfg.forwardHeaders = ["x-request-id"] := by decide
  have hc : s.wire.credentials = middleware.credentials s.request.headers s.token := rfl
  simp [hc, credentials, hl, hf, middleware_tokenHeader]

theorem Scenario.sizeBound_wire (s : Scenario) : s.wire.toJson.sizeBound =
    s.wire.request.toJson.sizeBound + s.wire.context.toJson.sizeBound +
      6 * s.token.utf8ByteSize + 334 := by
  have hl (t : String) : ((∅ : Std.ExtTreeMap String String).insert defaultTokenHeader t).toList =
      [(defaultTokenHeader, t)] := rfl
  have hv : s.wire.version.utf8ByteSize = 1 := rfl
  have h₀ : defaultTokenHeader.utf8ByteSize = 18 := by decide
  have h₁ : ("version").utf8ByteSize = 7 := by decide
  have h₂ : ("request").utf8ByteSize = 7 := by decide
  have h₃ : ("context").utf8ByteSize = 7 := by decide
  have h₄ : ("credentials").utf8ByteSize = 11 := by decide
  simp only [AuthorizeRequest.toJson, AuthorizeRequest.toFields, Json.ofFields, Json.present,
    s.wire_credentials, Json.ofMap, hl, List.map_cons, List.map_nil, Json.sizeBound,
    Json.sizeBoundFields, hv, h₀, h₁, h₂, h₃, h₄]
  ring

theorem happy_fitsLimit : happy.wire.FitsLimit := by
  have hr : happy.wire.request.toJson.sizeBound ≤ 4000 := by
    rw [happy.wire_request]
    decide +kernel
  have hc : happy.wire.context.toJson.sizeBound ≤ 4000 := by decide +kernel
  have hb : happy.claims.toJson.sizeBound ≤ 4000 := by decide +kernel
  have ht : happy.token.utf8ByteSize ≤ 2 * happy.claims.toJson.sizeBound + 65 :=
    size_mint_le _ _ _
  have hs := (Json.size_le_sizeBound happy.wire.toJson).trans_eq happy.sizeBound_wire
  generalize happy.wire.request.toJson.sizeBound = r at hr hs
  generalize happy.wire.context.toJson.sizeBound = c at hc hs
  generalize happy.claims.toJson.sizeBound = b at hb ht
  generalize happy.token.utf8ByteSize = t at ht hs
  unfold AuthorizeRequest.FitsLimit
  generalize happy.wire.toJson.size = n at hs ⊢
  unfold maxAuthorizeBodyBytes
  omega

end Driver

end ExtAuthz
