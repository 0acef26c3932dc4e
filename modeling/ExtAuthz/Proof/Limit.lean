/-
  Requests within the size limit of the verifier.

  The JSON text of a request to the verifier is bounded by the lengths of the
  texts that it was made of (`size_toJson_le`).  Texts of 10000 bytes are within
  the limit, in any escaping, so that a live verifier decides on such a request
  under either fail policy (`small_request_decided`).
-/
import ExtAuthz.Lib.JsonSize
import ExtAuthz.Proof.EndToEnd

namespace ExtAuthz

open Text Json ExtAuthzMiddleware

/-! ## The wire types -/

namespace RequestDescriptor

/-- The length of the texts of a descriptor. -/
def textSize (r : RequestDescriptor) : ℕ :=
  r.method.utf8ByteSize + r.scheme.utf8ByteSize + r.authority.utf8ByteSize + r.path.utf8ByteSize +
    r.query.utf8ByteSize + r.bodySha256.utf8ByteSize + r.canonicalRequestHash.utf8ByteSize

theorem sizeBound_le (r : RequestDescriptor) : r.toJson.sizeBound ≤ 6 * r.textSize + 495 := by
  have hk : namesSize (r.toFields.map Prod.fst) = 458 := by
    have hnames : r.toFields.map Prod.fst = names := rfl
    rw [hnames]
    decide
  have hn : optionBound (some (.num (r.bodyLen.toNat : ℤ))) ≤ 21 := by
    have := r.bodyLen.toNat_lt
    exact size_toString_le (k := 20) (by decide) (by rw [Int.natAbs_natCast]; omega)
  have h := sizeBound_ofFields_le r.toFields
  rw [hk] at h
  simp only [toFields, List.map_cons, List.map_nil, List.sum_cons, List.sum_nil,
    optionBound_str] at h
  simp only [toJson, textSize, toFields]
  omega

end RequestDescriptor

namespace WireContext

/-- The length of the texts of a context. -/
def textSize (c : WireContext) : ℕ :=
  c.agentId.utf8ByteSize + optionSize c.onBehalfOf + optionSize c.agentClass +
    c.sandboxId.utf8ByteSize + optionSize c.sandboxName + c.endpointRule.utf8ByteSize +
    optionSize c.policyRevision + optionSize c.requestId

theorem sizeBound_le (c : WireContext) : c.toJson.sizeBound ≤ 6 * c.textSize + 735 := by
  have hk : namesSize (c.toFields.map Prod.fst) = 696 := by
    have hnames : c.toFields.map Prod.fst = names := rfl
    rw [hnames]
    decide
  have hn := optionBound_int64 c.receivedAtUnixMs
  have h := sizeBound_ofFields_le c.toFields
  have h₁ := optionBound_map_str c.onBehalfOf
  have h₂ := optionBound_map_str c.agentClass
  have h₃ := optionBound_map_str c.sandboxName
  have h₄ := optionBound_map_str c.policyRevision
  have h₅ := optionBound_map_str c.requestId
  rw [hk] at h
  simp only [toFields, List.map_cons, List.map_nil, List.sum_cons, List.sum_nil,
    optionBound_str] at h
  simp only [toJson, textSize, toFields]
  omega

end WireContext

namespace AuthorizeRequest

/-- The length of the texts of a request to the verifier. -/
def textSize (r : AuthorizeRequest) : ℕ :=
  r.version.utf8ByteSize + r.request.textSize + r.context.textSize + entriesSize r.credentials

theorem size_toJson_le (r : AuthorizeRequest) : r.toJson.size ≤ 6 * r.textSize + 1444 := by
  have hk : namesSize (r.toFields.map Prod.fst) = 208 := by
    have hnames : r.toFields.map Prod.fst = names := rfl
    rw [hnames]
    decide
  have hr : optionBound (some r.request.toJson) ≤ _ := r.request.sizeBound_le
  have hc : optionBound (some r.context.toJson) ≤ _ := r.context.sizeBound_le
  have hm : optionBound (some (ofMap r.credentials)) = _ := sizeBound_ofMap r.credentials
  have h := (size_le_sizeBound r.toJson).trans (sizeBound_ofFields_le r.toFields)
  rw [hk] at h
  simp only [toFields, List.map_cons, List.map_nil, List.sum_cons, List.sum_nil,
    optionBound_str] at h
  rw [textSize]
  omega

end AuthorizeRequest

/-! ## Tokens -/

namespace Scope

/-- The length of the texts of a scope. -/
def textSize (s : Scope) : ℕ :=
  s.method.utf8ByteSize + s.authority.utf8ByteSize + s.pathPrefix.utf8ByteSize

theorem sizeBound_le (s : Scope) : s.toJson.sizeBound ≤ 6 * s.textSize + 176 := by
  have hk : namesSize (s.toFields.map Prod.fst) = 168 := by
    have hnames : s.toFields.map Prod.fst = names := rfl
    rw [hnames]
    decide
  have h := sizeBound_ofFields_le s.toFields
  rw [hk] at h
  simp only [toFields, List.map_cons, List.map_nil, List.sum_cons, List.sum_nil,
    optionBound_str] at h
  simp only [toJson, textSize, toFields]
  omega

end Scope

namespace Claims

/-- The length of the texts of claims. -/
def textSize (c : Claims) : ℕ :=
  c.jti.utf8ByteSize + c.agentId.utf8ByteSize + optionSize c.onBehalfOf +
    optionSize c.workloadSelector + c.scope.textSize + optionSize c.crh

theorem sizeBound_le (c : Claims) : c.toJson.sizeBound ≤ 6 * c.textSize + 591 := by
  have hk : namesSize (c.toFields.map Prod.fst) = 382 := by
    have hnames : c.toFields.map Prod.fst = names := rfl
    rw [hnames]
    decide
  have hn := optionBound_int64 c.expUnixMs
  have hs : optionBound (some c.scope.toJson) ≤ _ := c.scope.sizeBound_le
  have h := sizeBound_ofFields_le c.toFields
  have h₁ := optionBound_map_str c.onBehalfOf
  have h₂ := optionBound_map_str c.workloadSelector
  have h₃ := optionBound_map_str c.crh
  rw [hk] at h
  simp only [toFields, List.map_cons, List.map_nil, List.sum_cons, List.sum_nil,
    optionBound_str] at h
  simp only [toJson, textSize, toFields]
  omega

end Claims

/-- A token is bounded by the texts of its claims. -/
theorem size_mint_le_textSize (X : Crates) (c : Claims) (key : List UInt8) :
    (mint X c key).utf8ByteSize ≤ 12 * c.textSize + 1247 := by
  have h₁ := size_mint_le X c key
  have h₂ := c.sizeBound_le
  omega

/-! ## The middleware -/

/-- A digest is sent in 64 characters. -/
theorem size_encode_digest (d : Digest) : (Hex.encode d.toList).utf8ByteSize = 64 := by
  have hs := Hex.spells_encode d
  have hdigit : ∀ c ∈ Hex.digits, c.val ≤ 127 := by simp [Hex.digits]
  have hone : (Hex.encode d.toList).toList.map Char.utf8Size =
      (Hex.encode d.toList).toList.map fun _ => 1 :=
    List.map_congr_left fun c hc => Char.utf8Size_eq_one_iff.2 (hdigit c (hs.digits c hc))
  rw [size_eq_sum, hone]
  simp [hs.length]

/-- The length of the texts of a context. -/
def RequestContext.textSize (ctx : RequestContext) : ℕ :=
  ctx.agentId.utf8ByteSize + optionSize ctx.onBehalfOf + optionSize ctx.agentClass +
    ctx.sandboxId.utf8ByteSize + optionSize ctx.sandboxName + ctx.endpointRule.utf8ByteSize +
    optionSize ctx.policyRevision + optionSize ctx.requestId

/-- The length of the header that is forwarded under a name. -/
def forwardedSize (headers : List (String × String)) (name : String) : ℕ :=
  match findHeader headers name with
  | some v => name.utf8ByteSize + v.utf8ByteSize + 1
  | none => 0

namespace ExtAuthzMiddleware

variable (m : ExtAuthzMiddleware) (X : Crates) (k : Readings) (ctx : RequestContext)
  (req : EgressRequest) (token : String)

/-- The length of the texts that an evaluation brings to the verifier: the
    request without its body, the context, the token and the forwarded headers. -/
def textSize : ℕ :=
  req.method.utf8ByteSize + req.scheme.utf8ByteSize + req.authority.utf8ByteSize +
    req.path.utf8ByteSize + req.query.utf8ByteSize + ctx.textSize +
    m.cfg.tokenHeader.utf8ByteSize + token.utf8ByteSize +
    (m.cfg.forwardHeaders.map (forwardedSize req.headers)).sum

theorem entriesSize_credentials_le (headers : List (String × String)) :
    entriesSize (m.credentials headers token) ≤
      m.cfg.tokenHeader.utf8ByteSize + token.utf8ByteSize + 1 +
        (m.cfg.forwardHeaders.map (forwardedSize headers)).sum := by
  have hstart := entriesSize_insert_le ∅ m.cfg.tokenHeader token
  rw [entriesSize_empty, Nat.zero_add] at hstart
  rw [credentials]
  -- the induction is on the names that are left, with the credentials so far
  generalize (∅ : Std.ExtTreeMap String String).insert m.cfg.tokenHeader token = creds at hstart ⊢
  generalize m.cfg.tokenHeader.utf8ByteSize + token.utf8ByteSize + 1 = n at hstart ⊢
  induction m.cfg.forwardHeaders generalizing creds n with
  | nil => simpa using hstart
  | cons name names ih =>
    rw [List.foldl_cons, List.map_cons, List.sum_cons, ← Nat.add_assoc]
    refine ih _ _ ?_
    rw [forwardedSize]
    split_ifs
    · cases findHeader headers name with
      | none => exact hstart
      | some v =>
        have := entriesSize_insert_le creds name v
        simp only
        omega
    · omega

theorem textSize_wire_le :
    (m.wire X.sha256 k ctx req token).textSize ≤ m.textSize ctx req token + 130 := by
  have hv : wireVersion.utf8ByteSize = 1 := rfl
  have hc := m.entriesSize_credentials_le token req.headers
  simp only [AuthorizeRequest.textSize, RequestDescriptor.textSize, WireContext.textSize, wire,
    textSize, RequestContext.textSize, size_toAsciiUppercase, size_toAsciiLowercase,
    size_encode_digest, hv]
  omega

/-- Texts of 10000 bytes are within the limit. -/
theorem fitsLimit_of_textSize (h : m.textSize ctx req token ≤ 10000) :
    (m.wire X.sha256 k ctx req token).FitsLimit := by
  have h₁ := m.textSize_wire_le X k ctx req token
  have h₂ := (m.wire X.sha256 k ctx req token).size_toJson_le
  unfold AuthorizeRequest.FitsLimit maxAuthorizeBodyBytes
  omega

end ExtAuthzMiddleware

section
variable {X : Crates} {st : VerifierState} {now : Int64} {m : ExtAuthzMiddleware} {k : Readings}
  {ctx : RequestContext} {req : EgressRequest} {token : String}

/-- **A small request is decided by the verifier**: in enforce mode, under either
    fail policy, a request that passes the local checks and brings at most 10000
    bytes of text to a live verifier continues exactly on its ALLOW. -/
theorem small_request_decided (hm : m.cfg.mode = .enforce)
    (hh : headerValues req.headers m.cfg.tokenHeader = [token])
    (hb : req.body.length ≤ m.cfg.maxBodyBytes) (hs : m.textSize ctx req token ≤ 10000) :
    (m.evaluate X.sha256 k (fun body => (st.post X now body).1) ctx req).1.isAllow = true ↔
      (st.authorize X now (m.wire X.sha256 k ctx req token)).1.decision = .allow := by
  rw [evaluate_of_token hh hb, callVerifier, outcome_post (m.fitsLimit_of_textSize X k ctx req _ hs),
    resolve_verdict_isAllow hm]

end

/-- The happy path of the demo brings less than that. -/
theorem small_request_decided_happy :
    let m := ExtAuthzMiddleware.new
      (Driver.cfg "http://127.0.0.1:18443/v1/authorize" .enforce .open)
    (m.evaluate Driver.happy.crates.sha256 Driver.readings
        (fun body => ((VerifierState.new Driver.key).post Driver.happy.crates Driver.now body).1)
        (Driver.ctx Driver.agent Driver.sandbox) Driver.happy.request).1.isAllow = true ↔
      ((VerifierState.new Driver.key).authorize Driver.happy.crates Driver.now
        (m.wire Driver.happy.crates.sha256 Driver.readings (Driver.ctx Driver.agent Driver.sandbox)
          Driver.happy.request Driver.happy.token)).1.decision = .allow := by
  intro m
  refine small_request_decided rfl (Driver.happy.headerValues_request _ _ _)
    (Driver.happy.passesLocalChecks _ _ _).2 ?_
  have ht : Driver.happy.token.utf8ByteSize ≤ 2 * Driver.happy.claims.toJson.sizeBound + 65 :=
    size_mint_le _ _ _
  have hc : Driver.happy.claims.toJson.sizeBound ≤ 4000 := by decide +kernel
  have hr : m.textSize (Driver.ctx Driver.agent Driver.sandbox) Driver.happy.request "" ≤ 1000 := by
    decide +kernel
  have hsplit : m.textSize (Driver.ctx Driver.agent Driver.sandbox) Driver.happy.request
      Driver.happy.token = m.textSize (Driver.ctx Driver.agent Driver.sandbox)
        Driver.happy.request "" + Driver.happy.token.utf8ByteSize := by
    simp only [textSize, String.utf8ByteSize_empty]
    ring
  omega

end ExtAuthz
