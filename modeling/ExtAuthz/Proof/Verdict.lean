/-
  What a verdict depends on.

  The verifier looks at a request in four ways: the token, the recomputed
  `crh_v1`, the scope tests and the bindings to the context.  Method, scheme,
  authority and path enter through their canonical spelling in each of them
  (`recomputeCrh_congr`, `authorityInScope_congr`, `pathInScope_congr`), so that
  requests for the same action get the same answer (`authorize_congr`).
-/
import ExtAuthz.Proof.Wire

namespace ExtAuthz

open Text

/-! ## The checks on canonical spellings -/

/-- The descriptor as hashed parts, once the body digest is decoded. -/
def RequestDescriptor.parts (r : RequestDescriptor) (body : Digest) : CanonicalRequestParts :=
  ⟨r.method, r.scheme, r.authority, r.path, r.query, body⟩

/-- Two descriptors of one action: equal digests and query, and equal canonical
    spellings of the rest. -/
structure SameDescriptor (r s : RequestDescriptor) : Prop where
  method : eqIgnoreAsciiCase r.method s.method = true
  scheme : eqIgnoreAsciiCase r.scheme s.scheme = true
  authority : normalizeAuthority (toAsciiLowercase r.scheme) r.authority =
    normalizeAuthority (toAsciiLowercase s.scheme) s.authority
  path : pathOrRoot r.path = pathOrRoot s.path
  query : r.query = s.query
  bodySha256 : r.bodySha256 = s.bodySha256
  canonicalRequestHash : r.canonicalRequestHash = s.canonicalRequestHash

theorem SameDescriptor.canonical {r s : RequestDescriptor} (h : SameDescriptor r s)
    (body : Digest) : (r.parts body).canonical = (s.parts body).canonical := by
  have hm := lower_eq_iff_upper_eq.1 (eqIgnoreAsciiCase_iff.1 h.method)
  have hs := eqIgnoreAsciiCase_iff.1 h.scheme
  simp [CanonicalRequestParts.canonical, RequestDescriptor.parts, hm, hs, hs ▸ h.authority,
    h.path, h.query]

theorem recomputeCrh_congr (X : Crates) {r s : RequestDescriptor} (h : SameDescriptor r s) :
    recomputeCrh X r = recomputeCrh X s := by
  have hc (body : Digest) : canonicalRequestHash X.sha256 (r.parts body) =
      canonicalRequestHash X.sha256 (s.parts body) := by
    rw [canonicalRequestHash, crhPreimage_congr (h.canonical body), canonicalRequestHash]
  simp only [RequestDescriptor.parts] at hc
  simp only [recomputeCrh, h.bodySha256, h.canonicalRequestHash, hc]

theorem authorityInScope_congr {r s : RequestDescriptor} (h : SameDescriptor r s)
    (scopeAuthority : String) : authorityInScope r.scheme r.authority scopeAuthority =
      authorityInScope s.scheme s.authority scopeAuthority := by
  have hs := eqIgnoreAsciiCase_iff.1 h.scheme
  have ha := h.authority
  rw [hs] at ha
  simp only [authorityInScope, hs, ha]

/-- The path test has the empty path for `/`, as the hash does. -/
theorem pathInScope_congr {p q : String} (h : pathOrRoot p = pathOrRoot q) (pre : String) :
    pathInScope p pre = pathInScope q pre := by
  unfold pathOrRoot at h
  simp only [pathInScope, h]

/-! ## The two runs -/

/-- Two requests for one action, under what the token binds of the context. -/
structure SameAction (X : Crates) (key : List UInt8) (r s : AuthorizeRequest) : Prop where
  version : r.version = s.version
  token : r.credentials[defaultTokenHeader]? = s.credentials[defaultTokenHeader]?
  descriptor : SameDescriptor r.request s.request
  agent : r.context.agentId = s.context.agentId
  onBehalfOf : (∀ c, tokenClaims X key r = some c → c.onBehalfOf = none) ∨
    r.context.onBehalfOf = s.context.onBehalfOf
  sandbox : (∀ c, tokenClaims X key r = some c → c.workloadSelector = none) ∨
    r.context.sandboxId = s.context.sandboxId

theorem beforeRevocation_congr {X : Crates} {key : List UInt8} {r s : AuthorizeRequest}
    (h : SameAction X key r s) (now : Int64) :
    beforeRevocation X key now r = beforeRevocation X key now s := by
  simp only [beforeRevocation, h.token, h.version, recomputeCrh_congr X h.descriptor,
    h.descriptor.canonicalRequestHash, h.agent]

theorem afterRevocation_congr {X : Crates} {key : List UInt8} {r s : AuthorizeRequest}
    (h : SameAction X key r s) {c : Claims} (hc : tokenClaims X key r = some c) :
    afterRevocation c r = afterRevocation c s := by
  have hm : eqIgnoreAsciiCase c.scope.method r.request.method =
      eqIgnoreAsciiCase c.scope.method s.request.method := by
    simp only [eqIgnoreAsciiCase, eqIgnoreAsciiCase_iff.1 h.descriptor.method]
  have ho : (∃ obo ∈ c.onBehalfOf, r.context.onBehalfOf ≠ some obo) ↔
      ∃ obo ∈ c.onBehalfOf, s.context.onBehalfOf ≠ some obo := by
    rcases h.onBehalfOf with hn | he
    · simp [hn c hc]
    · rw [he]
  have hw : (∃ sel ∈ c.workloadSelector, startsWith r.context.sandboxId sel = false) ↔
      ∃ sel ∈ c.workloadSelector, startsWith s.context.sandboxId sel = false := by
    rcases h.sandbox with hn | he
    · simp [hn c hc]
    · rw [he]
  simp only [afterRevocation, ho, hw, hm, authorityInScope_congr h.descriptor,
    pathInScope_congr h.descriptor.path, h.descriptor.canonicalRequestHash]

/-- Requests for one action get one response and one next state. -/
theorem authorize_sameAction {X : Crates} {st : VerifierState} {r s : AuthorizeRequest}
    (h : SameAction X st.key r s) (now : Int64) :
    st.authorize X now r = st.authorize X now s := by
  rw [VerifierState.authorize_eq, VerifierState.authorize_eq, beforeRevocation_congr h]
  cases hb : beforeRevocation X st.key now s with
  | error d => rfl
  | ok c =>
    have hc := (beforeRevocation_eq_ok.1 ((beforeRevocation_congr h now).trans hb)).claims
    simp only [afterRevocation_congr h hc]

/-- The same request from another sandbox. -/
def AuthorizeRequest.inSandbox (r : AuthorizeRequest) (sandboxId : String) : AuthorizeRequest :=
  { r with context := { r.context with sandboxId } }

theorem SameDescriptor.refl (r : RequestDescriptor) : SameDescriptor r r :=
  ⟨by simp, by simp, rfl, rfl, rfl, rfl, rfl⟩

/-- **The verdict depends on the action alone**: requests for one action get the
    same response and next state, and a token without a workload selector gets
    them in any sandbox. -/
theorem authorize_congr (X : Crates) (st : VerifierState) (now : Int64) :
    (∀ r s, SameAction X st.key r s → st.authorize X now r = st.authorize X now s) ∧
      ∀ r sandboxId, (∀ c, tokenClaims X st.key r = some c → c.workloadSelector = none) →
        st.authorize X now (r.inSandbox sandboxId) = st.authorize X now r := by
  refine ⟨fun r s h => authorize_sameAction h now, ?_⟩
  intro r sandboxId h
  have hs : SameAction X st.key r (r.inSandbox sandboxId) :=
    ⟨rfl, rfl, .refl _, rfl, .inr rfl, .inl h⟩
  exact (authorize_sameAction hs now).symm

/-- The happy path in another spelling, and after a respawn. -/
theorem authorize_congr_respelled :
    let st := VerifierState.new Driver.key
    let r := Driver.happy.wire
    let s := { r with
      request := { r.request with
        method := "post", scheme := "HTTPS", authority := "API.github.com:443", bodyLen := 0 } }
    st.authorize Driver.happy.crates Driver.now r = st.authorize Driver.happy.crates Driver.now s ∧
      st.authorize Driver.happy.crates Driver.now (r.inSandbox "sbx-run-2") =
        st.authorize Driver.happy.crates Driver.now r := by
  intro st r s
  have hd : SameDescriptor r.request s.request := by
    simp only [s, r, Driver.happy.wire_request]
    exact ⟨by decide, by decide, by decide +kernel, rfl, rfl, rfl, rfl⟩
  have hn : ∀ c, tokenClaims Driver.happy.crates st.key r = some c → c.workloadSelector = none := by
    intro c hc
    cases Driver.happy.tokenClaims_wire.symm.trans hc
    rfl
  obtain ⟨h₁, h₂⟩ := authorize_congr Driver.happy.crates st Driver.now
  clear_value r
  exact ⟨h₁ r s ⟨rfl, rfl, hd, rfl, .inr rfl, .inr rfl⟩, h₂ r "sbx-run-2" hn⟩

end ExtAuthz
