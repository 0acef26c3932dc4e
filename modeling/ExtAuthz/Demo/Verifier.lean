/-
  The reference verifier (`ext-authz-demo/src/verifier.rs`).

  `authorize` takes two locks, one after the other: it reads `revoked_agents`
  and, later, inserts into `seen_jti`.  The handler is a program with these two
  atomic operations, so that other handlers may come in between; everything
  else it does is local (`beforeRevocation`, `afterRevocation`).
  `VerifierState.authorize` is the same handler without interruption.

  `beforeRevocation_eq_ok`, `afterRevocation_eq_ok` and `authorize_eq` say what
  the checks accept and what the handler does with them.
-/
import ExtAuthz.Core.Config
import ExtAuthz.Core.Types
import ExtAuthz.Demo.Token
import ExtAuthz.Lib.Hex
import ExtAuthz.Lib.Interleave

namespace ExtAuthz

open Text Json Interleave

/-- Upper bound on the body of a request to the verifier. -/
def maxAuthorizeBodyBytes : ℕ := 64 * 1024

/-- The state behind the routes. -/
structure VerifierState where
  key : List UInt8
  seenJti : Finset String
  /-- Revoked durable agent principals. -/
  revokedAgents : Finset String
  deriving DecidableEq

/-- A verifier that has seen nothing. -/
def VerifierState.new (key : List UInt8) : VerifierState := ⟨key, ∅, ∅⟩

/-- A denial, with the evidence of the demo. -/
def deny (code msg : String) : AuthorizeResponse where
  decision := .deny
  reasonCode := code
  message := some msg
  receiptId := none
  evidence := some (Value.object [("verifier", .str "demo")])

/-- The response of a handler that passed every check. -/
def allow (c : Claims) : AuthorizeResponse where
  decision := .allow
  reasonCode := Reason.ok
  message := none
  receiptId := some ("rcpt-" ++ c.jti)
  evidence := some (Value.object [
    ("verifier", .str "demo"),
    ("agent_id", .str c.agentId),
    ("binding", .str (if c.crh.isSome then "exact" else "coarse")),
    ("bound_crh", .ofOption c.crh),
    ("scope", .object [("method", .str c.scope.method), ("authority", .str c.scope.authority)])])

/-! ## The checks -/

/-- The result of some checks: what they found, or the code and the message of
    a denial. -/
abbrev Checked := Except (String × String)

/-- The bytes of a digest in lowercase hex. -/
def decodeLowerHex32 (s : String) : Option Digest :=
  match Hex.decodeToSlice 32 s with
  | none => none
  | some out => if Hex.encode out.toList = s then some out else none

/-- The `crh_v1` of the descriptor, if it can be canonicalized. -/
def recomputeCrh (X : Crates) (r : RequestDescriptor) : Option String :=
  match decodeLowerHex32 r.bodySha256 with
  | none => none
  | some body =>
    match decodeLowerHex32 r.canonicalRequestHash with
    | none => none
    | some _ =>
      some (Hex.encode (canonicalRequestHash X.sha256
        ⟨r.method, r.scheme, r.authority, r.path, r.query, body⟩).toList)

/-- Authorities are compared under the scheme of the request. -/
def authorityInScope (requestScheme requestAuthority scopeAuthority : String) : Bool :=
  let scheme := toAsciiLowercase requestScheme
  normalizeAuthority scheme requestAuthority == normalizeAuthority scheme scopeAuthority

/-- A path is in the scope at or below the prefix. -/
def pathInScope (requestPath scopePrefix : String) : Bool :=
  let path := if requestPath = "" then "/" else requestPath
  let pre := if scopePrefix = "" then "/" else scopePrefix
  if pre = "/" then startsWithChar path '/'
  else
    path == pre ||
      if endsWithChar pre '/' then startsWith path pre
      else match stripPrefix path pre with
        | some rest => startsWithChar rest '/'
        | none => false

/-- `authorize` up to the first lock: steps 1 to 4, and the agent of step 5. -/
def beforeRevocation (X : Crates) (key : List UInt8) (now : Int64) (req : AuthorizeRequest) :
    Checked Claims :=
  match req.credentials[defaultTokenHeader]? with
  | none => .error (Reason.tokenMalformed, "no token in credentials")
  | some token =>
    -- 1. signature
    match verify X token key with
    | .error .badSignature => .error (Reason.tokenSignatureInvalid, "HMAC mismatch")
    | .error .malformed => .error (Reason.tokenMalformed, "undecodable token")
    | .ok claims =>
      -- 2. wire version
      if req.version ≠ wireVersion then
        .error (Reason.unsupportedVersion, "unsupported wire-contract version")
      -- 3. expiry
      else if now > claims.expUnixMs then .error (Reason.tokenExpired, "token exp in the past")
      -- 4. descriptor canonicalization and crh recompute
      else match recomputeCrh X req.request with
        | none =>
          .error (Reason.descriptorMalformed, "descriptor hashes are not lowercase 32-byte hex")
        | some h =>
          if h ≠ req.request.canonicalRequestHash then
            .error (Reason.crhMismatch, "descriptor does not hash to the sent crh")
          -- 5. principal binding
          else if claims.agentId ≠ req.context.agentId then
            .error (Reason.agentMismatch, "token agent != acting agent")
          else .ok claims

/-- `authorize` between the locks: the rest of step 5, and steps 6 to 8. -/
def afterRevocation (claims : Claims) (req : AuthorizeRequest) : Checked Unit :=
  if ∃ obo ∈ claims.onBehalfOf, req.context.onBehalfOf ≠ some obo then
    .error (Reason.agentMismatch, "token on-behalf-of != acting on-behalf-of")
  -- 6. workload constraint
  else if ∃ sel ∈ claims.workloadSelector, startsWith req.context.sandboxId sel = false then
    .error (Reason.workloadMismatch, "acting sandbox outside token workload selector")
  -- 7. coarse scope
  else if !eqIgnoreAsciiCase claims.scope.method req.request.method ||
      !authorityInScope req.request.scheme req.request.authority claims.scope.authority ||
      !pathInScope req.request.path claims.scope.pathPrefix then
    .error (Reason.intentMismatch, "request outside token scope")
  -- 8. exact intent
  else if ∃ bound ∈ claims.crh, bound ≠ req.request.canonicalRequestHash then
    .error (Reason.intentMismatch, "request crh != token-bound crh")
  else .ok ()

/-! ## The handlers -/

/-- The sections under a lock.  Each has a boolean reply. -/
inductive VerifierOp where
  | revokedContains (agentId : String)
  | revokedInsert (agentId : String)
  | seenInsert (jti : String)
  deriving DecidableEq

/-- What happens under the lock: `contains` and `insert` of a `HashSet`. -/
def VerifierOp.apply : VerifierOp → VerifierState → Bool × VerifierState
  | .revokedContains a, st => (decide (a ∈ st.revokedAgents), st)
  | .revokedInsert a, st =>
    (decide (a ∉ st.revokedAgents), { st with revokedAgents := insert a st.revokedAgents })
  | .seenInsert jti, st =>
    (decide (jti ∉ st.seenJti), { st with seenJti := insert jti st.seenJti })

/-- Step 9: single-use consumption. -/
def consume (claims : Claims) : Prog VerifierOp Bool AuthorizeResponse :=
  .op (.seenInsert claims.jti) fun inserted =>
    .done (if inserted then allow claims else deny Reason.tokenReplayed "jti already consumed")

/-- `authorize` from the first lock on. -/
def checkRevoked (claims : Claims) (req : AuthorizeRequest) :
    Prog VerifierOp Bool AuthorizeResponse :=
  .op (.revokedContains claims.agentId) fun revoked =>
    if revoked then .done (deny Reason.agentRevoked "agent principal has been revoked")
    else match afterRevocation claims req with
      | .error (code, msg) => .done (deny code msg)
      | .ok () => consume claims

/-- The handler of `/v1/authorize`, with the clock reading that it takes. -/
def authorize (X : Crates) (key : List UInt8) (now : Int64) (req : AuthorizeRequest) :
    Prog VerifierOp Bool AuthorizeResponse :=
  match beforeRevocation X key now req with
  | .error (code, msg) => .done (deny code msg)
  | .ok claims => checkRevoked claims req

/-- The handler of `/v1/revoke/:agent_id`, which answers `204 No Content`. -/
def revoke (agentId : String) : Prog VerifierOp Bool Unit :=
  .op (.revokedInsert agentId) fun _ => .done ()

/-- `authorize` without interruption. -/
def VerifierState.authorize (X : Crates) (st : VerifierState) (now : Int64)
    (req : AuthorizeRequest) : AuthorizeResponse × VerifierState :=
  (ExtAuthz.authorize X st.key now req).run VerifierOp.apply st

/-- Revoke a durable agent principal (`revoke_agent`). -/
def VerifierState.revokeAgent (st : VerifierState) (agentId : String) : VerifierState :=
  ((revoke agentId).run VerifierOp.apply st).2

/-- The requests of the two `POST` routes. -/
inductive VerifierCall where
  | authorize (now : Int64) (req : AuthorizeRequest)
  | revoke (agentId : String)

/-- The responses to them. -/
inductive VerifierAnswer where
  | verdict (v : AuthorizeResponse)
  | noContent

/-- The verifier as a shared object. -/
def verifier (X : Crates) (key : List UInt8) :
    Object VerifierState VerifierCall VerifierOp Bool VerifierAnswer where
  body
    | .authorize now req => (authorize X key now req).map .verdict
    | .revoke a => (revoke a).map fun _ => .noContent
  apply := VerifierOp.apply

/-- The handlers of the verifier, around its state. -/
abbrev VerifierConfig := Config VerifierState VerifierCall VerifierOp Bool VerifierAnswer

/-- What a handler does. -/
abbrev VerifierEvent := Event VerifierCall VerifierOp Bool VerifierAnswer

/-- What a handler is still to do. -/
abbrev VerifierProg := Prog VerifierOp Bool VerifierAnswer

/-! ## What the checks accept -/

theorem decodeLowerHex32_encode (d : Digest) : decodeLowerHex32 (Hex.encode d.toList) = some d := by
  simp [decodeLowerHex32, Hex.decode_encode]

/-- The claims of the token that a request carries, if it verifies. -/
def tokenClaims (X : Crates) (key : List UInt8) (req : AuthorizeRequest) : Option Claims :=
  match req.credentials[defaultTokenHeader]? with
  | none => none
  | some token => (verify X token key).toOption

/-- The checks up to the first lock. -/
structure PrincipalBound (X : Crates) (key : List UInt8) (now : Int64) (req : AuthorizeRequest)
    (c : Claims) : Prop where
  claims : tokenClaims X key req = some c
  version : req.version = wireVersion
  unexpired : now ≤ c.expUnixMs
  crh : recomputeCrh X req.request = some req.request.canonicalRequestHash
  agent : c.agentId = req.context.agentId

/-- The checks between the locks. -/
structure IntentBound (c : Claims) (req : AuthorizeRequest) : Prop where
  onBehalfOf : ∀ obo, c.onBehalfOf = some obo → req.context.onBehalfOf = some obo
  workload : ∀ sel, c.workloadSelector = some sel → startsWith req.context.sandboxId sel = true
  method : eqIgnoreAsciiCase c.scope.method req.request.method = true
  authority :
    authorityInScope req.request.scheme req.request.authority c.scope.authority = true
  path : pathInScope req.request.path c.scope.pathPrefix = true
  crh : ∀ bound, c.crh = some bound → bound = req.request.canonicalRequestHash

theorem beforeRevocation_eq_ok {X : Crates} {key : List UInt8} {now : Int64}
    {req : AuthorizeRequest} {c : Claims} :
    beforeRevocation X key now req = .ok c ↔ PrincipalBound X key now req c := by
  constructor
  · intro h
    unfold beforeRevocation at h
    split at h <;> try cases h
    rename_i token ht
    split at h <;> try cases h
    rename_i claims hv
    split at h <;> try cases h
    rename_i hver
    split at h <;> try cases h
    rename_i hexp
    split at h <;> try cases h
    rename_i h' hr
    split at h <;> try cases h
    rename_i hcrh
    split at h <;> cases h
    rename_i hag
    rw [not_ne_iff] at hver hcrh hag
    exact ⟨by simp [tokenClaims, ht, hv, Except.toOption], hver, Int64.not_lt.1 hexp, hcrh ▸ hr,
      hag⟩
  · rintro ⟨hc, hver, hexp, hcrh, hag⟩
    unfold tokenClaims at hc
    split at hc <;> try cases hc
    rename_i token ht
    cases hv : verify X token key with
    | error e => rw [hv] at hc; cases hc
    | ok c' =>
      rw [hv] at hc
      cases hc
      simp [beforeRevocation, ht, hv, hver, Int64.not_lt.2 hexp, hcrh, hag]

theorem afterRevocation_eq_ok {c : Claims} {req : AuthorizeRequest} :
    afterRevocation c req = .ok () ↔ IntentBound c req := by
  constructor
  · intro h
    unfold afterRevocation at h
    split_ifs at h with h₁ h₂ h₃ h₄
    simp only [Bool.or_eq_true, Bool.not_eq_true', not_or, Bool.not_eq_false] at h₃
    refine ⟨?_, ?_, h₃.1.1, h₃.1.2, h₃.2, ?_⟩
    · intro obo ho
      by_contra hne
      exact h₁ ⟨obo, ho, hne⟩
    · intro sel hs
      by_contra hne
      exact h₂ ⟨sel, hs, by simpa using hne⟩
    · intro b hb
      by_contra hne
      exact h₄ ⟨b, hb, hne⟩
  · rintro ⟨h₁, h₂, hm, ha, hp, h₄⟩
    unfold afterRevocation
    rw [if_neg, if_neg, if_neg, if_neg]
    · rintro ⟨b, hb, hne⟩
      exact hne (h₄ b hb)
    · simp [hm, ha, hp]
    · rintro ⟨sel, hs, hne⟩
      rw [h₂ sel hs] at hne
      cases hne
    · rintro ⟨obo, ho, hne⟩
      exact hne (h₁ obo ho)

/-- What `authorize` does, by the results of its checks. -/
theorem VerifierState.authorize_eq (X : Crates) (st : VerifierState) (now : Int64)
    (req : AuthorizeRequest) :
    st.authorize X now req =
      match beforeRevocation X st.key now req with
      | .error (code, msg) => (deny code msg, st)
      | .ok c =>
        if c.agentId ∈ st.revokedAgents then
          (deny Reason.agentRevoked "agent principal has been revoked", st)
        else match afterRevocation c req with
          | .error (code, msg) => (deny code msg, st)
          | .ok () =>
            if c.jti ∈ st.seenJti then
              (deny Reason.tokenReplayed "jti already consumed", st)
            else (allow c, { st with seenJti := insert c.jti st.seenJti }) := by
  unfold VerifierState.authorize ExtAuthz.authorize
  cases beforeRevocation X st.key now req with
  | error d => rfl
  | ok c =>
    simp only [checkRevoked, Prog.run, VerifierOp.apply]
    by_cases hr : c.agentId ∈ st.revokedAgents
    · simp [hr, Prog.run]
    · simp only [hr, decide_false, if_false]
      cases afterRevocation c req with
      | error d => rfl
      | ok u =>
        by_cases hj : c.jti ∈ st.seenJti
        · simp [consume, Prog.run, VerifierOp.apply, hj]
        · simp [consume, Prog.run, VerifierOp.apply, hj]

/-- Every response is a denial with a code or an allowance for some claims. -/
theorem VerifierState.authorize_response (X : Crates) (st : VerifierState) (now : Int64)
    (req : AuthorizeRequest) :
    (∃ code msg, (st.authorize X now req).1 = deny code msg) ∨
      ∃ c, (st.authorize X now req).1 = allow c := by
  rw [authorize_eq]
  cases beforeRevocation X st.key now req with
  | error d => exact .inl ⟨_, _, rfl⟩
  | ok c =>
    by_cases hr : c.agentId ∈ st.revokedAgents
    · exact .inl ⟨_, _, by simp [hr]; rfl⟩
    · cases ha : afterRevocation c req with
      | error d => exact .inl ⟨d.1, d.2, by simp [hr, ha]⟩
      | ok u =>
        by_cases hj : c.jti ∈ st.seenJti
        · exact .inl ⟨_, _, by simp [hr, ha, hj]; rfl⟩
        · exact .inr ⟨c, by simp [hr, ha, hj]⟩

/-- The claims of a request are determined by its token. -/
theorem PrincipalBound.unique {X : Crates} {key : List UInt8} {now : Int64} {req : AuthorizeRequest}
    {c c' : Claims} (h : PrincipalBound X key now req c) (h' : PrincipalBound X key now req c') :
    c = c' :=
  Option.some.inj (h.claims.symm.trans h'.claims)

/-- When every check passes, `authorize` allows and consumes the nonce. -/
theorem VerifierState.authorize_of_bound {X : Crates} {st : VerifierState} {now : Int64}
    {req : AuthorizeRequest} {c : Claims} (hp : PrincipalBound X st.key now req c)
    (hr : c.agentId ∉ st.revokedAgents) (hi : IntentBound c req) (hj : c.jti ∉ st.seenJti) :
    st.authorize X now req = (allow c, { st with seenJti := insert c.jti st.seenJti }) := by
  rw [authorize_eq]
  simp [beforeRevocation_eq_ok.2 hp, hr, afterRevocation_eq_ok.2 hi, hj]

/-- `authorize` allows exactly when every check passes. -/
theorem VerifierState.authorize_allow_iff {X : Crates} {st : VerifierState} {now : Int64}
    {req : AuthorizeRequest} :
    (st.authorize X now req).1.decision = .allow ↔
      ∃ c, PrincipalBound X st.key now req c ∧ c.agentId ∉ st.revokedAgents ∧
        IntentBound c req ∧ c.jti ∉ st.seenJti := by
  constructor
  · intro h
    rw [authorize_eq] at h
    cases hb : beforeRevocation X st.key now req with
    | error d => simp [hb, deny] at h
    | ok c =>
      by_cases hr : c.agentId ∈ st.revokedAgents
      · simp [hb, hr, deny] at h
      · cases ha : afterRevocation c req with
        | error d => simp [hb, hr, ha, deny] at h
        | ok u =>
          by_cases hj : c.jti ∈ st.seenJti
          · simp [hb, hr, ha, hj, deny] at h
          · exact ⟨c, beforeRevocation_eq_ok.1 hb, hr, afterRevocation_eq_ok.1 ha, hj⟩
  · rintro ⟨c, hp, hr, hi, hj⟩
    rw [authorize_of_bound hp hr hi hj]
    rfl

/-! ## The calls as atomic steps -/

theorem verifier_run_authorize (X : Crates) (s : VerifierState) (now : Int64)
    (req : AuthorizeRequest) : (verifier X s.key).run (.authorize now req) s =
      (.verdict (s.authorize X now req).1, (s.authorize X now req).2) :=
  Prog.run_map _ _ _ _

theorem verifier_run_revoke (X : Crates) (key : List UInt8) (s : VerifierState) (a : String) :
    (verifier X key).run (.revoke a) s =
      (.noContent, { s with revokedAgents := insert a s.revokedAgents }) := rfl

/-- A denial leaves the state as it is. -/
theorem VerifierState.authorize_state_of_deny {X : Crates} {s : VerifierState} {now : Int64}
    {req : AuthorizeRequest} (h : (s.authorize X now req).1.decision = .deny) :
    (s.authorize X now req).2 = s := by
  rw [authorize_eq] at h ⊢
  cases hb : beforeRevocation X s.key now req with
  | error d => rfl
  | ok c =>
    simp only [hb] at h ⊢
    by_cases hr : c.agentId ∈ s.revokedAgents
    · simp [hr]
    · cases ha : afterRevocation c req with
      | error d => simp [hr]
      | ok u =>
        by_cases hj : c.jti ∈ s.seenJti
        · simp [hr, hj]
        · simp [hr, ha, hj, allow] at h

end ExtAuthz
