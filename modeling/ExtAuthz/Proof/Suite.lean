/-
  When the scenario suite passes.

  Each block of `run_scenarios` passes exactly when the first reason against its
  request is the expected one (`After.block`), and changes the verifier by the
  nonce that it consumes (`Attempt.outcome_eval`).  So the suite passes on a
  verifier exactly if this has not revoked the agent of the suite and has not
  seen its first two nonces, and the other agent is revoked by then.  It never
  passes again on the same verifier (`suite_passes_iff`).
-/
import ExtAuthz.Demo.Scenarios
import ExtAuthz.Proof.History
import ExtAuthz.Proof.Limit
import ExtAuthz.Proof.Reason

namespace ExtAuthz.Driver

open Text Json ExtAuthzMiddleware

/-- The surroundings that the suite is made for: the JSON reader reads what the
    writer wrote, the two bodies are told apart by their hashes, the first URL
    leads to the verifier and the second one to a closed port, the agent of the
    suite is not the one that it revokes, and the suite takes less than a minute. -/
structure Surroundings.Regular (S : Surroundings) : Prop where
  json : ∀ c : Claims, S.crates.fromSlice (bytes (claimsBytes c)) = some c.toJson
  bodies : crhHex S.crates "POST" "https" authority path "" body ≠
    crhHex S.crates "POST" "https" authority path "" (altered 0).sent
  verifier : S.route S.verifierUrl = some .authorize
  closed : S.route S.downUrl = none
  down : ∃ e, S.down = .error e ∧ e.isTimeout = false
  revocation : S.revokeRoute (revokeUrl S.verifierUrl "agt-revoked") ≠ some (.revoke agent)
  clock : ∀ n, S.verifierNow n ≤ S.nowMs 0 + 60000
  expired : S.nowMs 1 - 1000 < S.verifierNow 9

namespace Attempt

variable (S : Surroundings) (key : List UInt8) (a : Attempt)

/-- What the token says. -/
def claims : Claims where
  jti := a.jti
  agentId := a.tokenAgent
  onBehalfOf := none
  workloadSelector := a.workloadSelector
  scope := goodScope
  crh := some (a.crh S)
  expUnixMs := a.expUnixMs

/-- The request that the token is presented with. -/
def request : EgressRequest where
  method := "POST"
  scheme := "https"
  authority := authority
  path := a.path
  query := ""
  headers := hdr (some (a.token S key))
  body := a.sent

/-- The first reason against what an attempt is for. -/
def intentReason (st : VerifierState) : String :=
  if ∃ sel ∈ a.workloadSelector, startsWith a.sandbox sel = false then Reason.workloadMismatch
  else if !pathInScope a.path "/repos/acme/" then Reason.intentMismatch
  else if a.crh S ≠ crhHex S.crates "POST" "https" authority a.path "" a.sent then
    Reason.intentMismatch
  else if a.jti ∈ st.seenJti then Reason.tokenReplayed
  else Reason.ok

/-- The first reason against an attempt, at the verifier state `st` and the time
    `now`. -/
def reason (st : VerifierState) (now : Int64) : String :=
  if now > a.expUnixMs then Reason.tokenExpired
  else if a.tokenAgent ≠ a.agent then Reason.agentMismatch
  else if a.tokenAgent ∈ st.revokedAgents then Reason.agentRevoked
  else a.intentReason S st

/-- The verifier after an attempt. -/
def next (st : VerifierState) (now : Int64) : VerifierState :=
  if a.reason S st now = Reason.ok then { st with seenJti := insert a.jti st.seenJti } else st

/-- The texts of an attempt are short. -/
def isShort : Bool :=
  decide (a.tokenAgent.utf8ByteSize ≤ 20) && decide (a.jti.utf8ByteSize ≤ 20) &&
    decide (optionSize a.workloadSelector ≤ 20) && decide (a.agent.utf8ByteSize ≤ 20) &&
    decide (a.sandbox.utf8ByteSize ≤ 20) && decide (a.path.utf8ByteSize ≤ 40) &&
    decide (a.sent.length ≤ 1048576)

theorem claimsReason_eq (st : VerifierState) (now : Int64) :
    claimsReason S.crates st now (ctx a.agent a.sandbox) (a.request S key) (a.claims S) =
      a.reason S st now := by
  have hm : eqIgnoreAsciiCase "POST" "POST" = true := by decide
  have hobo : ¬ ∃ obo ∈ (a.claims S).onBehalfOf, (ctx a.agent a.sandbox).onBehalfOf ≠ some obo := by
    simp [claims]
  have hscope : (!(a.claims S).scope.admits (a.request S key)) =
      !pathInScope a.path "/repos/acme/" := by
    simp [Scope.admits, claims, goodScope, request, hm]
  have hcrh : (∃ bound ∈ (a.claims S).crh, bound ≠ (a.request S key).crhHex S.crates) ↔
      a.crh S ≠ crhHex S.crates "POST" "https" authority a.path "" a.sent := by
    simp [claims, EgressRequest.crhHex, request, EgressRequest.parts, crhHex]
  rw [claimsReason, reason, intentReason, if_neg hobo, hscope]
  exact if_congr .rfl rfl (if_congr .rfl rfl (if_congr .rfl rfl (if_congr .rfl rfl
    (if_congr .rfl rfl (if_congr hcrh rfl rfl)))))

variable {S key a}

theorem enforcing_tokenHeader (url : String) :
    (enforcing url).cfg.tokenHeader = defaultTokenHeader :=
  cfg_tokenHeader url .enforce .closed

/-- The suite forwards no header but the token. -/
theorem forwardedSize_hdr (token : Option String) :
    forwardedSize (hdr token) "x-request-id" = 0 := by
  have h₁ : eqIgnoreAsciiCase "content-type" "x-request-id" = false := by decide
  have h₂ : eqIgnoreAsciiCase "X-Hawcx-HAAP-Token" "x-request-id" = false := by decide
  cases token <;> simp [forwardedSize, findHeader, hdr, h₁, h₂]

theorem textSize_ctx (agent sandbox : String) :
    (ctx agent sandbox).textSize = agent.utf8ByteSize + sandbox.utf8ByteSize + 45 := by
  have h₀ : optionSize none = 0 := rfl
  have h₁ : optionSize (some "demo-agent") = 10 := by decide
  have h₂ : optionSize (some "demo-sandbox") = 12 := by decide
  have h₃ : ("github-api").utf8ByteSize = 10 := by decide
  have h₄ : optionSize (some "rev-7") = 5 := by decide
  have h₅ : optionSize (some "req-demo") = 8 := by decide
  simp only [RequestContext.textSize, ctx, h₀, h₁, h₂, h₃, h₄, h₅]
  omega

theorem textSize_claims : (a.claims S).textSize =
    a.jti.utf8ByteSize + a.tokenAgent.utf8ByteSize + optionSize a.workloadSelector + 94 := by
  have h₀ : optionSize none = 0 := rfl
  have h₁ : goodScope.textSize = 30 := by decide
  have h₂ : optionSize (some (a.crh S)) = 64 := size_encode_digest _
  simp only [Claims.textSize, claims, h₀, h₁, h₂]
  omega

/-- The requests of the suite are within the limit of the verifier. -/
theorem fitsLimit_of_isShort (ha : a.isShort = true) (url : String) (k : Readings) :
    ((enforcing url).wire S.crates.sha256 k (ctx a.agent a.sandbox) (a.request S key)
      (a.token S key)).FitsLimit := by
  simp only [isShort, Bool.and_eq_true, decide_eq_true_eq] at ha
  obtain ⟨⟨⟨⟨⟨⟨h₁, h₂⟩, h₃⟩, h₄⟩, h₅⟩, h₆⟩, -⟩ := ha
  have ht : (a.token S key).utf8ByteSize ≤ 12 * (a.claims S).textSize + 1247 :=
    size_mint_le_textSize S.crates (a.claims S) key
  have hforward : (enforcing url).cfg.forwardHeaders = ["x-request-id"] := by
    have hl : toAsciiLowercase "x-request-id" = "x-request-id" := by decide
    exact congrArg (fun name => [name]) hl
  have hmethod : ("POST").utf8ByteSize = 4 := by decide
  have hscheme : ("https").utf8ByteSize = 5 := by decide
  have hauthority : authority.utf8ByteSize = 14 := by decide
  have hheader : defaultTokenHeader.utf8ByteSize = 18 := by decide
  refine (enforcing url).fitsLimit_of_textSize _ _ _ _ _ ?_
  rw [textSize_claims] at ht
  simp only [textSize, enforcing_tokenHeader, hforward, request, textSize_ctx, List.map_cons,
    List.map_nil, List.sum_cons, List.sum_nil, forwardedSize_hdr, String.utf8ByteSize_empty,
    hmethod, hscheme, hauthority, hheader]
  omega

theorem headerValues_request (url : String) : headerValues (a.request S key).headers
    (enforcing url).cfg.tokenHeader = [a.token S key] := by
  rw [enforcing_tokenHeader]
  exact headerValues_hdr (some (a.token S key))

/-- What is prepared for a request with one token. -/
theorem prepare_of_token {m : ExtAuthzMiddleware} {req : EgressRequest} {token : String}
    (ht : headerValues req.headers m.cfg.tokenHeader = [token])
    (hb : req.body.length ≤ m.cfg.maxBodyBytes) (sha256 : List UInt8 → Digest) (k : Readings)
    (ctx : RequestContext) : ∃ audit, m.prepare sha256 k ctx req =
      .ok (audit, m.wire sha256 k ctx req token) := by
  simp [prepare, findTokenHeader_eq_one.2 ht, not_lt.2 hb]

/-- An attempt is sent to the URL of the middleware. -/
theorem eval_sent (ha : a.isShort = true) (url : String) (w : Suite) :
    let mw := enforcing url
    let k := S.readings w.evaluations
    let req := a.request S key
    let wire := mw.wire S.crates.sha256 k (ctx a.agent a.sandbox) req (a.token S key)
    let post := S.post w.verifier (S.verifierNow w.evaluations) url
    a.eval S key mw w =
      (mw.resolve (mw.sentAudit k (ctx a.agent a.sandbox) req wire) (post wire.toJson).1.outcome,
        { w with verifier := (post wire.toJson).2, evaluations := w.evaluations + 1 }) := by
  intro mw k req wire post
  have hh : headerValues req.headers mw.cfg.tokenHeader = [a.token S key] :=
    headerValues_request url
  have hb : a.sent.length ≤ mw.cfg.maxBodyBytes := by
    simp only [isShort, Bool.and_eq_true, decide_eq_true_eq] at ha
    exact ha.2
  obtain ⟨audit, hprepare⟩ := prepare_of_token hh hb S.crates.sha256 k (ctx a.agent a.sandbox)
  have hreq : (⟨"POST", "https", authority, a.path, "", hdr (some (a.token S key)), a.sent⟩ :
    EgressRequest) = req := rfl
  have hurl : mw.cfg.verifierUrl = url := rfl
  simp only [eval, evalOne, hreq, hurl]
  rw [hprepare, evaluate_of_token hh hb]
  rfl

/-- The verifier answers an attempt with the verdict of `authorize`. -/
theorem eval_eq (hS : S.Regular) (ha : a.isShort = true) (w : Suite) :
    let mw := enforcing S.verifierUrl
    let k := S.readings w.evaluations
    let wire := mw.wire S.crates.sha256 k (ctx a.agent a.sandbox) (a.request S key) (a.token S key)
    let answer := w.verifier.authorize S.crates (S.verifierNow w.evaluations) wire
    a.eval S key mw w =
      (mw.resolve (mw.sentAudit k (ctx a.agent a.sandbox) (a.request S key) wire)
          (.verdict answer.1),
        { w with verifier := answer.2, evaluations := w.evaluations + 1 }) := by
  intro mw k wire answer
  have hfit : wire.FitsLimit := fitsLimit_of_isShort ha S.verifierUrl k
  have hpost : S.post w.verifier (S.verifierNow w.evaluations) S.verifierUrl =
      w.verifier.post S.crates (S.verifierNow w.evaluations) := by
    funext body
    rw [Surroundings.post, hS.verifier]
    rfl
  rw [eval_sent ha, hpost, outcome_post hfit, VerifierState.post, extractRequest_toJson hfit]

/-- What an attempt comes to: the audit event has the first reason, an ALLOW is no
    reason, and the nonce is consumed then. -/
structure Outcome (S : Surroundings) (a : Attempt) (w : Suite)
    (r : (Decision × AuditEvent) × Suite) : Prop where
  consistent : Consistent r.1
  reasonCode : r.1.2.reasonCode = a.reason S w.verifier (S.verifierNow w.evaluations)
  isAllow : r.1.1.isAllow = true ↔
    a.reason S w.verifier (S.verifierNow w.evaluations) = Reason.ok
  suite : r.2 = { w with
    verifier := a.next S w.verifier (S.verifierNow w.evaluations)
    evaluations := w.evaluations + 1 }

theorem outcome_eval (hS : S.Regular) (ha : a.isShort = true) {w : Suite}
    (hk : w.verifier.key = key) :
    Outcome S a w (a.eval S key (enforcing S.verifierUrl) w) := by
  have htoken : a.token S key = mint S.crates (a.claims S) key := rfl
  have hv : verify S.crates (a.token S key) w.verifier.key = .ok (a.claims S) := by
    rw [hk, htoken]
    exact verify_mint key (hS.json _)
  have hreason : tokenReason S.crates w.verifier (S.verifierNow w.evaluations)
      (ctx a.agent a.sandbox) (a.request S key) (a.token S key) =
      a.reason S w.verifier (S.verifierNow w.evaluations) := by
    simp only [tokenReason, hv, claimsReason_eq]
  have ht := enforcing_tokenHeader S.verifierUrl
  have hcoded := @coded_authorize_wire S.crates w.verifier (S.verifierNow w.evaluations)
    (enforcing S.verifierUrl) (S.readings w.evaluations) (ctx a.agent a.sandbox)
    (a.request S key) (a.token S key) ht
  have hstate := @authorize_wire_state S.crates w.verifier (S.verifierNow w.evaluations)
    (enforcing S.verifierUrl) (S.readings w.evaluations) (ctx a.agent a.sandbox)
    (a.request S key) (a.token S key) _ ht hv
  rw [hreason] at hcoded hstate
  rw [eval_eq hS ha]
  refine ⟨?_, ?_, ?_, ?_⟩
  · have hp := pending_sentAudit (enforcing S.verifierUrl) (S.readings w.evaluations)
      (ctx a.agent a.sandbox) (a.request S key)
    dsimp only
    exact (hp _).resolve _
  · rw [(resolve_verdict_frame _).1, hcoded.reasonCode]
  · rw [resolve_verdict_isAllow rfl, hcoded.decision]
  · simp only [hstate]
    rfl

end Attempt

/-! ## Records -/

theorem decisionDetail_isAllow (d : Decision) (a : AuditEvent) :
    (decisionDetail d a).1 = d.isAllow := by
  cases d <;> rfl

theorem decisionDetail_reason {r : Decision × AuditEvent} (h : Consistent r) :
    (decisionDetail r.1 r.2).2.1 = r.2.reasonCode := by
  cases hd : r.1 with
  | «continue» s => rfl
  | deny v => exact (h.verdict v hd).1

section
variable {name expectReason : String} {b : List UInt8} {tokenPresent expectAllow : Bool}
  {r : (Decision × AuditEvent) × Suite}

theorem allPassed_record (h : Consistent r.1) :
    allPassed (record name b tokenPresent expectAllow expectReason r).out = true ↔
      allPassed r.2.out = true ∧ r.1.1.isAllow = expectAllow ∧
        r.1.2.reasonCode = expectReason := by
  rw [← decisionDetail_isAllow r.1.1 r.1.2, ← decisionDetail_reason h]
  simp [record, allPassed, ScenarioResult.passed]

@[simp] theorem record_verifier :
    (record name b tokenPresent expectAllow expectReason r).verifier = r.2.verifier := rfl

@[simp] theorem record_evaluations :
    (record name b tokenPresent expectAllow expectReason r).evaluations = r.2.evaluations := rfl

end

/-! ## Progress -/

/-- The suite after `n` evaluations, on a verifier that was `st`: nothing was done
    to an agent, no nonce was forgotten, and everything passed so far exactly if
    `P`. -/
structure After (key : List UInt8) (st : VerifierState) (n : ℕ) (P : Prop) (w : Suite) :
    Prop where
  key : w.verifier.key = key
  revoked : w.verifier.revokedAgents = st.revokedAgents
  mono : st.seenJti ⊆ w.verifier.seenJti
  evaluations : w.evaluations = n
  out : allPassed w.out = true ↔ P

section
variable {S : Surroundings} {key : List UInt8} {st : VerifierState} {n : ℕ}
  {P Q : Prop} {w : Suite} {a : Attempt} {name expectReason : String} {b : List UInt8}
  {expectAllow : Bool}

theorem after_start (hk : st.key = key) : After key st 0 True ⟨st, 0, []⟩ :=
  ⟨hk, rfl, subset_rfl, rfl, iff_of_true rfl trivial⟩

/-- What is done from here on. -/
theorem After.here (h : After key st n P w) : After key w.verifier n P w :=
  ⟨h.key, rfl, subset_rfl, h.evaluations, h.out⟩

/-- An evaluation without a record. -/
theorem After.eval (h : After key st n P w) (hS : S.Regular) (ha : a.isShort = true) :
    After key st (n + 1) P (a.eval S key (enforcing S.verifierUrl) w).2 := by
  obtain ⟨-, -, -, hsuite⟩ := Attempt.outcome_eval hS ha h.key
  rw [hsuite]
  refine ⟨?_, ?_, ?_, congrArg (· + 1) h.evaluations, h.out⟩
  · simp only [Attempt.next]
    split_ifs <;> exact h.key
  · simp only [Attempt.next]
    split_ifs <;> exact h.revoked
  · simp only [Attempt.next]
    split_ifs
    · exact h.mono.trans (Finset.subset_insert _ _)
    · exact h.mono

/-- A block with a token. -/
theorem After.block (h : After key st n P w) (hS : S.Regular) (ha : a.isShort = true)
    (he : expectAllow = true ↔ expectReason = Reason.ok) : After key st (n + 1)
      (P ∧ a.reason S w.verifier (S.verifierNow n) = expectReason)
      (record name b true expectAllow expectReason
        (a.eval S key (enforcing S.verifierUrl) w)) := by
  have hafter := h.eval hS ha
  obtain ⟨hcons, hcode, hallow, -⟩ := Attempt.outcome_eval hS ha h.key
  generalize a.eval S key (enforcing S.verifierUrl) w = r at hafter hcons hcode hallow ⊢
  obtain ⟨hkey, hrevoked, hmono, hev, hout⟩ := hafter
  rw [h.evaluations] at hcode hallow
  refine ⟨by rwa [record_verifier], by rwa [record_verifier], by rwa [record_verifier],
    by rwa [record_evaluations], ?_⟩
  rw [allPassed_record hcons, hout, hcode]
  refine and_congr_right fun _ => and_iff_right_of_imp fun hr => ?_
  rw [Bool.eq_iff_iff, hallow, hr, he]

theorem After.congr (h : After key st n P w) (hPQ : P ↔ Q) : After key st n Q w :=
  ⟨h.key, h.revoked, h.mono, h.evaluations, h.out.trans hPQ⟩

/-- A block that is denied by the verifier, if everything before it passed. -/
theorem After.deny (h : After key st n P w) (hS : S.Regular) (ha : a.isShort = true)
    (hne : expectReason ≠ Reason.ok)
    (hP : P → a.reason S w.verifier (S.verifierNow n) = expectReason) :
    After key st (n + 1) P (record name b true false expectReason
      (a.eval S key (enforcing S.verifierUrl) w)) :=
  (h.block hS ha (iff_of_false Bool.false_ne_true hne)).congr (and_iff_left_of_imp hP)

/-- A block that is denied without the verifier. -/
theorem After.denied (h : After key st n P w) {tokenPresent : Bool}
    {r : (Decision × AuditEvent) × Suite} (hr : Consistent r.1) (hd : r.1.1.isAllow = false)
    (hcode : r.1.2.reasonCode = expectReason)
    (hw : r.2 = { w with evaluations := w.evaluations + 1 }) :
    After key st (n + 1) P (record name b tokenPresent false expectReason r) := by
  obtain ⟨hkey, hrevoked, hmono, hev, hout⟩ := h
  refine ⟨?_, ?_, ?_, ?_, ?_⟩
  · rwa [record_verifier, hw]
  · rwa [record_verifier, hw]
  · rwa [record_verifier, hw]
  · rw [record_evaluations, hw, hev]
  · rw [allPassed_record hr, hw, hout, hcode, hd]
    simp

/-- A revocation changes nothing but the revoked agents. -/
theorem revokeAgent_frame (S : Surroundings) (a : String) (w : Suite) :
    (revokeAgent S a w).verifier.key = w.verifier.key ∧
      (revokeAgent S a w).verifier.seenJti = w.verifier.seenJti ∧
      (revokeAgent S a w).evaluations = w.evaluations ∧ (revokeAgent S a w).out = w.out := by
  rw [revokeAgent]
  split <;> exact ⟨rfl, rfl, rfl, rfl⟩

/-- What is done from a revocation on. -/
theorem After.revoke (h : After key st n P w) (S : Surroundings) (a : String) :
    After key (revokeAgent S a w).verifier n P (revokeAgent S a w) := by
  obtain ⟨hkey, -, hev, hout⟩ := revokeAgent_frame S a w
  exact ⟨hkey.trans h.key, rfl, subset_rfl, hev.trans h.evaluations, by rw [hout, h.out]⟩

theorem After.boundLast (h : After key st n P w) (crh : String) :
    After key st n P (boundLast crh w) := by
  refine ⟨h.key, h.revoked, h.mono, h.evaluations, ?_⟩
  rw [← h.out, Driver.boundLast]
  rcases List.eq_nil_or_concat w.out with hnil | ⟨l, last, hl⟩
  · simp [hnil]
  · simp [hl, allPassed, ScenarioResult.passed]

/-- Without a token the verifier is not asked. -/
theorem After.missing (h : After key st n P w) : After key st (n + 1) P
    (record name b false false Reason.tokenMissing
      (evalOne S (enforcing S.verifierUrl) agent sandbox "POST" path body none w)) := by
  have hnone : findTokenHeader (hdr none) (enforcing S.verifierUrl).cfg.tokenHeader = .none := by
    rw [findTokenHeader_eq, Attempt.enforcing_tokenHeader, headerValues_hdr]
    rfl
  obtain ⟨msg, hd⟩ : ∃ msg, localDenial (enforcing S.verifierUrl).cfg
      ⟨"POST", "https", authority, path, "", hdr none, body⟩ = some (Reason.tokenMissing, msg) := by
    simp [localDenial, hnone]
  obtain ⟨denial, hp⟩ : ∃ denial, (enforcing S.verifierUrl).prepare S.crates.sha256
      (S.readings w.evaluations) (ctx agent sandbox)
      ⟨"POST", "https", authority, path, "", hdr none, body⟩ = .error denial := by
    simp [prepare, hnone]
  simp only [evalOne, hp, evaluate_of_localDenial hd]
  refine h.denied ?_ rfl rfl rfl
  dsimp only
  exact (pending_initialAudit _ _ _ _).resolveLocalDeny _ _

/-- A closed port is no verifier. -/
theorem After.unreachable (h : After key st n P w) (hS : S.Regular) (ha : a.isShort = true) :
    After key st (n + 1) P (record name b true false Reason.verifierUnavailable
      (a.eval S key (enforcing S.downUrl) w)) := by
  obtain ⟨e, he, ht⟩ := hS.down
  have hpost : S.post w.verifier (S.verifierNow w.evaluations) S.downUrl =
      fun _ => (.error e, w.verifier) := by
    funext body
    rw [Surroundings.post, hS.closed, he]
  have ho : (Reply.error e).outcome = .unavailable (redactErr e) := by simp [Reply.outcome, ht]
  rw [Attempt.eval_sent ha, hpost]
  simp only [ho]
  refine h.denied ?_ rfl rfl rfl
  dsimp only
  exact (pending_sentAudit _ _ _ _ _).resolve _

end

/-! ## The reasons against the scenarios -/

section
variable {S : Surroundings} {st : VerifierState} {now exp : Int64} {a : Attempt} {code : String}

theorem Attempt.reason_of_expired (h : a.expUnixMs < now) :
    a.reason S st now = Reason.tokenExpired := by
  rw [reason, if_pos h]

theorem Attempt.reason_of_ne (h : now ≤ a.expUnixMs) (ha : a.tokenAgent ≠ a.agent) :
    a.reason S st now = Reason.agentMismatch := by
  rw [reason, if_neg (Int64.not_lt.2 h), if_pos ha]

theorem Attempt.intentReason_ne_agentRevoked : a.intentReason S st ≠ Reason.agentRevoked := by
  rw [intentReason]
  split_ifs <;> decide

theorem Attempt.reason_revoked_iff (h : now ≤ a.expUnixMs) (ha : a.tokenAgent = a.agent) :
    a.reason S st now = Reason.agentRevoked ↔ a.tokenAgent ∈ st.revokedAgents := by
  rw [reason, if_neg (Int64.not_lt.2 h), if_neg (not_not.2 ha)]
  split_ifs with hr
  · exact iff_of_true rfl hr
  · exact iff_of_false intentReason_ne_agentRevoked hr

/-- A revoked agent has no other reason against it. -/
theorem Attempt.reason_eq_iff (h : now ≤ a.expUnixMs) (ha : a.tokenAgent = a.agent)
    (hc : code ≠ Reason.agentRevoked) : a.reason S st now = code ↔
      a.agent ∉ st.revokedAgents ∧ a.intentReason S st = code := by
  rw [reason, if_neg (Int64.not_lt.2 h), if_neg (not_not.2 ha), ha]
  split_ifs with hr
  · exact iff_of_false (Ne.symm hc) fun h => h.1 hr
  · exact (and_iff_right hr).symm

theorem pathInScope_path : pathInScope path "/repos/acme/" = true := by decide

/-- Nothing is wrong with the intent of an attempt but its nonce, maybe. -/
structure Attempt.Intended (S : Surroundings) (a : Attempt) : Prop where
  workload : ∀ sel, a.workloadSelector = some sel → startsWith a.sandbox sel = true
  path : pathInScope a.path "/repos/acme/" = true
  sent : a.sent = body

theorem Attempt.intended_of_eq (hw : a.workloadSelector = none) (hp : a.path = Driver.path)
    (hs : a.sent = body) : a.Intended S where
  workload := by simp [hw]
  path := by
    rw [hp]
    exact pathInScope_path
  sent := hs

theorem Attempt.Intended.intentReason (h : a.Intended S) :
    a.intentReason S st = if a.jti ∈ st.seenJti then Reason.tokenReplayed else Reason.ok := by
  have hw : ¬ ∃ sel ∈ a.workloadSelector, startsWith a.sandbox sel = false := by
    rintro ⟨sel, hs, hf⟩
    rw [h.workload sel hs] at hf
    cases hf
  rw [Attempt.intentReason, if_neg hw, h.path, h.sent]
  simp [Attempt.crh]

theorem Attempt.Intended.reason_ok_iff (h : a.Intended S) (hn : now ≤ a.expUnixMs)
    (ha : a.tokenAgent = a.agent) : a.reason S st now = Reason.ok ↔
      a.agent ∉ st.revokedAgents ∧ a.jti ∉ st.seenJti := by
  rw [reason_eq_iff hn ha (by decide), h.intentReason]
  split_ifs with hj <;> simp [hj, Reason.tokenReplayed, Reason.ok]

theorem Attempt.Intended.reason_replayed_iff (h : a.Intended S) (hn : now ≤ a.expUnixMs)
    (ha : a.tokenAgent = a.agent) : a.reason S st now = Reason.tokenReplayed ↔
      a.agent ∉ st.revokedAgents ∧ a.jti ∈ st.seenJti := by
  rw [reason_eq_iff hn ha (by decide), h.intentReason]
  split_ifs with hj <;> simp [hj, Reason.tokenReplayed, Reason.ok]

theorem not_offSelector_of_none (h : a.workloadSelector = none) :
    ¬ ∃ sel ∈ a.workloadSelector, startsWith a.sandbox sel = false := by
  simp [h]

theorem intentReason_offSelector :
    (offSelector exp).intentReason S st = Reason.workloadMismatch := by
  have hw : startsWith "sbx-dev-1" "sbx-prod-" = false := by decide
  exact if_pos ⟨"sbx-prod-", rfl, hw⟩

theorem intentReason_outOfScope :
    (outOfScope exp).intentReason S st = Reason.intentMismatch := by
  have hp : pathInScope "/repos/evil/exfil/contents" "/repos/acme/" = false := by decide
  rw [Attempt.intentReason, if_neg (not_offSelector_of_none rfl)]
  exact if_pos (congrArg not hp)

theorem intentReason_altered (hS : S.Regular) :
    (altered exp).intentReason S st = Reason.intentMismatch := by
  have hp : (!pathInScope (altered exp).path "/repos/acme/") = false :=
    congrArg not pathInScope_path
  rw [Attempt.intentReason, if_neg (not_offSelector_of_none rfl), hp, if_neg Bool.false_ne_true]
  exact if_pos hS.bodies

end

/-! ## The suite -/

section
variable {S : Surroundings} {key : List UInt8} {st : VerifierState} {n : ℕ} {P : Prop}
  {w : Suite} {a : Attempt}

/-- A nonce is spent by an attempt that nothing else is wrong with. -/
theorem After.spent (h : After key st n P w) (hS : S.Regular) (hs : a.isShort = true)
    (hi : a.Intended S) (hn : S.verifierNow n ≤ a.expUnixMs) (ha : a.tokenAgent = a.agent)
    (hr : a.agent ∉ w.verifier.revokedAgents) :
    a.jti ∈ (a.eval S key (enforcing S.verifierUrl) w).2.verifier.seenJti := by
  rw [(Attempt.outcome_eval hS hs h.key).suite, h.evaluations]
  by_cases hj : a.jti ∈ w.verifier.seenJti
  · have hnot : a.reason S w.verifier (S.verifierNow n) ≠ Reason.ok := fun hok =>
      ((hi.reason_ok_iff hn ha).1 hok).2 hj
    rw [Attempt.next, if_neg hnot]
    exact hj
  · rw [Attempt.next, if_pos ((hi.reason_ok_iff hn ha).2 ⟨hr, hj⟩)]
    exact Finset.mem_insert_self _ _

/-- Another nonce is not. -/
theorem After.other (h : After key st n P w) (hS : S.Regular) (hs : a.isShort = true) {jti : String}
    (hj : jti ≠ a.jti) : jti ∈ (a.eval S key (enforcing S.verifierUrl) w).2.verifier.seenJti ↔
      jti ∈ w.verifier.seenJti := by
  rw [(Attempt.outcome_eval hS hs h.key).suite, Attempt.next]
  split_ifs
  · exact Finset.mem_insert.trans (or_iff_right hj)
  · exact .rfl

end

/-! ## Blocks -/

section
variable {S : Surroundings} {key : List UInt8} {st : VerifierState} {exp : Int64} {n : ℕ}
  {P : Prop} {w : Suite} {a : Attempt} {name expectReason : String} {b : List UInt8}

-- An evaluation is known by its outcome; its body is large.
attribute [local irreducible] Attempt.eval

theorem After.intended (h : After key st n P w) (hS : S.Regular) (hs : a.isShort = true)
    (hi : a.Intended S) (hn : S.verifierNow n ≤ a.expUnixMs) (ha : a.tokenAgent = a.agent) :
    After key st (n + 1) (P ∧ a.agent ∉ st.revokedAgents ∧ a.jti ∉ w.verifier.seenJti)
      (record name b true true Reason.ok (a.eval S key (enforcing S.verifierUrl) w)) := by
  have hok : a.reason S w.verifier (S.verifierNow n) = Reason.ok ↔
      a.agent ∉ w.verifier.revokedAgents ∧ a.jti ∉ w.verifier.seenJti := hi.reason_ok_iff hn ha
  rw [h.revoked] at hok
  exact (h.block hS hs (iff_of_true rfl rfl)).congr (and_congr_right fun _ => hok)

/-- The verifier after the revocation of the suite. -/
theorem mem_revokeAgent (S : Surroundings) (w : Suite) (a : String) :
    a ∈ (revokeAgent S "agt-revoked" w).verifier.revokedAgents ↔
      a ∈ w.verifier.revokedAgents ∨
        S.revokeRoute (revokeUrl S.verifierUrl "agt-revoked") = some (.revoke a) := by
  rw [revokeAgent]
  split
  · rename_i other hroute
    have hmem : a ∈ (w.verifier.revokeAgent other).revokedAgents ↔
        a = other ∨ a ∈ w.verifier.revokedAgents := Finset.mem_insert
    simp [hmem, hroute, or_comm, eq_comm]
  · rename_i hroute
    simp [hroute]
  · rename_i hroute
    simp [hroute]

/-- The other agent, which is revoked first. -/
theorem After.revokedAgent (h : After key st n P w) (hS : S.Regular)
    (hn : S.verifierNow n ≤ exp) : After key (revokeAgent S "agt-revoked" w).verifier (n + 1)
      (P ∧ ("agt-revoked" ∈ st.revokedAgents ∨
        S.revokeRoute (revokeUrl S.verifierUrl "agt-revoked") = some (.revoke "agt-revoked")))
      (record name b true false Reason.agentRevoked
        ((Driver.revoked exp).eval S key (enforcing S.verifierUrl)
          (revokeAgent S "agt-revoked" w))) := by
  have he : false = true ↔ Reason.agentRevoked = Reason.ok := by decide
  refine ((h.revoke S "agt-revoked").block (a := Driver.revoked exp) hS rfl he).congr ?_
  refine and_congr_right fun _ => (Attempt.reason_revoked_iff hn rfl).trans ?_
  rw [← h.revoked]
  exact mem_revokeAgent S w _

/-- An attempt that is denied for what it is for. -/
theorem After.denyIntent (h : After key st n P w) (hS : S.Regular) (hs : a.isShort = true)
    (hn : S.verifierNow n ≤ a.expUnixMs) (ha : a.tokenAgent = a.agent)
    (hi : a.intentReason S w.verifier = expectReason) (hne : expectReason ≠ Reason.ok)
    (hP : P → a.agent ∉ st.revokedAgents) :
    After key st (n + 1) P (record name b true false expectReason
      (a.eval S key (enforcing S.verifierUrl) w)) := by
  have hr : expectReason ≠ Reason.agentRevoked := hi ▸ Attempt.intentReason_ne_agentRevoked
  refine h.deny hS hs hne fun hp => (Attempt.reason_eq_iff hn ha hr).2 ⟨?_, hi⟩
  rw [h.revoked]
  exact hP hp

/-- The first of two presentations spends the nonce. -/
theorem After.replayed (h : After key st n P w) (hS : S.Regular)
    (hexp : ∀ n, S.verifierNow n ≤ exp) (hP : P → agent ∉ st.revokedAgents) :
    After key st (n + 2) P (record name b true false Reason.tokenReplayed
      ((replayed exp).eval S key (enforcing S.verifierUrl)
        ((replayed exp).eval S key (enforcing S.verifierUrl) w).2)) := by
  have hi : (Driver.replayed exp).Intended S := Attempt.intended_of_eq rfl rfl rfl
  have h' := h.eval (a := Driver.replayed exp) hS rfl
  refine h'.deny hS rfl (by decide) fun hp => ?_
  have hspent := h.spent hS rfl hi (hexp n) rfl (by rw [h.revoked]; exact hP hp)
  exact (hi.reason_replayed_iff (hexp (n + 1)) rfl).2 ⟨by rw [h'.revoked]; exact hP hp, hspent⟩

end

/-! ## The whole suite -/

section
variable {S S' : Surroundings} {key : List UInt8} {st : VerifierState}

attribute [local irreducible] Attempt.eval

/-- What the suite needs: a verifier that has not met it, and the other agent
    revoked in time. -/
def Ready (S : Surroundings) (st : VerifierState) : Prop :=
  (agent ∉ st.revokedAgents ∧ "jti-happy" ∉ st.seenJti ∧ "jti-respawn" ∉ st.seenJti) ∧
    ("agt-revoked" ∈ st.revokedAgents ∨
      S.revokeRoute (revokeUrl S.verifierUrl "agt-revoked") = some (.revoke "agt-revoked"))

/-- What the suite comes to, on a verifier that was `st`. -/
structure Done (S : Surroundings) (key : List UInt8) (st : VerifierState)
    (r : List ScenarioResult × VerifierState) : Prop where
  key : r.2.key = key
  passed : allPassed r.1 = true ↔ Ready S st
  spent : agent ∈ r.2.revokedAgents ∨ "jti-happy" ∈ r.2.seenJti

theorem done_runScenarios (hS : S.Regular) (hk : st.key = key) :
    Done S key st (runScenarios S key st) := by
  unfold runScenarios
  extract_lets mw exp w₀ w₁ w₂ w₃ w₄ w₅ w₆ w₇ w₈ w₉ w₁₀ w₁₁ w₁₂ w₁₃
  have hexp : ∀ n, S.verifierNow n ≤ exp := hS.clock
  clear_value exp
  have hvalid : (valid exp).Intended S := Attempt.intended_of_eq rfl rfl rfl
  have hrespawned : (respawned exp).Intended S := Attempt.intended_of_eq rfl rfl rfl
  have h₀ : After key st 0 True w₀ := after_start hk
  have h₁ : After key st 1 _ w₁ := h₀.intended hS rfl hvalid (hexp 0) rfl
  have hspent : agent ∉ st.revokedAgents → "jti-happy" ∈ w₁.verifier.seenJti :=
    h₀.spent hS rfl hvalid (hexp 0) rfl
  have hother : "jti-respawn" ∈ w₁.verifier.seenJti ↔ "jti-respawn" ∈ st.seenJti := by
    have hne : "jti-respawn" ≠ "jti-happy" := by decide
    exact h₀.other hS rfl hne
  clear_value w₁
  -- From the second block on, the verifier is compared with that after the first.
  have h₂ : After key w₁.verifier 2 (agent ∉ st.revokedAgents ∧ "jti-happy" ∉ st.seenJti ∧
      "jti-respawn" ∉ st.seenJti) w₂ := by
    refine (h₁.here.intended hS rfl hrespawned (hexp 1) rfl).congr ?_
    change (True ∧ agent ∉ st.revokedAgents ∧ "jti-happy" ∉ st.seenJti) ∧
      agent ∉ w₁.verifier.revokedAgents ∧ "jti-respawn" ∉ w₁.verifier.seenJti ↔ _
    rw [h₁.revoked, hother]
    tauto
  have hne : agent ≠ "agt-intruder" := by decide
  have h₃ : After key w₁.verifier 3 _ w₃ := h₂.deny (a := wrongAgent exp) hS rfl (by decide)
    fun _ => Attempt.reason_of_ne (hexp 2) hne
  -- And from the revocation on, with that after it.
  have hagent : agent ∈ w₄.verifier.revokedAgents ↔ agent ∈ st.revokedAgents := by
    rw [← h₁.revoked, ← h₃.revoked]
    exact (mem_revokeAgent S w₃ agent).trans (or_iff_left hS.revocation)
  have h₅ : After key w₄.verifier 4 (Ready S st) w₅ := by
    have h : After key w₄.verifier 4 _ w₅ := h₃.revokedAgent hS (hexp 3)
    rwa [h₁.revoked] at h
  have hP (h : Ready S st) : agent ∉ w₄.verifier.revokedAgents := mt hagent.1 h.1.1
  have h₆ : After key w₄.verifier 5 _ w₆ := h₅.denyIntent (a := offSelector exp) hS rfl (hexp 4) rfl
    intentReason_offSelector (by decide) hP
  have h₈ : After key w₄.verifier 7 _ w₈ := h₆.replayed hS hexp hP
  have h₉ : After key w₄.verifier 8 _ w₉ := h₈.denyIntent (a := outOfScope exp) hS rfl (hexp 7) rfl
    intentReason_outOfScope (by decide) hP
  have h₁₀ : After key w₄.verifier 9 _ w₁₀ := (h₉.denyIntent (a := altered exp) hS rfl (hexp 8) rfl
    (intentReason_altered hS) (by decide) hP).boundLast _
  have h₁₁ : After key w₄.verifier 10 _ w₁₁ := h₁₀.deny hS rfl (by decide)
    fun _ => Attempt.reason_of_expired hS.expired
  have h₁₂ : After key w₄.verifier 11 _ w₁₂ := h₁₁.missing
  have h₁₃ : After key w₄.verifier 12 _ w₁₃ := h₁₂.unreachable hS rfl
  refine ⟨h₁₃.key, h₁₃.out, ?_⟩
  by_cases hr : agent ∈ st.revokedAgents
  · rw [h₁₃.revoked, hagent]
    exact .inl hr
  · have hseen : w₄.verifier.seenJti = w₃.verifier.seenJti :=
      (revokeAgent_frame S "agt-revoked" w₃).2.1
    have hmono : w₁.verifier.seenJti ⊆ w₄.verifier.seenJti := hseen ▸ h₃.mono
    exact .inr (h₁₃.mono (hmono (hspent hr)))

/-- **The smoke test**: the suite passes on a verifier exactly if this has not
    revoked its agent and has not seen its first two nonces, and either has
    revoked the other agent or gets the revocation of it.  On a verifier that
    it has run on it never passes again, whatever was asked of that in between. -/
theorem suite_passes_iff (hS : S.Regular) (hS' : S'.Regular) (hk : st.key = key)
    (X : Crates) (h : List VerifierCall) :
    (allPassed (runScenarios S key st).1 = true ↔
      (agent ∉ st.revokedAgents ∧ "jti-happy" ∉ st.seenJti ∧ "jti-respawn" ∉ st.seenJti) ∧
        ("agt-revoked" ∈ st.revokedAgents ∨
          S.revokeRoute (revokeUrl S.verifierUrl "agt-revoked") =
            some (.revoke "agt-revoked"))) ∧
    allPassed (runScenarios S' key ((runScenarios S key st).2.after X h)).1 = false := by
  obtain ⟨hkey, hpassed, hspent⟩ := done_runScenarios hS hk
  refine ⟨hpassed, ?_⟩
  have hle := le_after X (runScenarios S key st).2 h
  have hdone := done_runScenarios hS' (hle.key.trans hkey)
  rw [Bool.eq_false_iff, Ne, hdone.passed]
  rintro ⟨⟨hagent, hhappy, -⟩, -⟩
  rcases hspent with hr | hj
  · exact hagent (hle.revoked hr)
  · exact hhappy (hle.seen hj)

end

/-- The bytes of a number. -/
def digest (n : ℕ) : Digest := .ofFn fun i => .ofNat (n >>> (8 * (31 - i.val)))

/-- The SHA-256 of the second body. -/
def alteredSha256 : Digest :=
  digest 0xb3ddf46debf961767fbd93780fa512bf70cf4e41fd819f3eefacee5e3ad87cfe

/-- The hash that the out-of-scope token is bound to. -/
def scopeCrh : String := "66300c18b50b00cfb90964f79c2e54971eb27bd3a36e5c361e40d219c55f56f4"

/-- The HMAC-SHA256 of the claims of the suite under `key`. -/
def macs : List (Claims × ℕ) :=
  let crh := happy.claims.crh
  [(happy.claims, 0x94563a088f8acc33f5c0c5d0d02cfe7ef9a22817a00e35405f2b9236e3661fae),
    (claimsFor agent "jti-respawn" crh none,
      0xa95a159b41fbb2533bd527f053676ed67ded918fec3d710b9615434c11d66856),
    (claimsFor agent "jti-wrongagent" crh none,
      0xc0bf9b47482309c919d3d0db29d34883a4f518e9b7ced3c6457d3dc9a16b8b37),
    (claimsFor "agt-revoked" "jti-revoked" crh none,
      0xe874572fbd2de99d74ec4e891f2ae93d27bccab3ea7641c913acb6d4877ce9b8),
    (claimsFor agent "jti-workload" crh (some "sbx-prod-"),
      0x6591e30e54b53f5513193328dc34cebba22ce8e21616718170adc0a8ba41c7c1),
    (claimsFor agent "jti-replay" crh none,
      0x5f37fe85cc187228b98f06db9e5bfde93aed337535d4d1eccc2549f3441ba89f),
    (claimsFor agent "jti-scope" (some scopeCrh) none,
      0xfe48d87a19bd62ba0be4eaee0dff1e21ada3106198d0947ea4d4bbfffd19c04d),
    (claimsFor agent "jti-intent" crh none,
      0xde83f1ae12fe854506143b80d9bdcf97795e453b37bc3cfd48763de9147bbaa9),
    ({ claimsFor agent "jti-exp" crh none with expUnixMs := 1699999999000 },
      0xfbbdfa3b06592de2c8b91c5ff4b86fd91d39000208e05c389968e5bec13bba0c),
    (claimsFor agent "jti-down" crh none,
      0xd8cc58584a2f20e58353136b5eb7ab912279dd7f69d2e27b75ac03aed00294f2)]

/-- The external functions on what the suite hashes, signs and reads. -/
def suiteCrates : Crates where
  sha256 bs :=
    if bs = body then bodySha256
    else if bs = (altered 0).sent then alteredSha256
    else if bs = crhPreimage ⟨"POST", "https", authority, path, "", alteredSha256⟩ then
      digest 0x934b208d7c391f16622d199dabaf0c12187d7928e4e3b2ec1767c04cc2107508
    else if bs = crhPreimage ⟨"POST", "https", authority, (outOfScope 0).path, "", bodySha256⟩ then
      digest 0x66300c18b50b00cfb90964f79c2e54971eb27bd3a36e5c361e40d219c55f56f4
    else happy.crh
  hmacSha256 _ msg :=
    digest (((macs.find? fun p => bytes (claimsBytes p.1) = msg).map Prod.snd).getD 0)
  fromSlice := parse
  values := happy.crates.values

/-- Where a `POST` arrives at the verifier that listens on the port 18443.  A dot
    segment of the path is removed on the way. -/
def listening (url : String) : Option Route :=
  if url = demoUrl "18443" ∨ url = "http://127.0.0.1:18443/v1/./authorize" then some .authorize
  else (stripPrefix url "http://127.0.0.1:18443/v1/revoke/").map .revoke

/-- The verifier and a closed port, within one millisecond. -/
def smoke : Surroundings where
  crates := suiteCrates
  verifierUrl := demoUrl "18443"
  downUrl := demoUrl "18444"
  route := listening
  down := .error ⟨false, true, false, none, false⟩
  revokeRoute := listening
  nowMs _ := now
  readings _ := readings
  verifierNow _ := now

/-- The same verifier, by another URL. -/
def dotted : Surroundings := { smoke with verifierUrl := "http://127.0.0.1:18443/v1/./authorize" }

theorem listening_revokeUrl_demoUrl :
    listening (revokeUrl (demoUrl "18443") "agt-revoked") = some (.revoke "agt-revoked") := by
  rw [revokeUrl_demoUrl (by decide)]
  decide +kernel

theorem listening_revokeUrl_dotted :
    listening (revokeUrl "http://127.0.0.1:18443/v1/./authorize" "agt-revoked") =
      some .authorize := by
  decide +kernel

theorem json_smoke (c : Claims) :
    suiteCrates.fromSlice (bytes (claimsBytes c)) = some c.toJson := by
  have hparse : suiteCrates.fromSlice = parse := rfl
  rw [hparse, claimsBytes, parse_render c.plain_toJson]

theorem regular_smoke : smoke.Regular where
  json := json_smoke
  bodies := by decide +kernel
  verifier := by decide +kernel
  closed := by decide +kernel
  down := ⟨_, rfl, rfl⟩
  revocation h := by
    have hne : "agt-revoked" ≠ agent := by decide
    have hroute := listening_revokeUrl_demoUrl.symm.trans h
    exact hne (Route.revoke.inj (Option.some.inj hroute))
  clock _ := show now ≤ now + 60000 by decide
  expired := by decide

theorem regular_dotted : dotted.Regular where
  json := json_smoke
  bodies := by decide +kernel
  verifier := by decide +kernel
  closed := by decide +kernel
  down := ⟨_, rfl, rfl⟩
  revocation h := by cases listening_revokeUrl_dotted.symm.trans h
  clock _ := show now ≤ now + 60000 by decide
  expired := by decide

/-- A new verifier, and once more after another revocation.  By the other URL the
    suite fails on a new verifier already: nobody is revoked. -/
theorem suite_passes_iff_smoke :
    allPassed (runScenarios smoke key (.new key)).1 = true ∧
      allPassed (runScenarios smoke key
        ((runScenarios smoke key (.new key)).2.after smoke.crates [.revoke "agt-intruder"])).1 =
          false ∧
      allPassed (runScenarios dotted key (.new key)).1 = false := by
  have hk : (VerifierState.new key).key = key := rfl
  obtain ⟨hpassed, hagain⟩ := suite_passes_iff regular_smoke regular_smoke hk smoke.crates
    [.revoke "agt-intruder"]
  obtain ⟨hdotted, -⟩ := suite_passes_iff regular_dotted regular_smoke hk smoke.crates []
  refine ⟨hpassed.2 ⟨by simp [VerifierState.new], .inr listening_revokeUrl_demoUrl⟩, hagain, ?_⟩
  rw [Bool.eq_false_iff, Ne, hdotted]
  rintro ⟨-, hr | hr⟩
  · simp [VerifierState.new] at hr
  · cases listening_revokeUrl_dotted.symm.trans hr

end ExtAuthz.Driver
