/-
  Mode and fail policy: what an evaluation comes to.

  `evaluate_cases` is the one lemma about `evaluate` that the rest of the
  development uses: a local denial, which depends on the headers and the body
  alone, or the outcome of one round trip, resolved.

  Observe mode never blocks.  Its audit predicts the decision of enforce mode
  in every case but one: with `fail = open` a failed verifier is reported as a
  denial that enforce mode would not make (`canary_iff`).
-/
import ExtAuthz.Demo.Driver

namespace ExtAuthz

open Text Json

/-! ## The two halves of an evaluation -/

namespace ExtAuthzMiddleware

/-- The code and the message of a local denial. -/
def localDenial (cfg : ExtAuthzConfig) (req : EgressRequest) : Option (String × String) :=
  match findTokenHeader req.headers cfg.tokenHeader with
  | .none =>
    some (Reason.tokenMissing, "request carries no `" ++ cfg.tokenHeader ++ "` header")
  | .many =>
    some (Reason.tokenAmbiguous, "request carries multiple `" ++ cfg.tokenHeader ++
      "` headers; refusing to guess which to authorize")
  | .one _ =>
    if req.body.length > cfg.maxBodyBytes then
      some (Reason.requestTooLarge, "body is " ++ toString req.body.length ++
        " bytes; max_body_bytes=" ++ toString cfg.maxBodyBytes ++
          " (intent binding requires hashing the body)")
    else none

theorem localDenial_eq_none {cfg : ExtAuthzConfig} {req : EgressRequest} :
    localDenial cfg req = none ↔ PassesLocalChecks cfg req := by
  unfold localDenial PassesLocalChecks
  simp only [← findTokenHeader_eq_one]
  cases findTokenHeader req.headers cfg.tokenHeader with
  | none => simp
  | many => simp
  | one token => simp

/-- The audit event while the verifier is asked. -/
def sentAudit (m : ExtAuthzMiddleware) (k : Readings) (ctx : RequestContext) (req : EgressRequest)
    (wire : AuthorizeRequest) : AuditEvent :=
  { m.initialAudit k ctx req with
    canonicalRequestHash := some wire.request.canonicalRequestHash
    verifierLatency := some k.elapsed }

theorem evaluate_of_localDenial {m : ExtAuthzMiddleware} {req : EgressRequest}
    {code message : String} (h : localDenial m.cfg req = some (code, message))
    (sha256 : List UInt8 → Digest) (k : Readings) (post : Json → Reply) (ctx : RequestContext) :
    m.evaluate sha256 k post ctx req =
      m.resolveLocalDeny (m.initialAudit k ctx req) code message := by
  unfold localDenial at h
  unfold evaluate prepare
  cases hf : findTokenHeader req.headers m.cfg.tokenHeader with
  | none => simp_all
  | many => simp_all
  | one token =>
    simp only [hf] at h
    split at h <;> cases h
    rename_i hb
    simp [hb]

theorem evaluate_of_token {m : ExtAuthzMiddleware} {req : EgressRequest} {token : String}
    (ht : headerValues req.headers m.cfg.tokenHeader = [token])
    (hb : req.body.length ≤ m.cfg.maxBodyBytes) (sha256 : List UInt8 → Digest) (k : Readings)
    (post : Json → Reply) (ctx : RequestContext) :
    m.evaluate sha256 k post ctx req =
      m.resolve (m.sentAudit k ctx req (m.wire sha256 k ctx req token))
        (callVerifier post (m.wire sha256 k ctx req token)) := by
  simp [evaluate, prepare, findTokenHeader_eq_one.2 ht, not_lt.2 hb, sentAudit]

theorem evaluate_cases (m : ExtAuthzMiddleware) (sha256 : List UInt8 → Digest) (k : Readings)
    (post : Json → Reply) (ctx : RequestContext) (req : EgressRequest) :
    (¬ PassesLocalChecks m.cfg req ∧ ∃ code message,
      localDenial m.cfg req = some (code, message) ∧
        m.evaluate sha256 k post ctx req =
          m.resolveLocalDeny (m.initialAudit k ctx req) code message) ∨
    (PassesLocalChecks m.cfg req ∧ ∃ token,
      headerValues req.headers m.cfg.tokenHeader = [token] ∧
        m.evaluate sha256 k post ctx req =
          m.resolve (m.sentAudit k ctx req (m.wire sha256 k ctx req token))
            (callVerifier post (m.wire sha256 k ctx req token))) := by
  cases hd : localDenial m.cfg req with
  | none =>
    have hp := localDenial_eq_none.1 hd
    obtain ⟨⟨token, ht⟩, hb⟩ := hp
    exact .inr ⟨⟨⟨token, ht⟩, hb⟩, token, ht, evaluate_of_token ht hb sha256 k post ctx⟩
  | some d =>
    refine .inl ⟨?_, d.1, d.2, rfl, evaluate_of_localDenial hd sha256 k post ctx⟩
    intro hp
    rw [localDenial_eq_none.2 hp] at hd
    cases hd

/-! ## Resolution -/

/-- On a verdict enforce mode continues exactly when it is an ALLOW. -/
theorem resolve_verdict_isAllow {m : ExtAuthzMiddleware} (hm : m.cfg.mode = .enforce)
    (audit : AuditEvent) (v : AuthorizeResponse) :
    (m.resolve audit (.verdict v)).1.isAllow = true ↔ v.decision = .allow := by
  cases hv : v.decision <;> simp [resolve, resolveVerdictDeny, continueDecision, hv, hm]

theorem resolve_isAllow_closed {m : ExtAuthzMiddleware} (hm : m.cfg.mode = .enforce)
    (hf : m.cfg.fail = .closed) (audit : AuditEvent) (o : VerifierOutcome) :
    (m.resolve audit o).1.isAllow = true ↔ ∃ v, o = .verdict v ∧ v.decision = .allow := by
  cases o with
  | verdict v => simp [resolve_verdict_isAllow hm]
  | _ => simp [resolve, resolveVerifierFailure, hm, hf]

theorem resolve_isAllow_failure {m : ExtAuthzMiddleware} (hm : m.cfg.mode = .enforce)
    (audit : AuditEvent) {o : VerifierOutcome} (ho : o.isVerdict = false) :
    (m.resolve audit o).1.isAllow = true ↔ m.cfg.fail = .open := by
  cases o with
  | verdict v => cases ho
  | _ => cases hf : m.cfg.fail <;>
      simp [resolve, resolveVerifierFailure, continueDecision, hm, hf]

theorem resolveLocalDeny_isAllow {m : ExtAuthzMiddleware} (hm : m.cfg.mode = .enforce)
    (audit : AuditEvent) (code message : String) :
    (m.resolveLocalDeny audit code message).1.isAllow = false := by
  simp [resolveLocalDeny, hm]

theorem evaluate_isAllow_closed {m : ExtAuthzMiddleware} (hm : m.cfg.mode = .enforce)
    (hf : m.cfg.fail = .closed) {sha256 : List UInt8 → Digest} {k : Readings}
    {post : Json → Reply} {ctx : RequestContext} {req : EgressRequest} :
    (m.evaluate sha256 k post ctx req).1.isAllow = true ↔
      PassesLocalChecks m.cfg req ∧ ∃ token v,
        headerValues req.headers m.cfg.tokenHeader = [token] ∧
        callVerifier post (m.wire sha256 k ctx req token) = .verdict v ∧ v.decision = .allow := by
  rcases evaluate_cases m sha256 k post ctx req with ⟨hl, code, msg, -, he⟩ | ⟨hl, token, ht, he⟩
  · rw [he, resolveLocalDeny_isAllow hm]
    simp [hl]
  · rw [he, resolve_isAllow_closed hm hf]
    constructor
    · rintro ⟨v, ho, hv⟩
      exact ⟨hl, token, v, ht, ho, hv⟩
    · rintro ⟨-, token', v, ht', ho, hv⟩
      cases ht.symm.trans ht'
      exact ⟨v, ho, hv⟩

end ExtAuthzMiddleware

open ExtAuthzMiddleware

/-! ## Observe mode -/

/-- What a canary in observe mode promises about enforce mode: it never blocks,
    and its audit has the decision and the reason that enforce mode would have. -/
def FaithfulCanary (enforced observed : Decision × AuditEvent) : Prop :=
  observed.1.isAllow = true ∧ observed.2.enforced = false ∧
    (observed.2.wouldDeny = true ↔ enforced.1.isAllow = false) ∧
    observed.2.reasonCode = enforced.2.reasonCode

section
variable {e o : ExtAuthzMiddleware} (he : e.cfg.mode = .enforce) (ho : o.cfg.mode = .observe)
include he ho

theorem canary_localDeny {a₁ a₂ : AuditEvent} (ha : a₂.enforced = false) (code message : String) :
    FaithfulCanary (e.resolveLocalDeny a₁ code message) (o.resolveLocalDeny a₂ code message) := by
  simp [FaithfulCanary, resolveLocalDeny, continueDecision, he, ho, ha]

theorem canary_verdict {a₁ a₂ : AuditEvent} (ha : a₂.enforced = false)
    (hw : a₂.wouldDeny = false) (v : AuthorizeResponse) :
    FaithfulCanary (e.resolve a₁ (.verdict v)) (o.resolve a₂ (.verdict v)) := by
  cases hv : v.decision <;>
    simp [FaithfulCanary, resolve, resolveVerdictDeny, continueDecision, hv, he, ho, ha, hw]

/-- Observe mode takes every failure for a denial, whatever the fail policy. -/
theorem canary_failure_iff {a₁ a₂ : AuditEvent} (ha : a₂.enforced = false)
    {out : VerifierOutcome} (hout : out.isVerdict = false) :
    FaithfulCanary (e.resolve a₁ out) (o.resolve a₂ out) ↔ e.cfg.fail = .closed := by
  cases out with
  | verdict v => cases hout
  | _ => cases hf : e.cfg.fail <;>
      simp [FaithfulCanary, resolve, resolveVerifierFailure, continueDecision, he, ho, ha, hf]

end

/-- The middleware with the configuration `cfg` in the given mode. -/
def inMode (cfg : ExtAuthzConfig) (mode : Mode) : ExtAuthzMiddleware := .new { cfg with mode }

/-- Past the local checks, the fidelity of the canary is a matter of the
    outcome: on a verdict it is faithful, on a failure if the policy is closed. -/
theorem canary_of_passesLocalChecks {cfg : ExtAuthzConfig} {req : EgressRequest}
    (hl : PassesLocalChecks cfg.normalized req) (sha256 : List UInt8 → Digest)
    (k₁ k₂ : Readings) (reply : Reply) (ctx : RequestContext) :
    FaithfulCanary ((inMode cfg .enforce).evaluate sha256 k₁ (fun _ => reply) ctx req)
        ((inMode cfg .observe).evaluate sha256 k₂ (fun _ => reply) ctx req) ↔
      cfg.fail = .closed ∨ reply.outcome.isVerdict = true := by
  have he : (inMode cfg .enforce).cfg.mode = .enforce := rfl
  have ho : (inMode cfg .observe).cfg.mode = .observe := rfl
  obtain ⟨⟨token, ht⟩, hb⟩ := hl
  have hte : headerValues req.headers (inMode cfg .enforce).cfg.tokenHeader = [token] := ht
  have hto : headerValues req.headers (inMode cfg .observe).cfg.tokenHeader = [token] := ht
  rw [evaluate_of_token hte hb, evaluate_of_token hto hb]
  simp only [callVerifier]
  cases hv : reply.outcome.isVerdict with
  | true =>
    cases hout : reply.outcome with
    | verdict v => exact iff_of_true (canary_verdict he ho rfl rfl v) (.inr rfl)
    | _ => rw [hout] at hv; cases hv
  | false =>
    rw [canary_failure_iff he ho rfl hv]
    simp [inMode, new, ExtAuthzConfig.normalized]

/-- Observe mode is a faithful canary unless the verifier fails under
    `fail = open`. -/
theorem canary_iff (cfg : ExtAuthzConfig) (sha256 : List UInt8 → Digest) (k₁ k₂ : Readings)
    (reply : Reply) (ctx : RequestContext) (req : EgressRequest) :
    FaithfulCanary ((inMode cfg .enforce).evaluate sha256 k₁ (fun _ => reply) ctx req)
        ((inMode cfg .observe).evaluate sha256 k₂ (fun _ => reply) ctx req) ↔
      cfg.fail = .closed ∨ ¬ PassesLocalChecks cfg.normalized req ∨
        reply.outcome.isVerdict = true := by
  cases hd : localDenial cfg.normalized req with
  | none =>
    have hl := localDenial_eq_none.1 hd
    simp [canary_of_passesLocalChecks hl, hl]
  | some d =>
    have hl : ¬ PassesLocalChecks cfg.normalized req := by
      rw [← localDenial_eq_none, hd]
      simp
    have hde : localDenial (inMode cfg .enforce).cfg req = some (d.1, d.2) := hd
    have hdo : localDenial (inMode cfg .observe).cfg req = some (d.1, d.2) := hd
    rw [evaluate_of_localDenial hde, evaluate_of_localDenial hdo]
    exact iff_of_true (canary_localDeny rfl rfl rfl d.1 d.2) (.inr (.inl hl))

/-- A refused connection under `fail = open`: enforce mode continues, and the
    audit of observe mode says that it would have denied. -/
theorem not_canary_open :
    let cfg := Driver.cfg "http://127.0.0.1:18443/v1/authorize" .enforce .open
    let refused : Reply := .error ⟨false, true, false, none, false⟩
    let ctx := Driver.ctx Driver.agent Driver.sandbox
    ¬ FaithfulCanary
      ((inMode cfg .enforce).evaluate Driver.happy.crates.sha256 Driver.readings
        (fun _ => refused) ctx Driver.happy.request)
      ((inMode cfg .observe).evaluate Driver.happy.crates.sha256 Driver.readings
        (fun _ => refused) ctx Driver.happy.request) := by
  intro cfg refused ctx
  have hl : PassesLocalChecks cfg.normalized Driver.happy.request :=
    Driver.happy.passesLocalChecks _ _ _
  rw [canary_of_passesLocalChecks hl]
  decide

end ExtAuthz
