/-
  The decision of the middleware and its audit event.

  An evaluation makes them in one of three ways (`resolveLocalDeny`,
  `resolveVerdictDeny`, `resolveVerifierFailure`), or continues on an ALLOW.  In
  each of them they say the same (`Consistent`), and what the audit event says
  about the round trip is what happened (`audit_truth`).
-/
import ExtAuthz.Demo.Network
import ExtAuthz.Proof.Policy

namespace ExtAuthz

open Json ExtAuthzMiddleware

/-! ## The answers of a verifier -/

/-- A failure of the verifier: no response, another status than 200, or a body
    that does not decode. -/
inductive Reply.Failed : Reply → Prop
  | transport (e) : Failed (.error e)
  | status {s body} : s.code ≠ 200 → Failed (.response s body)
  | undecodable {s} (e) : s.code = 200 → Failed (.response s (.error e))

/-- The verdict of a response with the status 200. -/
inductive Reply.Verdict (v : AuthorizeResponse) : Reply → Prop
  | decoded {s} : s.code = 200 → Verdict v (.response s (.ok v))

/-- Every answer is a failure or a verdict. -/
theorem Reply.outcome_cases (r : Reply) :
    (r.Failed ∧ r.outcome.isVerdict = false) ∨ ∃ v, r.Verdict v ∧ r.outcome = .verdict v := by
  cases r with
  | error e =>
    refine .inl ⟨.transport e, ?_⟩
    by_cases ht : e.isTimeout = true <;> simp [outcome, ht, VerifierOutcome.isVerdict]
  | response s body =>
    by_cases hs : s.code = 200
    · cases body with
      | error e =>
        refine .inl ⟨.undecodable e hs, ?_⟩
        by_cases ht : e.isTimeout = true <;> simp [outcome, hs, ht, VerifierOutcome.isVerdict]
      | ok v => exact .inr ⟨v, .decoded hs, by simp [outcome, hs]⟩
    · exact .inl ⟨.status hs, by simp [outcome, hs, VerifierOutcome.isVerdict]⟩

theorem Reply.Failed.not_verdict {r : Reply} (h : r.Failed) (v : AuthorizeResponse) :
    ¬ r.Verdict v := by
  rintro ⟨hs⟩
  cases h with
  | status hn => exact hn hs

theorem Reply.failed_iff {r : Reply} : r.Failed ↔ r.outcome.isVerdict = false := by
  rcases r.outcome_cases with ⟨hf, ho⟩ | ⟨v, hv, ho⟩
  · exact iff_of_true hf ho
  · refine iff_of_false (fun hf => hf.not_verdict v hv) ?_
    simp [ho, VerifierOutcome.isVerdict]

theorem Reply.verdict_iff {r : Reply} {v : AuthorizeResponse} :
    r.Verdict v ↔ r.outcome = .verdict v := by
  rcases r.outcome_cases with ⟨hf, ho⟩ | ⟨w, hw, ho⟩
  · refine iff_of_false (hf.not_verdict v) fun hv => ?_
    rw [hv] at ho
    cases ho
  · rw [ho, VerifierOutcome.verdict.injEq]
    constructor
    · rintro ⟨-⟩
      cases hw
      rfl
    · rintro rfl
      exact hw

/-! ## The exits -/

/-- What a decision and its audit event say alike. -/
structure Consistent (r : Decision × AuditEvent) : Prop where
  decision : r.2.decision = if r.1.isAllow then "allow" else "deny"
  wouldDeny : r.2.wouldDeny = true → r.1.isAllow = true ∧ r.2.enforced = false
  verdict : ∀ v, r.1 = .deny v → v.reasonCode = r.2.reasonCode ∧ v.receiptId = r.2.receiptId ∧
    v.httpStatus = if r.2.degraded then 503 else 403

/-- An audit event that is not resolved yet. -/
structure Pending (m : ExtAuthzMiddleware) (audit : AuditEvent) : Prop where
  enforced : audit.enforced = decide (m.cfg.mode = .enforce)
  wouldDeny : audit.wouldDeny = false
  receiptId : audit.receiptId = none
  degraded : audit.degraded = false

section
variable {m : ExtAuthzMiddleware} {audit : AuditEvent}

theorem pending_initialAudit (m : ExtAuthzMiddleware) (k : Readings) (ctx : RequestContext)
    (req : EgressRequest) : Pending m (m.initialAudit k ctx req) := ⟨rfl, rfl, rfl, rfl⟩

theorem pending_sentAudit (m : ExtAuthzMiddleware) (k : Readings) (ctx : RequestContext)
    (req : EgressRequest) (wire : AuthorizeRequest) : Pending m (m.sentAudit k ctx req wire) :=
  ⟨rfl, rfl, rfl, rfl⟩

theorem Pending.resolveLocalDeny (h : Pending m audit) (code message : String) :
    Consistent (m.resolveLocalDeny audit code message) := by
  cases hm : m.cfg.mode with
  | enforce =>
    constructor <;>
      simp [ExtAuthzMiddleware.resolveLocalDeny, hm, h.wouldDeny, h.receiptId, h.degraded]
  | observe =>
    constructor <;>
      simp [ExtAuthzMiddleware.resolveLocalDeny, continueDecision, hm, h.enforced]

theorem Pending.resolveVerdictDeny (h : Pending m audit) (v : AuthorizeResponse) :
    Consistent (m.resolveVerdictDeny
      { audit with reasonCode := v.reasonCode, receiptId := v.receiptId } v) := by
  cases hm : m.cfg.mode with
  | enforce =>
    constructor <;> simp [ExtAuthzMiddleware.resolveVerdictDeny, hm, h.wouldDeny, h.degraded]
  | observe =>
    constructor <;>
      simp [ExtAuthzMiddleware.resolveVerdictDeny, continueDecision, hm, h.enforced]

theorem Pending.resolveVerifierFailure (h : Pending m audit) (code message : String) :
    Consistent (m.resolveVerifierFailure audit code message) := by
  cases hm : m.cfg.mode with
  | enforce =>
    cases hf : m.cfg.fail <;> constructor <;>
      simp [ExtAuthzMiddleware.resolveVerifierFailure, continueDecision, hm, hf, h.wouldDeny,
        h.receiptId]
  | observe =>
    constructor <;>
      simp [ExtAuthzMiddleware.resolveVerifierFailure, continueDecision, hm, h.enforced]

theorem Pending.resolve (h : Pending m audit) (o : VerifierOutcome) :
    Consistent (m.resolve audit o) := by
  cases o with
  | verdict v =>
    cases hv : v.decision with
    | allow => constructor <;> simp [ExtAuthzMiddleware.resolve, continueDecision, hv, h.wouldDeny]
    | deny =>
      simp only [ExtAuthzMiddleware.resolve, hv]
      exact h.resolveVerdictDeny v
  | timeout => exact h.resolveVerifierFailure _ _
  | unavailable e => exact h.resolveVerifierFailure _ _
  | malformed e => exact h.resolveVerifierFailure _ _

/-- A local denial leaves the round trip out of the audit event. -/
theorem resolveLocalDeny_frame (m : ExtAuthzMiddleware) (audit : AuditEvent)
    (code message : String) :
    let r := m.resolveLocalDeny audit code message
    r.2.canonicalRequestHash = audit.canonicalRequestHash ∧
      r.2.verifierLatency = audit.verifierLatency ∧ r.2.degraded = audit.degraded := by
  cases hm : m.cfg.mode <;> simp [ExtAuthzMiddleware.resolveLocalDeny, hm]

/-- What the outcome adds about the round trip is whether the verifier failed. -/
theorem resolve_frame (h : Pending m audit) (o : VerifierOutcome) :
    let r := m.resolve audit o
    r.2.canonicalRequestHash = audit.canonicalRequestHash ∧
      r.2.verifierLatency = audit.verifierLatency ∧ r.2.degraded = !o.isVerdict := by
  have hd := h.degraded
  cases o with
  | verdict v =>
    cases hv : v.decision <;> cases hm : m.cfg.mode <;>
      simp [ExtAuthzMiddleware.resolve, ExtAuthzMiddleware.resolveVerdictDeny, hv, hm, hd,
        VerifierOutcome.isVerdict]
  | _ =>
    cases hm : m.cfg.mode <;> cases hf : m.cfg.fail <;>
      simp [ExtAuthzMiddleware.resolve, ExtAuthzMiddleware.resolveVerifierFailure, hm, hf,
        VerifierOutcome.isVerdict]

end

/-! ## The policy -/

section
variable {X : Crates} {call : EvaluateCall} {reply : Reply}

/-- The request is sent exactly when it passes the local checks. -/
theorem sent_isSome_iff : (call.sent X).isSome = true ↔
    PassesLocalChecks call.middleware.cfg call.req := by
  rw [Option.isSome_iff_exists]
  simp only [EvaluateCall.sent_eq_some]
  constructor
  · rintro ⟨wire, token, ht, hb, -⟩
    exact ⟨⟨token, ht⟩, hb⟩
  · rintro ⟨⟨token, ht⟩, hb⟩
    exact ⟨_, token, ht, hb, rfl⟩

/-- Enforce mode continues on an ALLOW, and under `fail = open` on a failure. -/
theorem run_isAllow_enforce (hm : call.middleware.cfg.mode = .enforce) :
    (call.run X reply).1.isAllow = true ↔ PassesLocalChecks call.middleware.cfg call.req ∧
      ((∃ v, reply.Verdict v ∧ v.decision = .allow) ∨
        reply.Failed ∧ call.middleware.cfg.fail = .open) := by
  rw [EvaluateCall.run]
  rcases evaluate_cases call.middleware X.sha256 call.readings (fun _ => reply) call.ctx call.req
    with ⟨hl, code, msg, -, he⟩ | ⟨hl, token, -, he⟩
  · rw [he, resolveLocalDeny_isAllow hm]
    simp [hl]
  · rw [he, callVerifier]
    rcases reply.outcome_cases with ⟨hf, ho⟩ | ⟨v, hv, ho⟩
    · rw [resolve_isAllow_failure hm _ ho]
      simp [hl, hf, hf.not_verdict]
    · rw [ho, resolve_verdict_isAllow hm]
      have hnf : ¬ reply.Failed := fun hf => hf.not_verdict v hv
      simp [hl, hnf, Reply.verdict_iff, ho]

theorem run_consistent : Consistent (call.run X reply) := by
  rw [EvaluateCall.run]
  rcases evaluate_cases call.middleware X.sha256 call.readings (fun _ => reply) call.ctx call.req
    with ⟨-, code, msg, -, he⟩ | ⟨-, token, -, he⟩
  · rw [he]
    exact (pending_initialAudit _ _ _ _).resolveLocalDeny code msg
  · rw [he]
    exact (pending_sentAudit _ _ _ _ _).resolve _

/-- What the audit event says about the round trip. -/
theorem run_roundTrip :
    (call.run X reply).2.canonicalRequestHash =
        (call.sent X).map (fun wire => wire.request.canonicalRequestHash) ∧
      (call.run X reply).2.verifierLatency =
        (call.sent X).map (fun _ => call.readings.elapsed) ∧
      ((call.run X reply).2.degraded = true ↔ (call.sent X).isSome = true ∧ reply.Failed) := by
  rw [EvaluateCall.run]
  rcases evaluate_cases call.middleware X.sha256 call.readings (fun _ => reply) call.ctx call.req
    with ⟨hl, code, msg, -, he⟩ | ⟨hl, token, ht, he⟩
  · have hs : call.sent X = none := by
      rwa [← Option.not_isSome_iff_eq_none, sent_isSome_iff]
    obtain ⟨hc, hv, hd⟩ := resolveLocalDeny_frame call.middleware
      (call.middleware.initialAudit call.readings call.ctx call.req) code msg
    rw [he, hs, hc, hv, hd]
    exact ⟨rfl, rfl, by simp [initialAudit]⟩
  · have hs : call.sent X = some _ := EvaluateCall.sent_eq_some.2 ⟨token, ht, hl.2, rfl⟩
    obtain ⟨hc, hv, hd⟩ := resolve_frame (pending_sentAudit call.middleware call.readings call.ctx
      call.req (call.middleware.wire X.sha256 call.readings call.ctx call.req token))
      (callVerifier (fun _ => reply)
        (call.middleware.wire X.sha256 call.readings call.ctx call.req token))
    rw [he, hs, hc, hv, hd]
    exact ⟨rfl, rfl, by simp [callVerifier, Reply.failed_iff]⟩

/-- Without a request to the verifier, its answer does not matter. -/
theorem run_of_sent_eq_none (h : call.sent X = none) (reply' : Reply) :
    call.run X reply' = call.run X reply := by
  have hl : ¬ PassesLocalChecks call.middleware.cfg call.req := by
    rw [← sent_isSome_iff (X := X), h]
    simp
  obtain ⟨⟨code, message⟩, hd⟩ := Option.ne_none_iff_exists'.1 (mt localDenial_eq_none.1 hl)
  rw [EvaluateCall.run, EvaluateCall.run, evaluate_of_localDenial hd, evaluate_of_localDenial hd]

end

/-- **Policy and audit**: enforce mode continues exactly on an ALLOW for a
    request that passes the local checks, or on a failure of the verifier under
    `fail = open`.  In both modes the audit event says what was decided, whether
    a request was sent and what came of it. -/
theorem audit_truth (X : Crates) (call : EvaluateCall) (reply : Reply) :
    let cfg := call.middleware.cfg
    let r := call.run X reply
    (cfg.mode = .enforce →
      (r.1.isAllow = true ↔ PassesLocalChecks cfg call.req ∧
        ((∃ v, reply.Verdict v ∧ v.decision = .allow) ∨ reply.Failed ∧ cfg.fail = .open)) ∧
      ∀ v, reply.Verdict v → v.decision = .deny → r.1.isAllow = false) ∧
    ((call.sent X).isSome = true ↔ PassesLocalChecks cfg call.req) ∧
    (call.sent X = none → ∀ reply', call.run X reply' = r) ∧
    (r.2.decision = "allow" ↔ r.1.isAllow = true) ∧
    r.2.canonicalRequestHash =
      (call.sent X).map (fun wire => wire.request.canonicalRequestHash) ∧
    r.2.verifierLatency = (call.sent X).map (fun _ => call.readings.elapsed) ∧
    (r.2.degraded = true ↔ (call.sent X).isSome = true ∧ reply.Failed) ∧
    (r.2.wouldDeny = true → r.1.isAllow = true ∧ r.2.enforced = false) ∧
    ∀ v, r.1 = .deny v → v.reasonCode = r.2.reasonCode ∧ v.receiptId = r.2.receiptId ∧
      v.httpStatus = if r.2.degraded then 503 else 403 := by
  intro cfg r
  have hr : Consistent r := run_consistent
  obtain ⟨hhash, hlatency, hdegraded⟩ := @run_roundTrip X call reply
  refine ⟨?_, sent_isSome_iff, fun h reply' => run_of_sent_eq_none h reply', ?_, hhash, hlatency,
    hdegraded, hr.wouldDeny, hr.verdict⟩
  · intro hm
    refine ⟨run_isAllow_enforce hm, ?_⟩
    intro v hv hd
    rw [← Bool.not_eq_true, run_isAllow_enforce hm]
    rintro ⟨-, ⟨w, hw, ha⟩ | ⟨hf, -⟩⟩
    · have hvw := (Reply.verdict_iff.1 hw).symm.trans (Reply.verdict_iff.1 hv)
      rw [VerifierOutcome.verdict.injEq] at hvw
      rw [hvw, hd] at ha
      cases ha
    · exact hf.not_verdict v hv
  · rw [hr.decision]
    cases r.1.isAllow <;> simp

/-- A refused connection on the happy path of the demo. -/
theorem audit_truth_refused :
    let call : EvaluateCall :=
      ⟨Driver.middleware, Driver.readings, Driver.ctx Driver.agent Driver.sandbox,
        Driver.happy.request, none⟩
    let r := call.run Driver.happy.crates (.error ⟨false, true, false, none, false⟩)
    r.1.isAllow = false ∧ r.2.degraded = true := by
  intro call r
  obtain ⟨hpolicy, hsent, -, -, -, -, hdegraded, -⟩ := audit_truth Driver.happy.crates call
    (.error ⟨false, true, false, none, false⟩)
  obtain ⟨hallow, -⟩ := hpolicy rfl
  have hl := Driver.happy.passesLocalChecks "http://127.0.0.1:18443/v1/authorize" .enforce .closed
  constructor
  · rw [← Bool.not_eq_true, hallow]
    rintro ⟨-, ⟨v, hv, -⟩ | ⟨-, ho⟩⟩
    · cases hv
    · cases ho
  · exact hdegraded.2 ⟨hsent.2 hl, .transport _⟩

end ExtAuthz
