/-
  The audit trail of a network, in every mode and under every policy.

  A call that has returned heard a reply, and its result is what `evaluate`
  makes of this reply (`Told`).  A Continue that its audit event does not mark
  as degraded or as observed only has an ALLOW behind it, for the request of the
  call, and the audit event has the receipt (`trail`).  A nonce that was spent
  on a call without such a Continue is lost for good (`lost_allow`).
-/
import ExtAuthz.Proof.Audit
import ExtAuthz.Proof.SingleUse

namespace ExtAuthz

open Json Interleave ExtAuthzMiddleware

/-- A Continue that the audit event does not mark: it was not decided by the fail
    policy, and enforce mode would not have denied. -/
structure Unmarked (r : Decision × AuditEvent) : Prop where
  isAllow : r.1.isAllow = true
  degraded : r.2.degraded = false
  wouldDeny : r.2.wouldDeny = false

/-! ## Marks -/

section
variable {m : ExtAuthzMiddleware} {audit : AuditEvent}

theorem not_unmarked_resolveLocalDeny (code message : String) :
    ¬ Unmarked (m.resolveLocalDeny audit code message) := by
  rintro ⟨ha, -, hw⟩
  cases hm : m.cfg.mode with
  | enforce => simp [resolveLocalDeny, hm] at ha
  | observe => simp [resolveLocalDeny, hm] at hw

theorem degraded_resolve (h : Pending m audit) {o : VerifierOutcome} (ho : o.isVerdict = false) :
    (m.resolve audit o).2.degraded = true := by
  rw [(resolve_frame h o).2.2, ho]
  rfl

theorem not_unmarked_resolveVerdictDeny (v : AuthorizeResponse) :
    ¬ Unmarked (m.resolveVerdictDeny audit v) := by
  rintro ⟨ha, -, hw⟩
  cases hm : m.cfg.mode with
  | enforce => simp [resolveVerdictDeny, hm] at ha
  | observe => simp [resolveVerdictDeny, hm] at hw

theorem resolve_allow {v : AuthorizeResponse} (hv : v.decision = .allow) :
    m.resolve audit (.verdict v) = (m.continueDecision,
      { audit with reasonCode := v.reasonCode, receiptId := v.receiptId, decision := "allow" }) := by
  simp [resolve, hv]

/-- The audit event has what the verdict said. -/
theorem resolve_verdict_frame (v : AuthorizeResponse) :
    (m.resolve audit (.verdict v)).2.reasonCode = v.reasonCode ∧
      (m.resolve audit (.verdict v)).2.receiptId = v.receiptId := by
  cases hv : v.decision <;> cases hm : m.cfg.mode <;> simp [resolve, resolveVerdictDeny, hv, hm]

/-- The audit event says at every exit whether the mode is enforced. -/
theorem enforced_resolveLocalDeny (code message : String) :
    (m.resolveLocalDeny audit code message).2.enforced = audit.enforced := by
  cases hm : m.cfg.mode <;> simp [resolveLocalDeny, hm]

theorem enforced_resolve (o : VerifierOutcome) :
    (m.resolve audit o).2.enforced = audit.enforced := by
  cases o with
  | verdict v =>
    cases hv : v.decision <;> cases hm : m.cfg.mode <;> simp [resolve, resolveVerdictDeny, hv, hm]
  | _ =>
    cases hm : m.cfg.mode <;> cases hf : m.cfg.fail <;>
      simp [resolve, resolveVerifierFailure, hm, hf]

end

section
variable {X : Crates} {call : EvaluateCall} {reply : Reply}

theorem run_enforced :
    (call.run X reply).2.enforced = decide (call.middleware.cfg.mode = .enforce) := by
  rw [EvaluateCall.run]
  rcases evaluate_cases call.middleware X.sha256 call.readings (fun _ => reply) call.ctx call.req
    with ⟨-, code, msg, -, he⟩ | ⟨-, token, -, he⟩
  · rw [he, enforced_resolveLocalDeny]
    rfl
  · rw [he, enforced_resolve]
    rfl

/-- In every mode and under every policy an unmarked Continue is an ALLOW for the
    request that was sent. -/
theorem unmarked_run_iff : Unmarked (call.run X reply) ↔
    (call.sent X).isSome = true ∧ ∃ v, reply.Verdict v ∧ v.decision = .allow := by
  rw [sent_isSome_iff, EvaluateCall.run]
  rcases evaluate_cases call.middleware X.sha256 call.readings (fun _ => reply) call.ctx call.req
    with ⟨hl, code, msg, -, he⟩ | ⟨hl, token, -, he⟩
  · rw [he]
    exact iff_of_false (not_unmarked_resolveLocalDeny code msg) fun h => hl h.1
  · rw [he, callVerifier]
    have hp := pending_sentAudit call.middleware call.readings call.ctx call.req
      (call.middleware.wire X.sha256 call.readings call.ctx call.req token)
    rcases reply.outcome_cases with ⟨hf, ho⟩ | ⟨v, hv, ho⟩
    · apply iff_of_false
      · rintro ⟨-, hd, -⟩
        rw [degraded_resolve hp ho] at hd
        cases hd
      · rintro ⟨-, v, hv, -⟩
        exact hf.not_verdict v hv
    · have hiff : (∃ w, reply.Verdict w ∧ w.decision = .allow) ↔ v.decision = .allow := by
        simp [Reply.verdict_iff, ho]
      rw [ho, hiff, and_iff_right hl]
      cases hd : v.decision with
      | allow =>
        rw [resolve_allow hd]
        exact iff_of_true ⟨rfl, rfl, rfl⟩ rfl
      | deny =>
        refine iff_of_false ?_ (by simp)
        simp only [resolve, hd]
        exact not_unmarked_resolveVerdictDeny v

/-- A result that says what a verdict said. -/
structure Reports (r : Decision × AuditEvent) (v : AuthorizeResponse) : Prop where
  reasonCode : r.2.reasonCode = v.reasonCode
  receiptId : r.2.receiptId = v.receiptId
  unmarked : Unmarked r ↔ v.decision = .allow

theorem reports_run {v : AuthorizeResponse} (hs : (call.sent X).isSome = true)
    (hv : reply.Verdict v) : Reports (call.run X reply) v := by
  have hu : Unmarked (call.run X reply) ↔ v.decision = .allow := by
    rw [unmarked_run_iff, and_iff_right hs]
    simp [Reply.verdict_iff, Reply.verdict_iff.1 hv]
  rw [sent_isSome_iff] at hs
  rw [EvaluateCall.run] at hu ⊢
  rcases evaluate_cases call.middleware X.sha256 call.readings (fun _ => reply) call.ctx call.req
    with ⟨hl, -⟩ | ⟨-, token, -, he⟩
  · exact absurd hs hl
  · rw [he, callVerifier, Reply.verdict_iff.1 hv] at hu ⊢
    obtain ⟨hcode, hrec⟩ := @resolve_verdict_frame call.middleware
      (call.middleware.sentAudit call.readings call.ctx call.req
        (call.middleware.wire X.sha256 call.readings call.ctx call.req token)) v
    exact ⟨hcode, hrec, hu⟩

/-- What the marks of a Continue say about the configuration. -/
theorem run_marks (ha : (call.run X reply).1.isAllow = true) :
    ((call.run X reply).2.degraded = true →
      call.middleware.cfg.mode = .observe ∨ call.middleware.cfg.fail = .open) ∧
    ((call.run X reply).2.wouldDeny = true → call.middleware.cfg.mode = .observe) := by
  cases hm : call.middleware.cfg.mode with
  | observe => exact ⟨fun _ => .inl rfl, fun _ => rfl⟩
  | enforce =>
    obtain ⟨-, hor⟩ := (run_isAllow_enforce hm).1 ha
    obtain ⟨-, -, hd⟩ := @run_roundTrip X call reply
    refine ⟨fun h => .inr ?_, fun h => ?_⟩
    · rcases hor with ⟨v, hv, -⟩ | ⟨-, ho⟩
      · exact absurd hv ((hd.1 h).2.not_verdict v)
      · exact ho
    · have he := (run_consistent.wouldDeny h).2
      rw [run_enforced, hm] at he
      cases he

end

/-! ## The network -/

namespace Network

/-- What is in `N` and stays: the senders of the handlers, the handlers
    themselves, and the results of the calls. -/
structure Grows (N N' : Network) : Prop where
  verifier : Later N.verifier N'.verifier
  sender : ∀ i t, N.verifier.threads i = some t → N'.sender i = N.sender i
  result : ∀ j call r, N.calls j = some call → call.result = some r → N'.calls j = some call

theorem Grows.refl (N : Network) : N.Grows N :=
  ⟨.refl _, fun _ _ _ => rfl, fun _ _ _ h _ => h⟩

theorem Grows.trans {N₁ N₂ N₃ : Network} (h : N₁.Grows N₂) (h' : N₂.Grows N₃) : N₁.Grows N₃ := by
  refine ⟨h.verifier.trans h'.verifier, ?_, ?_⟩
  · intro i t ht
    obtain ⟨t', ht', -⟩ := h.verifier i t ht
    rw [h'.sender i t' ht', h.sender i t ht]
  · intro j call r hj hr
    exact h'.result j call r (h.result j call r hj hr) hr

variable {X : Crates} {key : List UInt8} {N N' : Network}

theorem Step.grows (h : Step X key N N') : N.Grows N' := by
  cases h with
  | enter j₀ call₀ hn hres =>
    refine ⟨.refl _, fun _ _ _ => rfl, ?_⟩
    intro j call r hj hr
    have hne : j ≠ j₀ := by
      rintro rfl
      rw [hn] at hj
      cases hj
    simpa [hne] using hj
  | arrive i₀ j₀ now hj hw hx hs =>
    refine ⟨hs.later, ?_, fun _ _ _ h _ => h⟩
    intro i t ht
    have hne : i ≠ i₀ := by
      rintro rfl
      cases hs with
      | start _ _ hn =>
        rw [hn] at ht
        cases ht
    simp [hne]
  | handle hs => exact ⟨hs.later, fun _ _ _ => rfl, fun _ _ _ h _ => h⟩
  | leave j₀ call₀ hj₀ hn hh =>
    refine ⟨.refl _, fun _ _ _ => rfl, ?_⟩
    intro j call r hj hr
    have hne : j ≠ j₀ := by
      rintro rfl
      cases hj₀.symm.trans hj
      rw [hn] at hr
      cases hr
    simpa [hne] using hj

theorem grows_of_steps (h : Relation.ReflTransGen (Step X key) N N') : N.Grows N' := by
  induction h with
  | refl => exact .refl N
  | tail _ hstep ih => exact ih.trans hstep.grows

theorem Reachable.steps (h : Reachable X key N) (hs : Relation.ReflTransGen (Step X key) N N') :
    Reachable X key N' := by
  induction hs with
  | refl => exact h
  | tail _ hstep ih => exact ih.step hstep

theorem Hears.grows {j : ℕ} {reply : Reply} (h : N.Hears X j reply) (hg : N.Grows N') :
    N'.Hears X j reply := by
  cases h with
  | failure hf => exact .failure hf
  | response i hi ht =>
    obtain ⟨f, ht', hf⟩ := hg.verifier.done ht
    rw [hf rfl] at ht'
    exact .response i ((hg.sender i _ ht).trans hi) ht'

/-- A call that returned heard a reply, and went by it. -/
def Told (X : Crates) (N : Network) : Prop :=
  ∀ j call r, N.calls j = some call → call.result = some r →
    ∃ reply, N.Hears X j reply ∧ r = call.run X reply

theorem Told.step (h : Told X N) (hstep : Step X key N N') : Told X N' := by
  have hg := hstep.grows
  have hold {j : ℕ} {call : EvaluateCall} {r : Decision × AuditEvent}
      (hj : N.calls j = some call) (hr : call.result = some r) :
      ∃ reply, N'.Hears X j reply ∧ r = call.run X reply := by
    obtain ⟨reply, hh, he⟩ := h j call r hj hr
    exact ⟨reply, hh.grows hg, he⟩
  intro j call r hj hr
  cases hstep with
  | enter j₀ call₀ hn hres =>
    by_cases hjj : j = j₀
    · subst hjj
      simp only [Function.update_self, Option.some.injEq] at hj
      subst hj
      rw [hres] at hr
      cases hr
    · simp only [Function.update_of_ne hjj] at hj
      exact hold hj hr
  | arrive => exact hold hj hr
  | handle => exact hold hj hr
  | @leave reply j₀ call₀ hj₀ hn hh =>
    by_cases hjj : j = j₀
    · subst hjj
      simp only [Function.update_self, Option.some.injEq] at hj
      subst hj
      cases hr
      exact ⟨reply, hh.grows hg, rfl⟩
    · simp only [Function.update_of_ne hjj] at hj
      exact hold hj hr

theorem Reachable.told (h : Reachable X key N) : Told X N := by
  induction h with
  | init =>
    intro j call r hj
    cases hj
  | step _ hstep ih => exact ih.step hstep

/-- The ALLOW behind a Continue of the call `j`: the handler `i` of the request
    that the call sent decided it, for the claims `c`, and the audit event has
    its receipt. -/
structure Backed (X : Crates) (key : List UInt8) (N : Network) (j : ℕ) (call : EvaluateCall)
    (r : Decision × AuditEvent) (i : ℕ) (c : Claims) : Prop where
  sender : N.sender i = some j
  claims : ∃ wire, call.sent X = some wire ∧ tokenClaims X key wire = some c
  allowed : Allowed X N.verifier i c
  reasonCode : r.2.reasonCode = Reason.ok
  receiptId : r.2.receiptId = some ("rcpt-" ++ c.jti)

theorem Reachable.backed (h : Reachable X key N) {j : ℕ} {call : EvaluateCall}
    {r : Decision × AuditEvent} (hj : N.calls j = some call) (hr : call.result = some r)
    (hu : Unmarked r) : ∃ i c, N.Backed X key j call r i c := by
  obtain ⟨reply, hh, rfl⟩ := h.told j call r hj hr
  obtain ⟨hsent, v, hv, ha⟩ := unmarked_run_iff.1 hu
  obtain ⟨hcode, hrec, -⟩ := reports_run hsent hv
  cases hh with
  | failure hf =>
    rw [Reply.verdict_iff.1 hv] at hf
    cases hf
  | @response i _ v' hi ht =>
    obtain ⟨call', wire, now, t, hj', hw, ht', hcall⟩ := h.inv.sent i j hi
    cases hj.symm.trans hj'
    cases ht.symm.trans ht'
    cases hcall
    obtain ⟨es, hrun⟩ := h.inv.run
    obtain ⟨hst, hle⟩ := staged_of_run (staged_init X (.new key)) hrun
    have hkey : N.verifier.shared.key = key := hle.key
    have ha' : v'.decision = .allow := (decision_of_outcome (Reply.verdict_iff.1 hv)).symm.trans ha
    rcases (hst i _ ht).done_cases with
      ⟨now', req, c, hc, he, hp, -⟩ | ⟨_, _, w, -, he, hd, -⟩ | ⟨_, hc, -, -⟩
    · cases hc
      cases he
      rw [AuthorizeResponse.decode_toJson _ (lossless_allow c)] at hv
      have hvv : (Reply.response .ok (.ok (allow c))).Verdict (allow c) := .decoded rfl
      have hve := (Reply.verdict_iff.1 hv).symm.trans (Reply.verdict_iff.1 hvv)
      rw [VerifierOutcome.verdict.injEq] at hve
      subst hve
      refine ⟨i, c, hi, ⟨wire, hw, hkey ▸ hp.claims⟩, ?_, hcode, hrec⟩
      exact ⟨_, _, _, _, ht, rfl, hp.claims⟩
    · cases he
      rw [ha'] at hd
      cases hd
    · cases hc

/-- No handler decides ALLOW for the nonce of another one. -/
theorem Reachable.allowed_unique (h : Reachable X key N) {i j : ℕ} {c d : Claims}
    (hi : Allowed X N.verifier i c) (hj : Allowed X N.verifier j d) (he : c.jti = d.jti) :
    i = j := by
  obtain ⟨es, hrun⟩ := h.inv.run
  exact ExtAuthz.allowed_unique (s := .new key) hrun hi hj he

theorem Grows.allowed (hg : N.Grows N') (hk : N'.verifier.shared.key = N.verifier.shared.key)
    {i : ℕ} {c : Claims} (h : Allowed X N.verifier i c) : Allowed X N'.verifier i c := by
  obtain ⟨now, req, v, f, ht, hv, hc⟩ := h
  obtain ⟨f', ht', -⟩ := hg.verifier.done ht
  exact ⟨now, req, v, f', ht', hv, hk ▸ hc⟩

theorem Reachable.verifier_key (h : Reachable X key N) : N.verifier.shared.key = key := by
  obtain ⟨es, hrun⟩ := h.inv.run
  obtain ⟨-, hle⟩ := staged_of_run (staged_init X (.new key)) hrun
  exact hle.key

end Network

theorem receipt_inj {c d : Claims}
    (h : some ("rcpt-" ++ c.jti) = some ("rcpt-" ++ d.jti)) : c.jti = d.jti := by
  simpa using h

/-- **The audit trail**: on every network, of middlewares in any mode and under
    any policy, a Continue that the audit event does not mark is backed by an
    ALLOW for the request that the call sent, and no other handler decided ALLOW
    with its nonce.  A mark tells what made the middleware continue without one,
    and no receipt is in the audit events of two unmarked calls. -/
theorem trail {X : Crates} {key : List UInt8} {N : Network} (h : Network.Reachable X key N) :
    (∀ j call r, N.calls j = some call → call.result = some r → r.1.isAllow = true →
      (r.2.degraded = true ∧
          (call.middleware.cfg.mode = .observe ∨ call.middleware.cfg.fail = .open)) ∨
        (r.2.wouldDeny = true ∧ call.middleware.cfg.mode = .observe) ∨
        ∃ i c, N.Backed X key j call r i c ∧
          ∀ i' c', Allowed X N.verifier i' c' → c'.jti = c.jti → i' = i) ∧
    ∀ j j' call call' r r', N.calls j = some call → N.calls j' = some call' →
      call.result = some r → call'.result = some r' → Unmarked r → Unmarked r' →
      r.2.receiptId = r'.2.receiptId → j = j' := by
  constructor
  · intro j call r hj hr ha
    obtain ⟨reply, -, he⟩ := h.told j call r hj hr
    have hm := run_marks (he ▸ ha)
    rw [← he] at hm
    cases hd : r.2.degraded with
    | true => exact .inl ⟨rfl, hm.1 hd⟩
    | false =>
      cases hw : r.2.wouldDeny with
      | true => exact .inr (.inl ⟨rfl, hm.2 hw⟩)
      | false =>
        obtain ⟨i, c, hb⟩ := h.backed hj hr ⟨ha, hd, hw⟩
        exact .inr (.inr ⟨i, c, hb, fun _ _ hi' he => h.allowed_unique hi' hb.allowed he⟩)
  · intro j j' call call' r r' hj hj' hr hr' hu hu' he
    obtain ⟨i, c, hb⟩ := h.backed hj hr hu
    obtain ⟨i', c', hb'⟩ := h.backed hj' hr' hu'
    rw [hb.receiptId, hb'.receiptId] at he
    cases h.allowed_unique hb.allowed hb'.allowed (receipt_inj he)
    exact Option.some.inj (hb.sender.symm.trans hb'.sender)

/-- On the network of the happy path, the Continue has its receipt, from the only
    handler that decided ALLOW with its nonce. -/
theorem trail_happy : ∃ N call r i, Network.Reachable Driver.happy.crates Driver.key N ∧
    N.calls 0 = some call ∧ call.result = some r ∧
    N.Backed Driver.happy.crates Driver.key 0 call r i Driver.happy.claims ∧
    ∀ i' c', Allowed Driver.happy.crates N.verifier i' c' → c'.jti = "jti-happy" → i' = i := by
  obtain ⟨N, hN, call, r, token, hj, he, hr, ha, hh, hv⟩ := Driver.happy_network
  rcases (trail hN).1 0 call r hj hr ha with
    ⟨-, hm | hf⟩ | ⟨-, hm⟩ | ⟨i, c, hb, hone⟩
  · rw [he.mode] at hm
    cases hm
  · rw [he.fail] at hf
    cases hf
  · rw [he.mode] at hm
    cases hm
  · obtain ⟨wire, hw, hc⟩ := hb.claims
    obtain ⟨token', hh', -, rfl⟩ := EvaluateCall.sent_eq_some.1 hw
    rw [he.tokenHeader, hh] at hh'
    cases hh'
    rw [tokenClaims_wire _ _ _ _ _ he.tokenHeader, hv] at hc
    cases hc
    exact ⟨N, call, r, i, hN, hj, hr, hb, hone⟩

/-! ## Lost verdicts -/

/-- **A nonce is spent at most once, and not always with effect**: when a handler
    has decided ALLOW, and the call that it served, if it was one of these,
    returned without an unmarked Continue (its verdict was lost, say), no call
    ever continues with the receipt of the nonce. -/
theorem lost_allow {X : Crates} {key : List UInt8} {N N' : Network} {i : ℕ} {c : Claims}
    (h : Network.Reachable X key N) (hi : Allowed X N.verifier i c)
    (hlost : ∀ j, N.sender i = some j →
      ∃ call r, N.calls j = some call ∧ call.result = some r ∧ ¬ Unmarked r)
    (hs : Relation.ReflTransGen (Network.Step X key) N N') {j' : ℕ} {call' : EvaluateCall}
    {r' : Decision × AuditEvent} (hj' : N'.calls j' = some call') (hr' : call'.result = some r')
    (hu : Unmarked r') : r'.2.receiptId ≠ some ("rcpt-" ++ c.jti) := by
  intro he
  have hg := Network.grows_of_steps hs
  have h' := h.steps hs
  have hi' := hg.allowed (h'.verifier_key.trans h.verifier_key.symm) hi
  obtain ⟨i', c', hb⟩ := h'.backed hj' hr' hu
  -- the handler that backs the call is the one that spent the nonce
  cases h'.allowed_unique hb.allowed hi' (receipt_inj (hb.receiptId.symm.trans he))
  obtain ⟨now, req, v, f, ht, -⟩ := hi
  obtain ⟨call, r, hj, hr, hn⟩ := hlost j' ((hg.sender _ _ ht).symm.trans hb.sender)
  cases hj'.symm.trans (hg.result j' call r hj hr)
  cases hr'.symm.trans hr
  exact hn hu

namespace Driver

/-- The verifier does not answer in time. -/
def timedOut : Reply := .error ⟨true, false, false, none, false⟩

theorem happyCall_timedOut : (happyCall.run happy.crates timedOut).1.isAllow = false := by
  rw [← Bool.not_eq_true, run_isAllow_enforce rfl]
  rintro ⟨-, ⟨v, hv, -⟩ | ⟨-, ho⟩⟩
  · cases hv
  · cases ho

end Driver

/-- The happy path, with the response lost on the way: the call is denied, and no
    call continues with its receipt any more. -/
theorem lost_allow_happy : ∃ N call r, Network.Reachable Driver.happy.crates Driver.key N ∧
    N.calls 0 = some call ∧ call.result = some r ∧ r.1.isAllow = false ∧
    ∀ N' j' call' r', Relation.ReflTransGen (Network.Step Driver.happy.crates Driver.key) N N' →
      N'.calls j' = some call' → call'.result = some r' → Unmarked r' →
      r'.2.receiptId ≠ some ("rcpt-" ++ Driver.happy.claims.jti) := by
  have hself {C : VerifierConfig} {i : ℕ} {t : Thread VerifierCall VerifierOp Bool VerifierAnswer}
      {s : VerifierState} : (C.set i t s).threads i = some t := Config.set_threads_self _ _ _ _
  have hcalled : Network.Reachable Driver.happy.crates Driver.key _ :=
    Network.Reachable.init.step (.enter 0 Driver.happyCall rfl rfl)
  have harrived := hcalled.step (.arrive 0 0 Driver.now rfl
    Driver.happyCall_sent (extractRequest_toJson Driver.happy_fitsLimit)
    (step_authorize rfl Driver.happy_principalBound))
  have hchecked := harrived.step (.handle (step_check hself
    (by simp [Network.init, VerifierState.new]) Driver.happy_intentBound))
  have hconsumed := hchecked.step (.handle (step_consume hself
    (by simp [Network.init, VerifierState.new])))
  have hheard (N : Network) : N.Hears Driver.happy.crates 0 Driver.timedOut := .failure rfl
  have hleft := hconsumed.step (.leave 0 Driver.happyCall rfl rfl (hheard _))
  refine ⟨_, _, _, hleft, rfl, rfl, Driver.happyCall_timedOut, ?_⟩
  intro N' j' call' r' hs hj' hr' hu
  refine lost_allow (i := 0) hleft ⟨_, _, _, _, hself, rfl, ?_⟩ ?_ hs hj' hr' hu
  · exact Driver.happy.tokenClaims_wire
  intro j hj
  cases hj
  refine ⟨_, _, rfl, rfl, fun hu => ?_⟩
  have ha := hu.isAllow
  rw [Driver.happyCall_timedOut] at ha
  cases ha

end ExtAuthz
