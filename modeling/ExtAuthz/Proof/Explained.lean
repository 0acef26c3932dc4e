/-
  Why a call ends as it does, on a whole network.

  A call that heard a verdict reports the answer of one handler of its own
  request (`Network.Reachable.heard`), and what the other parties did since the
  call entered explains this answer (`audit_explained`).  They cannot keep it from
  an answer (`never_stuck`), and a call with a good token that none of them gets in
  the way of is not denied (`no_false_denial`); one with a token of a revoked agent
  is (`revoked_everywhere`).  Its own request may get in its way, though: the
  network delivers it twice, and the first answer is lost (`duplicate_denied`).
-/
import ExtAuthz.Proof.Answers
import ExtAuthz.Proof.Trail

namespace ExtAuthz

open Json Interleave

theorem EvaluateCall.sent_result {X : Crates} (call : EvaluateCall)
    (r : Option (Decision × AuditEvent)) : EvaluateCall.sent X { call with result := r } =
      call.sent X := rfl

namespace Network

/-- Why the handler `i` answers `v` to a call that entered after `N₁`: it is what
    the verifier would have answered then, or someone has revoked the agent or
    spent the nonce since. -/
inductive Cause (X : Crates) (N₁ N : Network) (i : ℕ) (now : Int64) (wire : AuthorizeRequest) :
    AuthorizeResponse → Prop
  | before : Cause X N₁ N i now wire (N₁.verifier.shared.authorize X now wire).1
  | revoked {c} : tokenClaims X N₁.verifier.shared.key wire = some c →
      RevokedSince N₁.verifier N.verifier c.agentId → Cause X N₁ N i now wire revokedVerdict
  | replayed {c} : (N₁.verifier.shared.authorize X now wire).1 = allow c →
      SpentSince X N₁.verifier N.verifier i c.jti → Cause X N₁ N i now wire replayedVerdict

variable {X : Crates} {key : List UInt8} {N N' N₁ : Network} {i j : ℕ} {call : EvaluateCall}
  {r : Decision × AuditEvent} {wire : AuthorizeRequest} {c : Claims}

theorem Step.run (h : Step X key N N') :
    ∃ es, Run (ExtAuthz.verifier X key) N.verifier es N'.verifier := by
  cases h with
  | enter => exact ⟨[], .nil⟩
  | arrive i j now hj hw hx hs => exact ⟨_, Run.nil.snoc hs⟩
  | handle hs => exact ⟨_, Run.nil.snoc hs⟩
  | leave => exact ⟨[], .nil⟩

/-- What the verifier does in a run of the network is a run of the verifier. -/
theorem run_of_steps (h : Relation.ReflTransGen (Step X key) N N') :
    ∃ es, Run (ExtAuthz.verifier X key) N.verifier es N'.verifier := by
  induction h with
  | refl => exact ⟨[], .nil⟩
  | tail _ hstep ih =>
    obtain ⟨es, hr⟩ := ih
    obtain ⟨es', hr'⟩ := hstep.run
    exact ⟨_, hr.append hr'⟩

theorem Reachable.threads_eq_none (h : Reachable X key N₁)
    (hs : Relation.ReflTransGen (Step X key) N₁ N) (hn : N₁.calls j = none)
    (hi : N.sender i = some j) : N₁.verifier.threads i = none := by
  by_contra ht
  obtain ⟨t, ht⟩ := Option.ne_none_iff_exists'.1 ht
  rw [(grows_of_steps hs).sender i t ht] at hi
  obtain ⟨call, _, _, _, hj, -⟩ := h.inv.sent i j hi
  rw [hn] at hj
  cases hj

theorem Reachable.cause (h : Reachable X key N₁) (hs : Relation.ReflTransGen (Step X key) N₁ N)
    (hn : N₁.verifier.threads i = none) {now : Int64} {v : AuthorizeResponse} {f : Bool}
    (ht : N.verifier.threads i = some ⟨.authorize now wire, .done (.verdict v), f⟩) :
    Cause X N₁ N i now wire v := by
  obtain ⟨es, h₁⟩ := h.inv.run
  obtain ⟨es', h₂⟩ := run_of_steps hs
  rcases verdict_explained (s := .new key) h₁ h₂ hn ht with
    rfl | ⟨rfl, c, hc, hrev⟩ | ⟨rfl, c, ha, hspent⟩
  · exact .before
  · exact .revoked (h.verifier_key.symm ▸ hc) hrev
  · exact .replayed ha hspent

theorem Reachable.from_init (h : Reachable X key N) :
    Relation.ReflTransGen (Step X key) (.init (.new key)) N := by
  induction h with
  | init => exact .refl
  | step _ hstep ih => exact ih.tail hstep

theorem Cause.verdict {now : Int64} {v : AuthorizeResponse} (h : Cause X N₁ N i now wire v) :
    (Reply.response .ok (AuthorizeResponse.decode X.values v.toJson)).Verdict v := by
  have hv : v.Lossless := by
    cases h with
    | before => exact lossless_authorize X _ now wire
    | revoked => exact lossless_deny _ _
    | replayed => exact lossless_deny _ _
  rw [AuthorizeResponse.decode_toJson _ hv]
  exact .decoded rfl

/-- A call that heard a verdict reports the answer of a handler of its own. -/
theorem Reachable.heard (h : Reachable X key N) (hj : N.calls j = some call)
    (hr : call.result = some r) (hw : call.sent X = some wire) (hd : r.2.degraded = false) :
    ∃ i now v, N.sender i = some j ∧
      N.verifier.threads i = some ⟨.authorize now wire, .done (.verdict v), true⟩ ∧
      Reports r v := by
  obtain ⟨reply, hh, rfl⟩ := h.told j call r hj hr
  have hsent : (call.sent X).isSome = true := by
    rw [hw]
    rfl
  have hnf : ¬ reply.Failed := by
    intro hf
    rw [run_roundTrip.2.2.2 ⟨hsent, hf⟩] at hd
    cases hd
  cases hh with
  | failure hf => exact absurd (Reply.failed_iff.2 hf) hnf
  | @response i _ v hi ht =>
    obtain ⟨call', wire', now, t, hj', hw', ht', hcall⟩ := h.inv.sent i j hi
    cases hj.symm.trans hj'
    cases hw.symm.trans hw'
    cases ht.symm.trans ht'
    cases hcall
    have hcause := Reachable.init.cause h.from_init rfl ht
    exact ⟨i, now, v, hi, ht, reports_run hsent hcause.verdict⟩

end Network

/-! ## Runs without other parties -/

namespace Network

/-- The handler `i` answers a request of the call `j`, and nothing else happens. -/
structure Answered (X : Crates) (key : List UInt8) (N : Network) (j i : ℕ) (now : Int64)
    (wire : AuthorizeRequest) (r : AuthorizeResponse × VerifierState) (N' : Network) : Prop where
  steps : Relation.ReflTransGen (Step X key) N N'
  calls : N'.calls = N.calls
  sender : N'.sender = Function.update N.sender i (some j)
  answer : N'.verifier.threads i = some ⟨.authorize now wire, .done (.verdict r.1), true⟩
  shared : N'.verifier.shared = r.2
  frame : ∀ k, k ≠ i → N'.verifier.threads k = N.verifier.threads k

variable {X : Crates} {key : List UInt8} {N : Network} {i j : ℕ} {call : EvaluateCall}
  {wire : AuthorizeRequest}

/-- The verifier can do on a network what it can do alone. -/
theorem steps_of_run {es : List VerifierEvent} {C : VerifierConfig}
    (h : Run (ExtAuthz.verifier X key) N.verifier es C) :
    Relation.ReflTransGen (Step X key) N { N with verifier := C } := by
  induction h with
  | nil => exact .refl
  | snoc _ hstep ih => exact ih.tail (.handle hstep)

theorem exists_answered (hk : N.verifier.shared.key = key) (hj : N.calls j = some call)
    (hw : call.sent X = some wire) (hl : wire.FitsLimit) (hi : N.verifier.threads i = none)
    (now : Int64) :
    ∃ N', Answered X key N j i now wire (N.verifier.shared.authorize X now wire) N' := by
  subst hk
  have hstart : Interleave.Step (ExtAuthz.verifier X N.verifier.shared.key) N.verifier
    (.start i (.authorize now wire)) _ := .start i _ hi
  have harrive := Step.arrive i j now hj hw (extractRequest_toJson hl) hstart
  obtain ⟨es, C, halone⟩ := exists_alone_of_threads (O := ExtAuthz.verifier X N.verifier.shared.key)
    (Config.set_threads_self N.verifier i ⟨.authorize now wire,
      (ExtAuthz.verifier X N.verifier.shared.key).body (.authorize now wire), false⟩
      N.verifier.shared)
  have hrun := verifier_run_authorize X N.verifier.shared now wire
  rw [Object.run] at hrun
  rw [Config.set_shared, hrun] at halone
  refine ⟨_, .head harrive (steps_of_run halone.run), rfl, rfl, halone.answer, halone.shared, ?_⟩
  intro k hk
  exact (halone.frame k hk).trans (Config.set_threads_ne _ _ _ _ hk)

theorem exists_reported (h : Reachable X key N) (hj : N.calls j = some call)
    (hr : call.result = none) (hw : call.sent X = some wire) (hi : N.sender i = some j)
    {now : Int64} {v : AuthorizeResponse}
    (ht : N.verifier.threads i = some ⟨.authorize now wire, .done (.verdict v), true⟩) :
    ∃ r, Step X key N { N with
        calls := Function.update N.calls j (some { call with result := some r }) } ∧
      Reports r v ∧ r.2.degraded = false := by
  have hcause := Reachable.init.cause h.from_init rfl ht
  have hsent : (call.sent X).isSome = true := by
    rw [hw]
    rfl
  refine ⟨_, .leave j call hj hr (.response i hi ht), reports_run hsent hcause.verdict, ?_⟩
  rw [← Bool.not_eq_true]
  exact fun hd => (run_roundTrip.2.2.1 hd).2.not_verdict v hcause.verdict

theorem Reachable.exists_free (h : Reachable X key N) (k : ℕ) :
    ∃ i, i ≠ k ∧ N.verifier.threads i = none := by
  obtain ⟨es, hrun⟩ := h.inv.run
  obtain ⟨i, hi⟩ := (hrun.finite_threads.insert k).exists_notMem
  simp only [Set.mem_insert_iff, Set.mem_ofPred_eq, not_or, not_not] at hi
  exact ⟨i, hi⟩

end Network

/-- **No call is ever stuck**: in any network, whatever the other calls and the
    handlers in flight are at, a call that has sent its request can return with
    what the verifier answers now, while nobody else takes a step. -/
theorem never_stuck {X : Crates} {key : List UInt8} {N : Network}
    (h : Network.Reachable X key N) {j : ℕ} {call : EvaluateCall} {wire : AuthorizeRequest}
    (hj : N.calls j = some call) (hr : call.result = none) (hw : call.sent X = some wire)
    (hl : wire.FitsLimit) (now : Int64) :
    ∃ N' r i, Relation.ReflTransGen (Network.Step X key) N N' ∧
      N'.calls = Function.update N.calls j (some { call with result := some r }) ∧
      N'.verifier.shared = (N.verifier.shared.authorize X now wire).2 ∧
      N.verifier.threads i = none ∧
      (∀ k, k ≠ i → N'.verifier.threads k = N.verifier.threads k) ∧
      Reports r (N.verifier.shared.authorize X now wire).1 ∧ r.2.degraded = false := by
  obtain ⟨i, -, hi⟩ := h.exists_free 0
  obtain ⟨N₁, h₁⟩ := Network.exists_answered h.verifier_key hj hw hl hi now
  have hj₁ : N₁.calls j = some call := by rw [h₁.calls, hj]
  obtain ⟨r, hleave, hrep, hd⟩ := Network.exists_reported (h.steps h₁.steps) hj₁ hr hw
    (by rw [h₁.sender, Function.update_self]) h₁.answer
  refine ⟨_, r, i, h₁.steps.tail hleave, ?_, h₁.shared, hi, h₁.frame, hrep, hd⟩
  rw [h₁.calls]

theorem never_stuck_happy : ∃ N N' r, Network.Reachable Driver.happy.crates Driver.key N ∧
    Relation.ReflTransGen (Network.Step Driver.happy.crates Driver.key) N N' ∧
    N'.calls 0 = some { Driver.happyCall with result := some r } ∧ Unmarked r := by
  have h₀ : Network.Reachable Driver.happy.crates Driver.key _ :=
    .step .init (.enter 0 Driver.happyCall rfl rfl)
  obtain ⟨N', r, i, hs, hcalls, -, -, -, hrep, -⟩ := never_stuck h₀ (Function.update_self _ _ _) rfl
    Driver.happyCall_sent Driver.happy_fitsLimit Driver.now
  refine ⟨_, N', r, h₀, hs, by rw [hcalls, Function.update_self], hrep.unmarked.2 ?_⟩
  rw [Network.init, Config.init_shared, VerifierState.authorize_of_bound Driver.happy_principalBound
    (by simp [VerifierState.new]) Driver.happy_intentBound (by simp [VerifierState.new])]
  rfl

namespace Driver

/-- The happy path, answered and reported, and nothing else. -/
theorem reported_network : ∃ N call r, Network.Reachable happy.crates key N ∧
    N.calls 0 = some call ∧ call.result = some r ∧ call.sent happy.crates = some happy.wire ∧
    Reports r (allow happy.claims) ∧
    (∀ i, N.sender i = some 0 → i = 0) ∧
    N.verifier.threads 0 =
      some ⟨.authorize now happy.wire, .done (.verdict (allow happy.claims)), true⟩ ∧
    ∀ k, k ≠ 0 → N.verifier.threads k = none := by
  have h₀ : Network.Reachable happy.crates key _ := .step .init (.enter 0 happyCall rfl rfl)
  obtain ⟨N, h⟩ := Network.exists_answered (i := 0) h₀.verifier_key (Function.update_self _ _ _)
    happyCall_sent happy_fitsLimit rfl now
  rw [Network.init, Config.init_shared, VerifierState.authorize_of_bound happy_principalBound
    (by simp [VerifierState.new]) happy_intentBound (by simp [VerifierState.new])] at h
  have hj : N.calls 0 = some happyCall := by
    rw [h.calls]
    rfl
  obtain ⟨r, hleave, hrep, -⟩ := Network.exists_reported (h₀.steps h.steps) hj rfl happyCall_sent
    (by rw [h.sender, Function.update_self]) h.answer
  refine ⟨_, _, r, (h₀.steps h.steps).step hleave, by simp, rfl,
    (EvaluateCall.sent_result _ _).trans happyCall_sent, hrep, ?_, h.answer,
    fun k hk => h.frame k hk⟩
  intro i hi
  by_contra hne
  rw [h.sender, Function.update_of_ne hne] at hi
  cases hi

end Driver

/-! ## Reasons -/

/-- **The audit trail gives the reasons**: a call that heard a verdict reports
    the answer of a handler of its own request.  This is what the verifier would
    have answered when the call entered, or that the agent is revoked, and since
    then someone has revoked it, or that the nonce is consumed, and since then
    someone else was given the ALLOW with it. -/
theorem audit_explained {X : Crates} {key : List UInt8} {N₁ N : Network}
    (h : Network.Reachable X key N₁) (hs : Relation.ReflTransGen (Network.Step X key) N₁ N)
    {j : ℕ} {call : EvaluateCall} {r : Decision × AuditEvent} {wire : AuthorizeRequest}
    (hn : N₁.calls j = none) (hj : N.calls j = some call) (hr : call.result = some r)
    (hw : call.sent X = some wire) (hd : r.2.degraded = false) :
    ∃ i now v, N.sender i = some j ∧
      N.verifier.threads i = some ⟨.authorize now wire, .done (.verdict v), true⟩ ∧
      Reports r v ∧ Network.Cause X N₁ N i now wire v := by
  obtain ⟨i, now, v, hi, ht, hrep⟩ := (h.steps hs).heard hj hr hw hd
  exact ⟨i, now, v, hi, ht, hrep, h.cause hs (h.threads_eq_none hs hn hi) ht⟩

theorem audit_explained_happy : ∃ N r i now v,
    Network.Reachable Driver.happy.crates Driver.key N ∧ Reports r v ∧
    Network.Cause Driver.happy.crates (.init (.new Driver.key)) N i now Driver.happy.wire v := by
  obtain ⟨N, call, r, hN, hj, hr, hw, hrep, -⟩ := Driver.reported_network
  obtain ⟨i, now, v, -, -, hv, hcause⟩ := audit_explained .init hN.from_init rfl hj hr hw
    (hrep.unmarked.2 rfl).degraded
  exact ⟨N, r, i, now, v, hN, hv, hcause⟩

/-- **No false denial**: a call with a good token that heard a verdict continues
    with its receipt, if nobody has revoked its agent since it entered and no
    other handler was given the ALLOW with its nonce. -/
theorem no_false_denial {X : Crates} {key : List UInt8} {N₁ N : Network}
    (h : Network.Reachable X key N₁) (hs : Relation.ReflTransGen (Network.Step X key) N₁ N)
    {j : ℕ} {call : EvaluateCall} {r : Decision × AuditEvent} {wire : AuthorizeRequest}
    {c : Claims} (hn : N₁.calls j = none) (hj : N.calls j = some call)
    (hr : call.result = some r) (hw : call.sent X = some wire) (hd : r.2.degraded = false)
    (hclock : ∀ i now p f, N.sender i = some j →
      N.verifier.threads i = some ⟨.authorize now wire, p, f⟩ → PrincipalBound X key now wire c)
    (hi : IntentBound c wire) (ha : c.agentId ∉ N₁.verifier.shared.revokedAgents)
    (hj₁ : c.jti ∉ N₁.verifier.shared.seenJti)
    (hrev : ¬ RevokedSince N₁.verifier N.verifier c.agentId)
    (hspent : ∀ i, N.sender i = some j → ¬ SpentSince X N₁.verifier N.verifier i c.jti) :
    Unmarked r ∧ r.2.reasonCode = Reason.ok ∧ r.2.receiptId = some ("rcpt-" ++ c.jti) := by
  obtain ⟨i, now, v, hij, ht, hrep⟩ := (h.steps hs).heard hj hr hw hd
  have hcause := h.cause hs (h.threads_eq_none hs hn hij) ht
  have hp := hclock i now _ _ hij ht
  have hallow : (N₁.verifier.shared.authorize X now wire).1 = allow c := by
    rw [VerifierState.authorize_of_bound (h.verifier_key.symm ▸ hp) ha hi hj₁]
  cases hcause with
  | before =>
    rw [hallow] at hrep
    exact ⟨hrep.unmarked.2 rfl, hrep.reasonCode, hrep.receiptId⟩
  | revoked hc hsince =>
    rw [h.verifier_key] at hc
    cases hp.claims.symm.trans hc
    exact absurd hsince hrev
  | replayed hd hsince =>
    have hjti := receipt_inj (congrArg AuthorizeResponse.receiptId (hallow.symm.trans hd))
    exact absurd (hjti ▸ hsince) (hspent i hij)

theorem no_false_denial_happy : ∃ N call r, Network.Reachable Driver.happy.crates Driver.key N ∧
    N.calls 0 = some call ∧ call.result = some r ∧ Unmarked r ∧
    r.2.receiptId = some ("rcpt-" ++ Driver.happy.claims.jti) := by
  obtain ⟨N, call, r, hN, hj, hr, hw, hrep, hsender, ht, hframe⟩ := Driver.reported_network
  have hclock (i : ℕ) (now : Int64) (p : VerifierProg) (f : Bool) (hi : N.sender i = some 0)
      (hti : N.verifier.threads i = some ⟨.authorize now Driver.happy.wire, p, f⟩) :
      PrincipalBound Driver.happy.crates Driver.key now Driver.happy.wire Driver.happy.claims := by
    cases hsender i hi
    cases ht.symm.trans hti
    exact Driver.happy_principalBound
  have hrev (a : String) :
      ¬ RevokedSince (Network.init (.new Driver.key)).verifier N.verifier a := by
    rintro ⟨k, f, hk, -⟩
    by_cases hk₀ : k = 0
    · rw [hk₀, ht] at hk
      cases hk
    · rw [hframe k hk₀] at hk
      cases hk
  have hspent (i : ℕ) (jti : String) (hi : N.sender i = some 0) :
      ¬ SpentSince Driver.happy.crates (Network.init (.new Driver.key)).verifier N.verifier i
        jti := by
    rintro ⟨k, d, hne, ⟨_, _, _, _, hk, -⟩, -⟩
    cases hsender i hi
    rw [hframe k hne] at hk
    cases hk
  obtain ⟨hu, -, hrec⟩ := no_false_denial .init hN.from_init rfl hj hr hw
    (hrep.unmarked.2 rfl).degraded hclock Driver.happy_intentBound
    (by simp [Network.init, VerifierState.new]) (by simp [Network.init, VerifierState.new])
    (hrev _) fun i hi => hspent i _ hi
  exact ⟨N, call, r, hN, hj, hr, hu, hrec⟩

/-! ## Revocation -/

theorem unmarked_of_closed {X : Crates} {call : EvaluateCall} {reply : Reply}
    (hm : call.middleware.cfg.mode = .enforce) (hf : call.middleware.cfg.fail = .closed)
    (ha : (call.run X reply).1.isAllow = true) : Unmarked (call.run X reply) := by
  obtain ⟨hd, hw⟩ := run_marks ha
  refine ⟨ha, ?_, ?_⟩
  · rw [← Bool.not_eq_true]
    intro h
    rcases hd h with ho | ho
    · rw [hm] at ho
      cases ho
    · rw [hf] at ho
      cases ho
  · rw [← Bool.not_eq_true]
    intro h
    have ho := hw h
    rw [hm] at ho
    cases ho

/-- **A revocation reaches every middleware**: once it is decided, no call that
    enters later continues unmarked on a token of the agent, and none at all that
    enforces and fails closed.  If it heard a verdict, and nothing is wrong with
    the token itself, the audit event says that the agent is revoked. -/
theorem revoked_everywhere {X : Crates} {key : List UInt8} {N₁ N : Network}
    (h : Network.Reachable X key N₁) (hs : Relation.ReflTransGen (Network.Step X key) N₁ N)
    {k j : ℕ} {c : Claims} {ans : VerifierAnswer} {f : Bool} {call : EvaluateCall}
    {r : Decision × AuditEvent} {wire : AuthorizeRequest}
    (hk : N₁.verifier.threads k = some ⟨.revoke c.agentId, .done ans, f⟩)
    (hn : N₁.calls j = none) (hj : N.calls j = some call) (hr : call.result = some r)
    (hw : call.sent X = some wire) (hc : tokenClaims X key wire = some c) :
    ¬ Unmarked r ∧
      (call.middleware.cfg.mode = .enforce → call.middleware.cfg.fail = .closed →
        r.1.isAllow = false) ∧
      (r.2.degraded = false →
        (∀ i now p f', N.sender i = some j →
          N.verifier.threads i = some ⟨.authorize now wire, p, f'⟩ →
          PrincipalBound X key now wire c) →
        r.2.reasonCode = Reason.agentRevoked) := by
  obtain ⟨es, hrun⟩ := h.inv.run
  have hrev := revoked_of_done (staged_of_run (staged_init X (.new key)) hrun).1 hk
  have hmark : ¬ Unmarked r := by
    intro hu
    obtain ⟨i, now, v, hi, ht, hrep⟩ := (h.steps hs).heard hj hr hw hu.degraded
    have hallow := hrep.unmarked.1 hu
    have hcause := h.cause hs (h.threads_eq_none hs hn hi) ht
    cases hcause with
    | before =>
      obtain ⟨c', hp, hnot, -⟩ := VerifierState.authorize_allow_iff.1 hallow
      have hc' := hp.claims
      rw [h.verifier_key, hc] at hc'
      cases hc'
      exact hnot hrev
    | revoked => cases hallow
    | replayed => cases hallow
  refine ⟨hmark, ?_, ?_⟩
  · intro hm hf
    obtain ⟨reply, -, rfl⟩ := (h.steps hs).told j call r hj hr
    rw [← Bool.not_eq_true]
    exact fun ha => hmark (unmarked_of_closed hm hf ha)
  · intro hd hclock
    obtain ⟨i, now, v, hi, ht, hrep⟩ := (h.steps hs).heard hj hr hw hd
    have hp := hclock i now _ _ hi ht
    have hbefore := authorize_of_revoked (s := N₁.verifier.shared) (h.verifier_key.symm ▸ hp) hrev
    have hcause := h.cause hs (h.threads_eq_none hs hn hi) ht
    rw [hrep.reasonCode]
    cases hcause with
    | before =>
      rw [hbefore]
      rfl
    | revoked => rfl
    | replayed ha =>
      rw [hbefore] at ha
      cases congrArg AuthorizeResponse.decision ha

/-- The agent of the happy path is revoked, and its call is denied for it. -/
theorem revoked_everywhere_happy : ∃ N call r, Network.Reachable Driver.happy.crates Driver.key N ∧
    N.calls 0 = some call ∧ call.result = some r ∧ call.req = Driver.happy.request ∧
    r.1.isAllow = false ∧ r.2.reasonCode = Reason.agentRevoked := by
  obtain ⟨es, C, hrevoke⟩ := exists_alone (C := (Network.init (.new Driver.key)).verifier)
    (verifier Driver.happy.crates Driver.key) (.revoke Driver.happy.claims.agentId) (i := 1) rfl
  have h₁ := Network.Reachable.init.steps (Network.steps_of_run hrevoke.run)
  have henter : Network.Step Driver.happy.crates Driver.key _ _ := .enter 0 Driver.happyCall
    (N := { Network.init (.new Driver.key) with verifier := C }) rfl rfl
  have hfree : C.threads 0 = none := hrevoke.frame 0 (by decide)
  obtain ⟨N₂, h₂⟩ := Network.exists_answered (i := 0) (h₁.step henter).verifier_key
    (Function.update_self _ _ _) Driver.happyCall_sent Driver.happy_fitsLimit hfree Driver.now
  have hN₂ := (h₁.step henter).steps h₂.steps
  have hj₂ : N₂.calls 0 = some Driver.happyCall := by
    rw [h₂.calls]
    rfl
  obtain ⟨r, hleave, -, hd⟩ := Network.exists_reported hN₂ hj₂ rfl Driver.happyCall_sent
    (by rw [h₂.sender, Function.update_self]) h₂.answer
  have hclock (i : ℕ) (now : Int64) (p : VerifierProg) (f : Bool) (hi : N₂.sender i = some 0)
      (ht : N₂.verifier.threads i = some ⟨.authorize now Driver.happy.wire, p, f⟩) :
      PrincipalBound Driver.happy.crates Driver.key now Driver.happy.wire Driver.happy.claims := by
    have hi₀ : i = 0 := by
      by_contra hne
      rw [h₂.sender, Function.update_of_ne hne] at hi
      cases hi
    subst hi₀
    cases h₂.answer.symm.trans ht
    exact Driver.happy_principalBound
  obtain ⟨-, hclosed, hcode⟩ := revoked_everywhere h₁ ((h₂.steps.head henter).tail hleave)
    hrevoke.answer rfl (Function.update_self _ _ _) rfl
    ((EvaluateCall.sent_result _ _).trans Driver.happyCall_sent) Driver.happy.tokenClaims_wire
  have hcall : Function.update N₂.calls 0 (some { Driver.happyCall with result := some r }) 0 =
      some _ := Function.update_self _ _ _
  exact ⟨_, _, r, hN₂.step hleave, hcall, rfl, rfl, hclosed rfl rfl, hcode hd hclock⟩

/-! ## Duplicates -/

/-- **A duplicated request can deny itself**: from any network, a call with a
    good token may enter, and end with the answer that its nonce is consumed,
    when nobody else takes a step.  The network delivers its request twice, and
    the response to the first copy is lost. -/
theorem duplicate_denied {X : Crates} {key : List UInt8} {N : Network}
    (h : Network.Reachable X key N) {j : ℕ} {call : EvaluateCall} {wire : AuthorizeRequest}
    {now : Int64} {c : Claims} (hn : N.calls j = none) (hr : call.result = none)
    (hw : call.sent X = some wire) (hl : wire.FitsLimit) (hp : PrincipalBound X key now wire c)
    (hrev : c.agentId ∉ N.verifier.shared.revokedAgents) (hi : IntentBound c wire)
    (hjti : c.jti ∉ N.verifier.shared.seenJti) :
    ∃ N' r i, Relation.ReflTransGen (Network.Step X key) N N' ∧
      N'.calls = Function.update N.calls j (some { call with result := some r }) ∧
      (∀ k, N'.verifier.threads k ≠ N.verifier.threads k → N'.sender k = some j) ∧
      N'.sender i = some j ∧ Allowed X N'.verifier i c ∧
      r.2.reasonCode = Reason.tokenReplayed ∧ ¬ Unmarked r := by
  have henter : Network.Step X key N _ := .enter j call hn hr
  have h₀ := h.step henter
  obtain ⟨i₁, -, hi₁⟩ := h.exists_free 0
  obtain ⟨i₂, hne, hi₂⟩ := h.exists_free i₁
  -- the first copy is allowed
  obtain ⟨N₁, h₁⟩ := Network.exists_answered h₀.verifier_key (Function.update_self _ _ _) hw hl
    hi₁ now
  have hk := h.verifier_key
  rw [VerifierState.authorize_of_bound (hk.symm ▸ hp) hrev hi hjti] at h₁
  have hN₁ := h₀.steps h₁.steps
  have hj₁ : N₁.calls j = some call := by simp [h₁.calls]
  -- the second copy is a replay
  obtain ⟨N₂, h₂⟩ := Network.exists_answered (i := i₂) hN₁.verifier_key hj₁ hw hl
    ((h₁.frame i₂ hne).trans hi₂) now
  have hN₂ := hN₁.steps h₂.steps
  have hseen := authorize_of_seen (s := N₁.verifier.shared) (hN₁.verifier_key.symm ▸ hp) hi
    (by rw [h₁.shared]; exact Finset.mem_insert_self _ _)
  rw [hseen, if_neg (by rw [h₁.shared]; exact hrev)] at h₂
  have hj₂ : N₂.calls j = some call := by rw [h₂.calls, hj₁]
  obtain ⟨r, hleave, hrep, -⟩ := Network.exists_reported hN₂ hj₂ hr hw
    (by rw [h₂.sender, Function.update_self]) h₂.answer
  refine ⟨_, r, i₁, ((Relation.ReflTransGen.head henter h₁.steps).trans h₂.steps).tail hleave, ?_,
    ?_, ?_, ?_, hrep.reasonCode, ?_⟩
  · rw [h₂.calls, h₁.calls, Function.update_idem]
  · intro k hk
    rw [h₂.sender, h₁.sender]
    by_cases hk₂ : k = i₂
    · rw [hk₂, Function.update_self]
    · rw [Function.update_of_ne hk₂]
      by_cases hk₁ : k = i₁
      · rw [hk₁, Function.update_self]
      · exact absurd ((h₂.frame k hk₂).trans (h₁.frame k hk₁)) hk
  · rw [h₂.sender, h₁.sender, Function.update_of_ne hne.symm, Function.update_self]
  · refine ⟨now, wire, allow c, true, (h₂.frame i₁ hne.symm).trans h₁.answer, rfl, ?_⟩
    exact hN₂.verifier_key.symm ▸ hp.claims
  · rw [hrep.unmarked]
    intro hd
    cases hd

theorem duplicate_denied_happy : ∃ N' r i,
    Relation.ReflTransGen (Network.Step Driver.happy.crates Driver.key)
      (.init (.new Driver.key)) N' ∧
    N'.sender i = some 0 ∧ Allowed Driver.happy.crates N'.verifier i Driver.happy.claims ∧
    r.2.reasonCode = Reason.tokenReplayed ∧ ¬ Unmarked r := by
  obtain ⟨N', r, i, hs, -, -, hi, ha, hr⟩ := duplicate_denied (j := 0) Network.Reachable.init rfl
    rfl Driver.happyCall_sent Driver.happy_fitsLimit Driver.happy_principalBound
    (by simp [Network.init, VerifierState.new]) Driver.happy_intentBound
    (by simp [Network.init, VerifierState.new])
  exact ⟨N', r, i, hs, hi, ha, hr⟩

end ExtAuthz
