/-
  Single use, on both sides of the wire (`single_use`).

  A call in enforce mode with `fail = closed` continues only if a handler of its
  own request decided ALLOW (`Network.Inv`), and no two handlers decide ALLOW
  for one nonce (`Ledger`).  Hence no two calls continue for one nonce, whatever
  the network does.
-/
import ExtAuthz.Demo.Network
import ExtAuthz.Proof.Policy
import ExtAuthz.Proof.Revocation

namespace ExtAuthz

open Json Interleave ExtAuthzMiddleware

/-- Enforce mode with `fail = closed`, and the default token header. -/
structure ExtAuthzMiddleware.Enforcing (m : ExtAuthzMiddleware) : Prop where
  mode : m.cfg.mode = .enforce
  fail : m.cfg.fail = .closed
  tokenHeader : m.cfg.tokenHeader = defaultTokenHeader

/-- The handler `i` decided ALLOW with the receipt `r`. -/
def Receipted (C : VerifierConfig) (i : ℕ) (r : String) : Prop :=
  ∃ call v f, C.threads i = some ⟨call, .done (.verdict v), f⟩ ∧ v.decision = .allow ∧
    v.receiptId = some r

/-- The call `j` of an enforcing middleware continued, for a token with the
    claims `c`. -/
def Network.Continued (X : Crates) (key : List UInt8) (N : Network) (j : ℕ) (c : Claims) : Prop :=
  ∃ call result token, N.calls j = some call ∧ call.middleware.Enforcing ∧
    call.result = some result ∧ result.1.isAllow = true ∧
    headerValues call.req.headers defaultTokenHeader = [token] ∧ verify X token key = .ok c

/-! ## The verifier -/

section
variable {X : Crates} {s : VerifierState} {es : List VerifierEvent} {C : VerifierConfig}

/-- The replay set is the set of the nonces for which ALLOW was decided. -/
theorem seenJti_iff_allowed {key : List UInt8}
    (h : Run (verifier X key) (.init (.new key)) es C) (jti : String) :
    jti ∈ C.shared.seenJti ↔ ∃ i c, Allowed X C i c ∧ c.jti = jti := by
  obtain ⟨hs, -⟩ := staged_of_run (staged_init X (.new key)) h
  have hl : Ledger X (.new key) C := ledger_run h
  simp only [hl.seen, allowed_iff_at hs, VerifierState.new, Finset.notMem_empty, false_or]

theorem allowed_unique (h : Run (verifier X s.key) (.init s) es C) {i j : ℕ} {c d : Claims}
    (hi : Allowed X C i c) (hj : Allowed X C j d) (he : c.jti = d.jti) : i = j := by
  obtain ⟨hs, -⟩ := staged_of_run (staged_init X s) h
  exact (ledger_run h).unique i j c d ((allowed_iff_at hs).1 hi) ((allowed_iff_at hs).1 hj) he

theorem Receipted.allowed (hs : Staged X C) {i : ℕ} {r : String} (h : Receipted C i r) :
    ∃ c, Allowed X C i c ∧ r = "rcpt-" ++ c.jti := by
  obtain ⟨call, v, f, ht, hv, hr⟩ := h
  rcases (hs i _ ht).done_cases with
    ⟨now, req, c, rfl, ha, hp, -⟩ | ⟨_, _, v', -, ha, hv', -⟩ | ⟨_, -, ha, -⟩
  · cases ha
    cases hr
    exact ⟨c, ⟨now, req, allow c, f, ht, rfl, hp.claims⟩, rfl⟩
  · cases ha
    rw [hv] at hv'
    cases hv'
  · cases ha

theorem receipted_unique (h : Run (verifier X s.key) (.init s) es C) {i j : ℕ} {r : String}
    (hi : Receipted C i r) (hj : Receipted C j r) : i = j := by
  obtain ⟨hs, -⟩ := staged_of_run (staged_init X s) h
  obtain ⟨c, hc, rfl⟩ := hi.allowed hs
  obtain ⟨d, hd, he⟩ := hj.allowed hs
  have hjti : c.jti = d.jti := by simpa using he
  exact allowed_unique h hc hd hjti

end

/-! ## The calls -/

/-- A call continues on a reply only if the reply is an ALLOW. -/
theorem EvaluateCall.outcome_of_run {X : Crates} {call : EvaluateCall} {reply : Reply}
    (he : call.middleware.Enforcing) (h : (call.run X reply).1.isAllow = true) :
    ∃ v, reply.outcome = .verdict v ∧ v.decision = .allow := by
  obtain ⟨-, token, v, -, ho, hv⟩ := (evaluate_isAllow_closed he.mode he.fail).1 h
  exact ⟨v, ho, hv⟩

theorem decision_of_outcome {R : ValueReader} {v v' : AuthorizeResponse}
    (h : (Reply.response .ok (AuthorizeResponse.decode R v.toJson)).outcome = .verdict v') :
    v'.decision = v.decision := by
  cases hj : AuthorizeResponse.fromJson R v.toJson with
  | none =>
    simp [Reply.outcome, StatusCode.ok, AuthorizeResponse.decode, hj, ReqwestError.decode] at h
  | some w =>
    simp only [Reply.outcome, StatusCode.ok, AuthorizeResponse.decode, hj] at h
    cases h
    exact AuthorizeResponse.decision_of_fromJson_toJson hj

/-! ## The network -/

namespace Network

/-- The handler `i` decided ALLOW. -/
def Decided (N : Network) (i : ℕ) : Prop :=
  ∃ c v f, N.verifier.threads i = some ⟨c, .done (.verdict v), f⟩ ∧ v.decision = .allow

/-- The invariant of the network. -/
structure Inv (X : Crates) (key : List UInt8) (N : Network) : Prop where
  run : ∃ es, Run (ExtAuthz.verifier X key) (.init (.new key)) es N.verifier
  /-- A handler serves what its sender sent. -/
  sent : ∀ i j, N.sender i = some j → ∃ call wire now t, N.calls j = some call ∧
    call.sent X = some wire ∧ N.verifier.threads i = some t ∧ t.call = .authorize now wire
  /-- A call that continued had its ALLOW. -/
  decided : ∀ j call result, N.calls j = some call → call.result = some result →
    call.middleware.Enforcing → result.1.isAllow = true → ∃ i, N.sender i = some j ∧ N.Decided i

variable {X : Crates} {key : List UInt8} {N N' : Network}

theorem inv_init (X : Crates) (key : List UInt8) : Inv X key (.init (.new key)) where
  run := ⟨[], .nil⟩
  sent i j h := by cases h
  decided j call result h := by cases h

theorem Inv.handle (h : Inv X key N) {e : VerifierEvent} {C : VerifierConfig}
    (hstep : Interleave.Step (ExtAuthz.verifier X key) N.verifier e C) :
    Inv X key { N with verifier := C } := by
  obtain ⟨es, hr⟩ := h.run
  refine ⟨⟨_, hr.snoc hstep⟩, ?_, ?_⟩
  · intro i j hi
    obtain ⟨call, wire, now, t, hj, hw, ht, hc⟩ := h.sent i j hi
    obtain ⟨t', ht', hc', -⟩ := hstep.later i t ht
    exact ⟨call, wire, now, t', hj, hw, ht', hc'.trans hc⟩
  · intro j call result hj hres he ha
    obtain ⟨i, hi, c, v, f, ht, hv⟩ := h.decided j call result hj hres he ha
    obtain ⟨f', ht', -⟩ := hstep.later.done ht
    exact ⟨i, hi, c, v, f', ht', hv⟩

theorem Inv.enter (h : Inv X key N) {j₀ : ℕ} {call₀ : EvaluateCall} (hn : N.calls j₀ = none)
    (hres₀ : call₀.result = none) :
    Inv X key { N with calls := Function.update N.calls j₀ (some call₀) } := by
  refine ⟨h.run, ?_, ?_⟩
  · intro i j hi
    obtain ⟨call, wire, now, t, hj, hw, ht, hc⟩ := h.sent i j hi
    have hne : j ≠ j₀ := by
      rintro rfl
      rw [hn] at hj
      cases hj
    exact ⟨call, wire, now, t, by simpa [hne] using hj, hw, ht, hc⟩
  · intro j call result hj hres he ha
    by_cases hjj : j = j₀
    · subst hjj
      simp only [Function.update_self, Option.some.injEq] at hj
      subst hj
      rw [hres₀] at hres
      cases hres
    · simp only [Function.update_of_ne hjj] at hj
      exact h.decided j call result hj hres he ha

/-- The request of a call starts a handler, which had not been started. -/
theorem Inv.arrive (h : Inv X key N) {i₀ j₀ : ℕ} {call₀ : EvaluateCall} {wire₀ : AuthorizeRequest}
    {now₀ : Int64} {C : VerifierConfig} (hj₀ : N.calls j₀ = some call₀)
    (hw₀ : call₀.sent X = some wire₀)
    (hs : Interleave.Step (ExtAuthz.verifier X key) N.verifier
      (.start i₀ (.authorize now₀ wire₀)) C) :
    Inv X key { N with verifier := C, sender := Function.update N.sender i₀ (some j₀) } := by
  obtain ⟨hr, hsent, hdec⟩ := h.handle hs
  cases hs with
  | start _ _ hnone =>
    refine ⟨hr, ?_, ?_⟩
    · intro i j hi
      by_cases hii : i = i₀
      · subst hii
        simp only [Function.update_self, Option.some.injEq] at hi
        subst hi
        exact ⟨call₀, wire₀, now₀, _, hj₀, hw₀, Config.set_threads_self _ _ _ _, rfl⟩
      · simp only [Function.update_of_ne hii] at hi
        exact hsent i j hi
    · intro j call result hj hres he ha
      obtain ⟨i, hi, hd⟩ := hdec j call result hj hres he ha
      have hii : i ≠ i₀ := by
        rintro rfl
        obtain ⟨_, _, _, t, -, -, ht, -⟩ := h.sent i j hi
        rw [hnone] at ht
        cases ht
      exact ⟨i, by simpa [hii] using hi, hd⟩

theorem Inv.leave (h : Inv X key N) {j₀ : ℕ} {call : EvaluateCall} {reply : Reply}
    (hj₀ : N.calls j₀ = some call) (hh : N.Hears X j₀ reply) :
    Inv X key { N with
      calls := Function.update N.calls j₀
        (some { call with result := some (call.run X reply) }) } := by
  refine ⟨h.run, ?_, ?_⟩
  · intro i j hi
    obtain ⟨call', wire, now, t, hj, hw, ht, hc⟩ := h.sent i j hi
    by_cases hjj : j = j₀
    · subst hjj
      cases hj₀.symm.trans hj
      exact ⟨_, wire, now, t, Function.update_self _ _ _, hw, ht, hc⟩
    · exact ⟨call', wire, now, t, by simpa [hjj] using hj, hw, ht, hc⟩
  · intro j call' result hj hres he ha
    by_cases hjj : j = j₀
    · subst hjj
      simp only [Function.update_self, Option.some.injEq] at hj
      subst hj
      cases hres
      have ha' : (call.run X reply).1.isAllow = true := ha
      obtain ⟨v, ho, hv⟩ := EvaluateCall.outcome_of_run he ha'
      cases hh with
      | failure hf =>
        rw [ho] at hf
        cases hf
      | response i hi ht => exact ⟨i, hi, _, _, _, ht, (decision_of_outcome ho) ▸ hv⟩
    · simp only [Function.update_of_ne hjj] at hj
      exact h.decided j call' result hj hres he ha

theorem Inv.step (h : Inv X key N) (hstep : Step X key N N') : Inv X key N' := by
  cases hstep with
  | enter j₀ call₀ hn hres => exact h.enter hn hres
  | arrive i₀ j₀ now hj hw hx hs =>
    cases eq_of_extractRequest hx
    exact h.arrive hj hw hs
  | handle hs => exact h.handle hs
  | leave j₀ call hj hn hh => exact h.leave hj hh

theorem Reachable.inv (h : Reachable X key N) : Inv X key N := by
  induction h with
  | init => exact inv_init X key
  | step _ hstep ih => exact ih.step hstep

/-- A call continued because a handler decided ALLOW for its token. -/
theorem Continued.allowed (h : Inv X key N) {j : ℕ} {c : Claims} (hc : N.Continued X key j c) :
    ∃ i, N.sender i = some j ∧ Allowed X N.verifier i c := by
  obtain ⟨call, result, token, hj, he, hres, ha, hh, hv⟩ := hc
  obtain ⟨i, hi, call', v, f, ht, hd⟩ := h.decided j call result hj hres he ha
  obtain ⟨call₀, wire, now, t, hj₀, hw, ht₀, hcall⟩ := h.sent i j hi
  cases hj.symm.trans hj₀
  cases ht.symm.trans ht₀
  cases hcall
  obtain ⟨token', hh', -, rfl⟩ := EvaluateCall.sent_eq_some.1 hw
  rw [he.tokenHeader, hh] at hh'
  cases hh'
  obtain ⟨es, hr⟩ := h.run
  obtain ⟨-, hle⟩ := staged_of_run (staged_init X (.new key)) hr
  have hk : N.verifier.shared.key = key := hle.key
  refine ⟨i, hi, now, _, v, f, ht, hd, ?_⟩
  rw [tokenClaims_wire X call.readings call.ctx call.req token he.tokenHeader, hk, hv]
  rfl

end Network

/-- **Single use**: in every run of a verifier the replay set is the set of the
    nonces for which ALLOW was decided, and neither a nonce nor a receipt is
    allowed twice.  On every network, no two calls of enforcing middlewares
    continue for one nonce. -/
theorem single_use (X : Crates) (key : List UInt8) :
    (∀ es C, Run (verifier X key) (.init (.new key)) es C →
      (∀ jti, jti ∈ C.shared.seenJti ↔ ∃ i c, Allowed X C i c ∧ c.jti = jti) ∧
      (∀ i j c d, Allowed X C i c → Allowed X C j d → c.jti = d.jti → i = j) ∧
      ∀ i j r, Receipted C i r → Receipted C j r → i = j) ∧
    ∀ N, Network.Reachable X key N → ∀ i j c d, N.Continued X key i c → N.Continued X key j d →
      c.jti = d.jti → i = j := by
  constructor
  · intro es C h
    refine ⟨seenJti_iff_allowed h, ?_, ?_⟩
    · intro i j c d hi hj he
      exact allowed_unique (s := .new key) h hi hj he
    · intro i j r hi hj
      exact receipted_unique (s := .new key) h hi hj
  · intro N h i j c d hi hj he
    obtain ⟨es, hr⟩ := h.inv.run
    obtain ⟨i', hi', hc⟩ := hi.allowed h.inv
    obtain ⟨j', hj', hd⟩ := hj.allowed h.inv
    -- one handler decided for both, and it serves one call
    cases allowed_unique (s := .new key) hr hc hd he
    exact Option.some.inj (hi'.symm.trans hj')

/-! ## The happy path on a network -/

namespace Driver

/-- The call of the happy path. -/
def happyCall : EvaluateCall :=
  ⟨middleware, readings, ctx agent sandbox, happy.request, none⟩

theorem happyCall_token :
    headerValues happyCall.req.headers happyCall.middleware.cfg.tokenHeader = [happy.token] :=
  happy.headerValues_request _ _ _

theorem happyCall_sent : happyCall.sent happy.crates = some happy.wire :=
  EvaluateCall.sent_eq_some.2 ⟨happy.token, happyCall_token, (happy.passesLocalChecks _ _ _).2, rfl⟩

theorem happyCall_run :
    (happyCall.run happy.crates (.response .ok (AuthorizeResponse.decode happy.crates.values
      (allow happy.claims).toJson))).1.isAllow = true := by
  refine (evaluate_isAllow_closed rfl rfl).2 ⟨happy.passesLocalChecks _ _ _, happy.token,
    allow happy.claims, happyCall_token, ?_, rfl⟩
  rw [AuthorizeResponse.decode_toJson _ (lossless_allow _)]
  simp [callVerifier, Reply.outcome, StatusCode.ok]

theorem happy_network : ∃ N, Network.Reachable happy.crates key N ∧
    N.Continued happy.crates key 0 happy.claims := by
  have hself {C : VerifierConfig} {i : ℕ} {t : Thread VerifierCall VerifierOp Bool VerifierAnswer}
      {s : VerifierState} : (C.set i t s).threads i = some t := Config.set_threads_self _ _ _ _
  have hcalled : Network.Reachable happy.crates key _ :=
    Network.Reachable.init.step (.enter 0 happyCall rfl rfl)
  have harrived := hcalled.step (.arrive 0 0 now rfl
    happyCall_sent (extractRequest_toJson happy_fitsLimit)
    (step_authorize rfl happy_principalBound))
  have hchecked := harrived.step (.handle (step_check hself
    (by simp [Network.init, VerifierState.new]) happy_intentBound))
  have hconsumed := hchecked.step (.handle (step_consume hself
    (by simp [Network.init, VerifierState.new])))
  have hfinished := hconsumed.step (.handle (.finish 0 hself))
  have hleft := hfinished.step (.leave 0 happyCall rfl rfl (.response 0 rfl hself))
  exact ⟨_, hleft, _, _, happy.token, rfl,
    ⟨rfl, rfl, middleware_tokenHeader⟩, rfl, happyCall_run,
    headerValues_hdr (some happy.token), happy.verify_token⟩

end Driver

/-- On the network of the happy path, its nonce is used up. -/
theorem single_use_happy : ∃ N, Network.Reachable Driver.happy.crates Driver.key N ∧
    N.Continued Driver.happy.crates Driver.key 0 Driver.happy.claims ∧
    "jti-happy" ∈ N.verifier.shared.seenJti ∧
    ∀ j c, N.Continued Driver.happy.crates Driver.key j c → c.jti = "jti-happy" → j = 0 := by
  obtain ⟨N, hN, h₀⟩ := Driver.happy_network
  obtain ⟨es, hr⟩ := hN.inv.run
  obtain ⟨i, -, hi⟩ := h₀.allowed hN.inv
  obtain ⟨hverifier, hnetwork⟩ := single_use Driver.happy.crates Driver.key
  refine ⟨N, hN, h₀, ((hverifier es _ hr).1 _).2 ⟨i, _, hi, rfl⟩, ?_⟩
  intro j c hj hc
  exact hnetwork N hN j 0 c Driver.happy.claims hj h₀ hc

end ExtAuthz
