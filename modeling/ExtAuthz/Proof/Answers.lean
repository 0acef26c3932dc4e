/-
  Why a handler answers what it answers.

  A handler that starts after some moment of a run answers what the verifier
  would have answered at that moment, unless another handler came in between:
  one that revoked its agent, or one that consumed its nonce
  (`verdict_explained`).  `Justified` is the invariant of a handler: what its
  program says about the state at that moment and about the present one.
-/
import ExtAuthz.Proof.Responses

namespace ExtAuthz

open Interleave

/-- The points of a handler that started in the state `s₀` or later, in the
    state `s`. -/
inductive Justified (X : Crates) (s₀ s : VerifierState) : VerifierCall → VerifierProg → Prop
  | checking {now req c} : PrincipalBound X s₀.key now req c →
      Justified X s₀ s (.authorize now req) (checking c req)
  | consuming {now req c} : PrincipalBound X s₀.key now req c → IntentBound c req →
      c.agentId ∉ s₀.revokedAgents → Justified X s₀ s (.authorize now req) (consuming c)
  /-- As the verifier would have answered before. -/
  | before {now req v} : (s₀.authorize X now req).1 = v → v.decision = .deny →
      Justified X s₀ s (.authorize now req) (.done (.verdict v))
  | revoked {now req c} : PrincipalBound X s₀.key now req c → c.agentId ∈ s.revokedAgents →
      Justified X s₀ s (.authorize now req) (.done (.verdict revokedVerdict))
  | replayed {now req c} : PrincipalBound X s₀.key now req c → IntentBound c req →
      c.agentId ∉ s₀.revokedAgents → c.jti ∈ s.seenJti →
      Justified X s₀ s (.authorize now req) (.done (.verdict replayedVerdict))
  | allowed {now req c} : PrincipalBound X s₀.key now req c → IntentBound c req →
      c.agentId ∉ s₀.revokedAgents → c.jti ∉ s₀.seenJti →
      Justified X s₀ s (.authorize now req) (allowing c)
  | revoking (a) : Justified X s₀ s (.revoke a) (revoking a)
  | noContent (a) : Justified X s₀ s (.revoke a) (.done .noContent)

section
variable {X : Crates} {s₀ s s' : VerifierState} {call : VerifierCall} {p : VerifierProg}

theorem Justified.mono (h : Justified X s₀ s call p) (hs : s.Le s') : Justified X s₀ s' call p := by
  cases h with
  | checking hp => exact .checking hp
  | consuming hp hi hr => exact .consuming hp hi hr
  | before he hv => exact .before he hv
  | revoked hp hr => exact .revoked hp (hs.revoked hr)
  | replayed hp hi hr hj => exact .replayed hp hi hr (hs.seen hj)
  | allowed hp hi hr hj => exact .allowed hp hi hr hj
  | revoking a => exact .revoking a
  | noContent a => exact .noContent a

theorem justified_body (hs : s₀.Le s) (call : VerifierCall) :
    Justified X s₀ s call ((verifier X s.key).body call) := by
  cases call with
  | authorize now req =>
    have hb : (verifier X s.key).body (.authorize now req) =
      (authorize X s.key now req).map .verdict := rfl
    rw [hb, authorize, hs.key]
    cases h : beforeRevocation X s₀.key now req with
    | error d =>
      refine .before ?_ rfl
      rw [VerifierState.authorize_eq, h]
    | ok c =>
      have hc := Justified.checking (s := s) (beforeRevocation_eq_ok.1 h)
      rwa [ExtAuthz.checking] at hc
  | revoke a =>
    have h : Justified X s₀ s (.revoke a) (ExtAuthz.revoking a) := .revoking a
    rwa [ExtAuthz.revoking] at h

theorem justified_op {o : VerifierOp} {next : Bool → VerifierProg} (hs : s₀.Le s)
    (h : Justified X s₀ s call (.op o next)) :
    Justified X s₀ (o.apply s).2 call (next (o.apply s).1) := by
  generalize hp : Prog.op o next = p at h
  cases h with
  | @checking now req c hpb =>
    rw [checking_eq] at hp
    cases hp
    by_cases hr : c.agentId ∈ s.revokedAgents
    · simpa [VerifierOp.apply, hr, revokedVerdict] using Justified.revoked hpb hr
    · have hr₀ : c.agentId ∉ s₀.revokedAgents := fun hm => hr (hs.revoked hm)
      cases ha : afterRevocation c req with
      | error d =>
        have he : (s₀.authorize X now req).1 = deny d.1 d.2 := by
          rw [VerifierState.authorize_eq, beforeRevocation_eq_ok.2 hpb]
          simp [hr₀, ha]
        have hb : Justified X s₀ s (.authorize now req) (.done (.verdict (deny d.1 d.2))) :=
          .before he rfl
        simpa [VerifierOp.apply, hr, ha] using hb
      | ok u =>
        have hc := Justified.consuming (s := s) hpb (afterRevocation_eq_ok.1 ha) hr₀
        simpa [VerifierOp.apply, hr, ha] using hc
  | @consuming now req c hpb hi hr =>
    rw [consuming_eq] at hp
    cases hp
    by_cases hj : c.jti ∈ s.seenJti
    · simpa [VerifierOp.apply, hj, replayedVerdict] using
        Justified.replayed (s := s) hpb hi hr hj
    · have hj₀ : c.jti ∉ s₀.seenJti := fun hm => hj (hs.seen hm)
      simpa [VerifierOp.apply, hj, allowing] using
        Justified.allowed (s := { s with seenJti := insert c.jti s.seenJti }) hpb hi hr hj₀
  | before => cases hp
  | revoked => cases hp
  | replayed => cases hp
  | allowed => cases hp
  | revoking a =>
    rw [revoking_eq] at hp
    cases hp
    exact .noContent a
  | noContent => cases hp

end

/-! ## Runs -/

/-- A handler has revoked the agent `a` since the moment `C₁`. -/
def RevokedSince (C₁ C : VerifierConfig) (a : String) : Prop :=
  ∃ r f, C.threads r = some ⟨.revoke a, .done .noContent, f⟩ ∧
    ∀ f', C₁.threads r ≠ some ⟨.revoke a, .done .noContent, f'⟩

/-- Another handler than `i` has been allowed with the nonce `jti` since the moment
    `C₁`. -/
def SpentSince (X : Crates) (C₁ C : VerifierConfig) (i : ℕ) (jti : String) : Prop :=
  ∃ j d, j ≠ i ∧ Allowed X C j d ∧ ¬ Allowed X C₁ j d ∧ d.jti = jti

section
variable {X : Crates} {s : VerifierState} {es es' : List VerifierEvent} {C C' C₁ : VerifierConfig}
  {e : VerifierEvent} {i : ℕ}

/-- A handler that starts in a run is justified. -/
theorem justified_run (hs : Staged X C₁) (h : Run (verifier X C₁.shared.key) C₁ es C)
    (hn : C₁.threads i = none) {t : Thread VerifierCall VerifierOp Bool VerifierAnswer}
    (ht : C.threads i = some t) : Justified X C₁.shared C.shared t.call t.prog := by
  induction h generalizing t with
  | nil =>
    rw [hn] at ht
    cases ht
  | @snoc es C e C' hr hstep ih =>
    obtain ⟨hsC, hle⟩ := staged_of_run hs hr
    by_cases hi : i = e.tid
    · subst hi
      cases hstep with
      | start i call hnC =>
        rw [Event.tid, Config.set_threads_self] at ht
        cases ht
        have h := justified_body (X := X) hle call
        rwa [hle.key] at h
      | step i hop =>
        rw [Event.tid, Config.set_threads_self] at ht
        cases ht
        have hj := ih hop
        exact justified_op hle hj
      | finish i hdone =>
        rw [Event.tid, Config.set_threads_self] at ht
        cases ht
        have hj := ih hdone
        exact hj
    · have hm := micro_of_step hsC (hle.key.symm ▸ hstep)
      exact (ih (by rwa [hstep.threads_ne hi] at ht)).mono hm.le

/-- The insertion of a revocation is the only step that revokes. -/
theorem Micro.revoked_cases (h : Micro X C e C') :
    C'.shared.revokedAgents = C.shared.revokedAgents ∨
      ∃ i a, C.threads i = some ⟨.revoke a, ExtAuthz.revoking a, false⟩ ∧
        C'.threads i = some ⟨.revoke a, .done .noContent, false⟩ ∧
        C'.shared.revokedAgents = insert a C.shared.revokedAgents := by
  cases h with
  | @revoked i a ht => exact .inr ⟨i, a, ht, Config.set_threads_self _ _ _ _, rfl⟩
  | _ => exact .inl rfl

theorem revoked_of_done (hs : Staged X C) {k : ℕ} {a : String} {ans : VerifierAnswer} {f : Bool}
    (hk : C.threads k = some ⟨.revoke a, .done ans, f⟩) : a ∈ C.shared.revokedAgents := by
  rcases (hs k _ hk).done_cases with ⟨_, _, _, hcall, -⟩ | ⟨_, _, _, hcall, -⟩ | ⟨_, hcall, -, ha⟩
  · cases hcall
  · cases hcall
  · cases hcall
    exact ha

theorem revokedSince_of_mem (hs : Staged X C₁) (h : Run (verifier X C₁.shared.key) C₁ es C)
    {a : String} (ha : a ∈ C.shared.revokedAgents) :
    a ∈ C₁.shared.revokedAgents ∨ RevokedSince C₁ C a := by
  induction h with
  | nil => exact .inl ha
  | @snoc es C e C' hr hstep ih =>
    obtain ⟨hsC, hle⟩ := staged_of_run hs hr
    have hkeep (hC : a ∈ C.shared.revokedAgents) :
        a ∈ C₁.shared.revokedAgents ∨ RevokedSince C₁ C' a := by
      refine (ih hC).imp_right ?_
      rintro ⟨r, f, ht, hn⟩
      obtain ⟨f', ht', -⟩ := hstep.later.done ht
      exact ⟨r, f', ht', hn⟩
    rcases (micro_of_step hsC (hle.key.symm ▸ hstep)).revoked_cases with hC | ⟨r, b, ht, ht', hC⟩
    · exact hkeep (hC ▸ ha)
    · rw [hC, Finset.mem_insert] at ha
      rcases ha with rfl | ha
      · refine .inr ⟨r, false, ht', fun f hf => ?_⟩
        -- a handler that has revoked is not about to
        obtain ⟨f', hf', -⟩ := hr.later.done hf
        rw [ht, revoking_eq] at hf'
        cases hf'
      · exact hkeep ha

theorem spentSince_of_mem (h₁ : Run (verifier X s.key) (.init s) es C₁)
    (h₂ : Run (verifier X s.key) C₁ es' C) {jti : String} (hj : jti ∈ C.shared.seenJti)
    (hi : ∀ c, ¬ Allowed X C i c) : jti ∈ C₁.shared.seenJti ∨ SpentSince X C₁ C i jti := by
  have h := h₁.append h₂
  have hsC := (staged_of_run (staged_init X s) h).1
  obtain ⟨hs₁, hle₁⟩ := staged_of_run (staged_init X s) h₁
  rcases (ledger_run h).seen jti |>.1 hj with hs | ⟨j, d, hd, rfl⟩
  · exact .inl (hle₁.seen hs)
  by_cases ha : Allowed X C₁ j d
  · exact .inl (((ledger_run h₁).seen _).2 (.inr ⟨j, d, (allowed_iff_at hs₁).1 ha, rfl⟩))
  · refine .inr ⟨j, d, ?_, (allowed_iff_at hsC).2 hd, ha, rfl⟩
    rintro rfl
    exact hi d ((allowed_iff_at hsC).2 hd)

/-- **Every response is explained**: a handler that starts after some moment of a
    run answers what the verifier would have answered at that moment, or that its
    agent is revoked, and a handler has revoked it since; or that its nonce is
    consumed, and another handler, to which the verifier gave the ALLOW that it
    would have given to this one, has consumed it since. -/
theorem verdict_explained {now : Int64} {req : AuthorizeRequest} {v : AuthorizeResponse} {f : Bool}
    (h₁ : Run (verifier X s.key) (.init s) es C₁) (h₂ : Run (verifier X s.key) C₁ es' C)
    (hn : C₁.threads i = none)
    (ht : C.threads i = some ⟨.authorize now req, .done (.verdict v), f⟩) :
    v = (C₁.shared.authorize X now req).1 ∨
      (v = revokedVerdict ∧ ∃ c, tokenClaims X s.key req = some c ∧ RevokedSince C₁ C c.agentId) ∨
      (v = replayedVerdict ∧ ∃ c, (C₁.shared.authorize X now req).1 = allow c ∧
        SpentSince X C₁ C i c.jti) := by
  obtain ⟨hs₁, hle₁⟩ := staged_of_run (staged_init X s) h₁
  have hk : C₁.shared.key = s.key := hle₁.key
  have h₂' : Run (verifier X C₁.shared.key) C₁ es' C := hk ▸ h₂
  have hj : Justified X C₁.shared C.shared (.authorize now req) (.done (.verdict v)) :=
    justified_run hs₁ h₂' hn ht
  generalize hp : Prog.done (VerifierAnswer.verdict v) = p at hj
  cases hj with
  | checking => rw [checking_eq] at hp; cases hp
  | consuming => rw [consuming_eq] at hp; cases hp
  | before he hv =>
    cases hp
    exact .inl he.symm
  | @revoked _ _ c hpb hr =>
    cases hp
    rcases revokedSince_of_mem hs₁ h₂' hr with hr₁ | hsince
    · left
      rw [authorize_of_revoked hpb hr₁]
    · exact .inr (.inl ⟨rfl, c, hk ▸ hpb.claims, hsince⟩)
  | @replayed _ _ c hpb hi hr hjti =>
    cases hp
    have hnot (d : Claims) : ¬ Allowed X C i d := by
      rintro ⟨_, _, w, _, htw, hw, -⟩
      rw [ht] at htw
      cases htw
      cases hw
    by_cases hj₁ : c.jti ∈ C₁.shared.seenJti
    · left
      rw [authorize_of_seen hpb hi hj₁, if_neg hr]
    · refine .inr (.inr ⟨rfl, c, ?_, (spentSince_of_mem h₁ h₂ hjti hnot).resolve_left hj₁⟩)
      rw [VerifierState.authorize_of_bound hpb hr hi hj₁]
  | allowed hpb hi hr hj₁ =>
    cases hp
    left
    rw [VerifierState.authorize_of_bound hpb hr hi hj₁]

/-! ## What follows a response -/

variable {j : ℕ} {now now' : Int64} {req : AuthorizeRequest} {c : Claims} {v w : AuthorizeResponse}
  {f f' : Bool}

/-- **A request is answered once**: when a handler has answered it, no handler
    that starts later, at a later time, allows it.  If the answer was ALLOW, the
    nonce is consumed; if it was a denial, its cause lasts. -/
theorem answered_once (h₁ : Run (verifier X s.key) (.init s) es C₁)
    (h₂ : Run (verifier X s.key) C₁ es' C)
    (hi : C₁.threads i = some ⟨.authorize now req, .done (.verdict v), f⟩)
    (hn : C₁.threads j = none) (ht : now ≤ now')
    (hj : C.threads j = some ⟨.authorize now' req, .done (.verdict w), f'⟩) :
    w.decision = .deny := by
  have hs₁ := (staged_of_run (staged_init X s) h₁).1
  have hdeny : (C₁.shared.authorize X now' req).1.decision = .deny := by
    rcases (hs₁ i _ hi).done_cases with
      ⟨_, _, c, hcall, -, hp, -, hjti⟩ | ⟨_, _, _, hcall, -, -, hd⟩ | ⟨_, hcall, -⟩
    · cases hcall
      by_contra hne
      obtain ⟨c', hp', -, -, hfresh⟩ := VerifierState.authorize_allow_iff.1 (decision_ne_deny.1 hne)
      cases Option.some.inj (hp.claims.symm.trans hp'.claims)
      exact hfresh hjti
    · cases hcall
      exact (VerifierState.Le.refl _).deny ht hd
    · cases hcall
  rcases verdict_explained h₁ h₂ hn hj with rfl | ⟨rfl, -⟩ | ⟨rfl, -⟩
  · exact hdeny
  · rfl
  · rfl

/-- **Revocation is reported**: a handler that starts after a revocation of its
    agent answers that the agent is revoked, whatever else is wrong with the
    intent of its token. -/
theorem revocation_reported {r : ℕ} {ans : VerifierAnswer}
    (h₁ : Run (verifier X s.key) (.init s) es C₁) (h₂ : Run (verifier X s.key) C₁ es' C)
    (hr : C₁.threads r = some ⟨.revoke c.agentId, .done ans, f⟩) (hn : C₁.threads i = none)
    (hp : PrincipalBound X s.key now req c)
    (hi : C.threads i = some ⟨.authorize now req, .done (.verdict v), f'⟩) :
    v = revokedVerdict := by
  obtain ⟨hs₁, hle₁⟩ := staged_of_run (staged_init X s) h₁
  have hbefore : (C₁.shared.authorize X now req).1 = revokedVerdict := by
    rw [authorize_of_revoked (hle₁.key.symm ▸ hp) (revoked_of_done hs₁ hr)]
  rcases verdict_explained h₁ h₂ hn hi with rfl | ⟨rfl, -⟩ | ⟨-, d, hd, -⟩
  · exact hbefore
  · rfl
  · rw [hbefore] at hd
    cases congrArg AuthorizeResponse.decision hd

/-- `authorize` runs as one step when it is left alone. -/
theorem authorize_alone {key : List UInt8} (hk : C.shared.key = key) (hn : C.threads i = none)
    (now : Int64) (req : AuthorizeRequest) : ∃ es C', Alone (verifier X key) C i
      (.authorize now req) (.verdict (C.shared.authorize X now req).1,
        (C.shared.authorize X now req).2) es C' := by
  subst hk
  rw [← verifier_run_authorize]
  exact exists_alone _ _ hn

end

namespace Driver

/-- The request of the happy path, sent again after its answer. -/
theorem run_again : ∃ es es' C₁ C, Run (verifier happy.crates key) (.init (.new key)) es C₁ ∧
    Run (verifier happy.crates key) C₁ es' C ∧
    C₁.threads 0 = some ⟨.authorize now happy.wire, .done (.verdict (allow happy.claims)), true⟩ ∧
    C₁.threads 1 = none ∧
    C.threads 1 = some ⟨.authorize now happy.wire, .done (.verdict replayedVerdict), true⟩ := by
  obtain ⟨es, C₁, h₁⟩ := authorize_alone (X := happy.crates) (C := .init (.new key)) (i := 0)
    rfl rfl now happy.wire
  rw [Config.init_shared, VerifierState.authorize_of_bound happy_principalBound
    (by simp [VerifierState.new]) happy_intentBound (by simp [VerifierState.new])] at h₁
  have hs := h₁.shared
  have hn : C₁.threads 1 = none := h₁.frame 1 (by decide)
  obtain ⟨es', C, h₂⟩ := authorize_alone (X := happy.crates) (by rw [hs]) hn now happy.wire
  have hans := h₂.answer
  rw [hs, authorize_of_seen happy_principalBound happy_intentBound
    (Finset.mem_insert_self _ _)] at hans
  exact ⟨es, es', C₁, C, h₁.run, h₂.run, h₁.answer, hn, hans⟩

/-- The request of the happy path, sent after its agent was revoked. -/
theorem run_revoked : ∃ es es' C₁ C v,
    Run (verifier happy.crates key) (.init (.new key)) es C₁ ∧
    Run (verifier happy.crates key) C₁ es' C ∧
    C₁.threads 0 = some ⟨.revoke happy.claims.agentId, .done .noContent, true⟩ ∧
    C₁.threads 1 = none ∧
    C.threads 1 = some ⟨.authorize now happy.wire, .done (.verdict v), true⟩ := by
  obtain ⟨es, C₁, h₁⟩ := exists_alone (C := .init (.new key)) (verifier happy.crates key)
    (.revoke happy.claims.agentId) (i := 0) rfl
  have hn : C₁.threads 1 = none := h₁.frame 1 (by decide)
  obtain ⟨es', C, h₂⟩ := authorize_alone (X := happy.crates) (by rw [h₁.shared]) hn now
    happy.wire
  exact ⟨es, es', C₁, C, _, h₁.run, h₂.run, h₁.answer, hn, h₂.answer⟩

end Driver

theorem answered_once_happy : ∃ (C₁ C : VerifierConfig) (w : AuthorizeResponse),
    C₁.threads 1 = none ∧ Later C₁ C ∧
    C.threads 1 = some ⟨.authorize Driver.now Driver.happy.wire, .done (.verdict w), true⟩ ∧
    w.decision = .deny := by
  obtain ⟨es, es', C₁, C, h₁, h₂, hi, hn, hans⟩ := Driver.run_again
  exact ⟨C₁, C, _, hn, h₂.later, hans,
    answered_once (s := .new Driver.key) h₁ h₂ hi hn (Int64.le_refl _) hans⟩

theorem revocation_reported_happy : ∃ (C₁ C : VerifierConfig) (v : AuthorizeResponse),
    C₁.threads 0 = some ⟨.revoke Driver.happy.claims.agentId, .done .noContent, true⟩ ∧
    C₁.threads 1 = none ∧ Later C₁ C ∧
    C.threads 1 = some ⟨.authorize Driver.now Driver.happy.wire, .done (.verdict v), true⟩ ∧
    v = revokedVerdict := by
  obtain ⟨es, es', C₁, C, v, h₁, h₂, hr, hn, hans⟩ := Driver.run_revoked
  exact ⟨C₁, C, v, hr, hn, h₂.later, hans, revocation_reported (s := .new Driver.key) h₁ h₂ hr hn
    Driver.happy_principalBound hans⟩

end ExtAuthz
