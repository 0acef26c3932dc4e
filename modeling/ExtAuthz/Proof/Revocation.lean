/-
  Revocation, with authorizations in flight.

  A handler that checks the revoked agents after a revocation is denied
  (`allowed_checked_before_revoked`).  One that has passed the check goes on to
  consume its nonce, whether its agent is revoked in the meantime or not
  (`race`).
-/
import ExtAuthz.Proof.Handlers
import ExtAuthz.Proof.Wire

namespace ExtAuthz

open Interleave

section
variable {X : Crates} {s : VerifierState} {es es' : List VerifierEvent} {C C' C₁ : VerifierConfig}

/-! ## Revocation and the check -/

theorem check_mem_of_passed (h : Run (verifier X s.key) (.init s) es C) {i : ℕ} {c : Claims}
    (hp : Passed X C i c) : .step i (.revokedContains c.agentId) false ∈ es := by
  refine (staged_run (P := fun es C => ∀ i c, Passed X C i c →
    .step i (.revokedContains c.agentId) false ∈ es) (staged_init X s) h ?_ ?_).2.2 i c hp
  · rintro i c (⟨now, req, f, ht, -⟩ | ⟨now, req, f, ht, -⟩) <;> cases ht
  · intro es C₁ e C₂ _ _ ih hm i c hp
    rcases hm.passed hp with hp | ⟨rfl, -⟩
    · exact List.mem_append_left _ (ih i c hp)
    · exact List.mem_append_right _ (List.mem_singleton_self _)

/-- No handler passes the check for a revoked agent. -/
theorem passed_of_revoked (hs : Staged X C₁) (h : Run (verifier X C₁.shared.key) C₁ es C) {i : ℕ}
    {c : Claims} (hr : c.agentId ∈ C₁.shared.revokedAgents) (hp : Passed X C i c) :
    Passed X C₁ i c := by
  refine (staged_run (P := fun _ C => Passed X C i c → Passed X C₁ i c) hs h id ?_).2.2 hp
  intro es C e C' _ hle ih hm hp
  rcases hm.passed hp with hp | ⟨-, hn⟩
  · exact ih hp
  · exact absurd (hle.revoked hr) hn

theorem Passed.threads {i : ℕ} {c : Claims} (h : Passed X C i c) : ∃ t, C.threads i = some t := by
  rcases h with ⟨now, req, f, ht, -⟩ | ⟨now, req, f, ht, -⟩ <;> exact ⟨_, ht⟩

/-- When an agent has been revoked, a handler decides ALLOW for one of its tokens
    only if it made its revocation check before.  In particular no handler does
    that is started later. -/
theorem allowed_checked_before_revoked {r i : ℕ} {c : Claims} {ans : VerifierAnswer} {f : Bool}
    (h₁ : Run (verifier X s.key) (.init s) es C₁) (h₂ : Run (verifier X s.key) C₁ es' C)
    (hr : C₁.threads r = some ⟨.revoke c.agentId, .done ans, f⟩) (hi : Allowed X C i c) :
    .step i (.revokedContains c.agentId) false ∈ es ∧ ∀ call, .start i call ∉ es' := by
  obtain ⟨hs, hle⟩ := staged_of_run (staged_init X s) h₁
  have hrev : c.agentId ∈ C₁.shared.revokedAgents := by
    rcases (hs r _ hr).done_cases with ⟨_, _, _, hcall, -⟩ | ⟨_, _, _, hcall, -⟩ | ⟨_, hcall, -, ha⟩
    · cases hcall
    · cases hcall
    · cases hcall
      exact ha
  have hkey : C₁.shared.key = s.key := hle.key
  rw [← hkey] at h₂
  obtain ⟨hsC, -⟩ := staged_of_run hs h₂
  have hp : Passed X C₁ i c := passed_of_revoked hs h₂ hrev (.inr ((allowed_iff_at hsC).1 hi))
  obtain ⟨t, ht⟩ := hp.threads
  exact ⟨check_mem_of_passed h₁ hp, h₂.start_notMem ht⟩

/-! ## The race -/

variable {now : Int64} {req : AuthorizeRequest} {c : Claims} {i : ℕ}

theorem step_authorize {key : List UInt8} (hn : C.threads i = none)
    (hp : PrincipalBound X key now req c) :
    Step (verifier X key) C (.start i (.authorize now req))
      (C.set i ⟨.authorize now req, checking c req, false⟩ C.shared) := by
  have hb : (verifier X key).body (.authorize now req) = checking c req := by
    rw [checking]
    simp only [verifier, authorize, beforeRevocation_eq_ok.2 hp]
  exact hb ▸ .start i _ hn

theorem step_check {key : List UInt8}
    (ht : C.threads i = some ⟨.authorize now req, checking c req, false⟩)
    (hr : c.agentId ∉ C.shared.revokedAgents) (hi : IntentBound c req) :
    Step (verifier X key) C (.step i (.revokedContains c.agentId) false)
      (C.set i ⟨.authorize now req, consuming c, false⟩ C.shared) := by
  rw [checking_eq] at ht
  simpa [verifier, VerifierOp.apply, hr, afterRevocation_eq_ok.2 hi] using
    Step.step (O := verifier X key) i ht

theorem step_consume {key : List UInt8}
    (ht : C.threads i = some ⟨.authorize now req, consuming c, false⟩)
    (hj : c.jti ∉ C.shared.seenJti) :
    Step (verifier X key) C (.step i (.seenInsert c.jti) true)
      (C.set i ⟨.authorize now req, allowing c, false⟩
        { C.shared with seenJti := insert c.jti C.shared.seenJti }) := by
  rw [consuming_eq] at ht
  simpa [verifier, VerifierOp.apply, hj, allowing] using Step.step (O := verifier X key) i ht

theorem step_revoke {key : List UInt8} (hn : C.threads i = none) (a : String) :
    Step (verifier X key) C (.start i (.revoke a))
      (C.set i ⟨.revoke a, revoking a, false⟩ C.shared) := by
  rw [revoking]
  exact .start i _ hn

theorem step_revoked {key : List UInt8} {a : String}
    (ht : C.threads i = some ⟨.revoke a, revoking a, false⟩) :
    Step (verifier X key) C (.step i (.revokedInsert a) (decide (a ∉ C.shared.revokedAgents)))
      (C.set i ⟨.revoke a, .done .noContent, false⟩
        { C.shared with revokedAgents := insert a C.shared.revokedAgents }) := by
  rw [revoking_eq] at ht
  exact Step.step (O := verifier X key) i ht

/-- The trace of the race: handler 1 revokes the agent of handler 0 between the
    two locks of handler 0. -/
def raceTrace (now : Int64) (req : AuthorizeRequest) (c : Claims) : List VerifierEvent :=
  [.start 0 (.authorize now req), .step 0 (.revokedContains c.agentId) false,
    .start 1 (.revoke c.agentId), .step 1 (.revokedInsert c.agentId) true, .finish 1 .noContent]

/-- A revocation of its agent that completes between the two locks does not stop
    an authorization. -/
theorem race (hp : PrincipalBound X s.key now req c) (hr : c.agentId ∉ s.revokedAgents)
    (hi : IntentBound c req) (hj : c.jti ∉ s.seenJti) :
    ∃ C₁ C, Run (verifier X s.key) (.init s) (raceTrace now req c) C₁ ∧
      Run (verifier X s.key) C₁ [.step 0 (.seenInsert c.jti) true] C ∧
      C₁.threads 1 = some ⟨.revoke c.agentId, .done .noContent, true⟩ ∧
      ¬ Allowed X C₁ 0 c ∧ Allowed X C 0 c := by
  have hchecked : Run (verifier X s.key) (.init s) _ _ :=
    (Run.nil.snoc (step_authorize (i := 0) rfl hp)).snoc
      (step_check (Config.set_threads_self _ _ _ _) hr hi)
  have hrevoking : Run (verifier X s.key) (.init s) _ _ :=
    hchecked.snoc (step_revoke (i := 1) (by simp [Config.set_threads]) c.agentId)
  have hrevoked : Run (verifier X s.key) (.init s) _ _ :=
    (hrevoking.snoc (step_revoked (Config.set_threads_self _ _ _ _))).snoc
      (.finish 1 (Config.set_threads_self _ _ _ _))
  simp only [Config.set_shared, Config.init_shared, hr, not_false_eq_true, decide_true] at hrevoked
  generalize hC : Config.set _ 1 _ _ = C₁ at hrevoked
  have h₀ : C₁.threads 0 = some ⟨.authorize now req, consuming c, false⟩ := by
    simp [← hC, Config.set_threads]
  have h₁ : C₁.threads 1 = some ⟨.revoke c.agentId, .done .noContent, true⟩ := by
    rw [← hC, Config.set_threads_self]
  have hseen : C₁.shared.seenJti = s.seenJti := by rw [← hC]; rfl
  have hkey : C₁.shared.key = s.key := by rw [← hC]; rfl
  refine ⟨C₁, _, hrevoked, Run.nil.snoc (step_consume h₀ (hseen ▸ hj)), h₁, ?_,
    now, req, _, _, Config.set_threads_self _ _ _ _, rfl, ?_⟩
  · rintro ⟨now', req', v, f, ht, -⟩
    rw [h₀] at ht
    simp [consuming_eq] at ht
  · show tokenClaims X C₁.shared.key req = some c
    rw [hkey]
    exact hp.claims

end

theorem happy_race : ∃ C₁ C,
    Run (verifier Driver.happy.crates Driver.key) (.init (.new Driver.key))
      (raceTrace Driver.now Driver.happy.wire Driver.happy.claims) C₁ ∧
    Run (verifier Driver.happy.crates Driver.key) C₁
      [.step 0 (.seenInsert Driver.happy.claims.jti) true] C ∧
    C₁.threads 1 = some ⟨.revoke Driver.happy.claims.agentId, .done .noContent, true⟩ ∧
    ¬ Allowed Driver.happy.crates C₁ 0 Driver.happy.claims ∧
    Allowed Driver.happy.crates C 0 Driver.happy.claims :=
  race (s := .new Driver.key) Driver.happy_principalBound (by simp [VerifierState.new])
    Driver.happy_intentBound (by simp [VerifierState.new])

/-- In the race of the happy path, the check came before the revocation. -/
theorem allowed_checked_before_revoked_happy : ∃ C₁ C,
    Run (verifier Driver.happy.crates Driver.key) (.init (.new Driver.key))
      (raceTrace Driver.now Driver.happy.wire Driver.happy.claims) C₁ ∧
    Run (verifier Driver.happy.crates Driver.key) C₁
      [.step 0 (.seenInsert Driver.happy.claims.jti) true] C ∧
    Allowed Driver.happy.crates C 0 Driver.happy.claims ∧
    .step 0 (.revokedContains Driver.happy.claims.agentId) false ∈
      raceTrace Driver.now Driver.happy.wire Driver.happy.claims := by
  obtain ⟨C₁, C, h₁, h₂, hr, -, hi⟩ := happy_race
  exact ⟨C₁, C, h₁, h₂, hi,
    (allowed_checked_before_revoked (s := .new Driver.key) h₁ h₂ hr hi).1⟩

/-- A revocation that completed does not keep a handler from its ALLOW. -/
theorem not_revocation_final : ¬ ∀ (es es' : List VerifierEvent) (C₁ C : VerifierConfig) (r i : ℕ)
    (c : Claims) (ans : VerifierAnswer),
    Run (verifier Driver.happy.crates Driver.key) (.init (.new Driver.key)) es C₁ →
    Run (verifier Driver.happy.crates Driver.key) C₁ es' C →
    C₁.threads r = some ⟨.revoke c.agentId, .done ans, true⟩ →
    ¬ Allowed Driver.happy.crates C₁ i c → ¬ Allowed Driver.happy.crates C i c := by
  intro h
  obtain ⟨C₁, C, h₁, h₂, hr, hn, hi⟩ := happy_race
  exact h _ _ C₁ C 1 0 _ _ h₁ h₂ hr hn hi

end ExtAuthz
