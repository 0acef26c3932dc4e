/-
  The verifier is linearizable up to the whole responses
  (`responses_linearizable`).

  A handler that is refused takes effect when it starts, one that answers at its
  revocation check at the check, and a revocation at its insertion.  A handler
  that consumes its nonce takes effect at the check, too; but one that finds the
  nonce consumed may have passed its check before the handler that consumed it
  did.  It waits, and takes effect right after that other handler (`Helping`):
  its nonce is consumed from then on, and its agent not revoked, provided that
  the two tokens with the nonce are of one agent.
-/
import ExtAuthz.Lib.Helping
import ExtAuthz.Proof.History
import ExtAuthz.Proof.Linearizable

namespace ExtAuthz

open Interleave

/-! ## Verdicts -/

/-- The response to a token of a revoked agent. -/
def revokedVerdict : AuthorizeResponse :=
  deny Reason.agentRevoked "agent principal has been revoked"

/-- The response to a token whose nonce has been consumed. -/
def replayedVerdict : AuthorizeResponse :=
  deny Reason.tokenReplayed "jti already consumed"

section
variable {X : Crates} {key : List UInt8} {C C' : VerifierConfig} {i : ℕ} {now : Int64}
  {req : AuthorizeRequest} {c : Claims} {v : AuthorizeResponse} {call : VerifierCall} {f : Bool}
  {s : VerifierState}

theorem refused_exact (h : Step (verifier X key) C (.start i (.authorize now req)) C')
    (ht : C'.threads i = some ⟨call, .done (.verdict v), f⟩) (hk : s.key = key) :
    s.authorize X now req = (v, s) := by
  subst hk
  cases h with
  | start _ _ hn =>
    rw [Config.set_threads_self] at ht
    simp only [Option.some.injEq, Thread.mk.injEq] at ht
    obtain ⟨-, ht, -⟩ := ht
    rw [VerifierState.authorize_eq]
    simp only [verifier, authorize] at ht
    cases hb : beforeRevocation X s.key now req with
    | error d => rw [hb] at ht; cases ht; rfl
    | ok c => simp [hb, checkRevoked, Prog.map] at ht

theorem barred_exact {o : VerifierOp} {r : Bool}
    (h : Step (verifier X key) C (.step i o r) C')
    (ht : C.threads i = some ⟨.authorize now req, checking c req, false⟩)
    (hp : PrincipalBound X key now req c)
    (ht' : C'.threads i = some ⟨call, .done (.verdict v), f⟩) (hk : s.key = key)
    (hr : s.revokedAgents = C.shared.revokedAgents) : s.authorize X now req = (v, s) := by
  subst hk
  obtain ⟨_, next, h₁, h₂⟩ := h.op_inv
  rw [ht, checking_eq] at h₁
  cases h₁
  rw [ht'] at h₂
  simp only [Option.some.injEq, Thread.mk.injEq, verifier, VerifierOp.apply] at h₂
  rw [VerifierState.authorize_eq, beforeRevocation_eq_ok.2 hp, hr]
  obtain ⟨-, h₂, -⟩ := h₂
  by_cases ha : c.agentId ∈ C.shared.revokedAgents
  · simp_all
  · cases hi : afterRevocation c req with
    | error d => simp_all
    | ok u => simp [ha, hi, consuming_eq] at h₂

/-- A handler that does not consume its nonce finds it consumed. -/
theorem replayed_exact {o : VerifierOp} {r : Bool} {t : VerifierCall}
    (h : Step (verifier X key) C (.step i o r) C')
    (ht : C.threads i = some ⟨t, consuming c, false⟩)
    (ht' : C'.threads i = some ⟨call, .done (.verdict v), f⟩) (hv : v.decision = .deny) :
    c.jti ∈ C.shared.seenJti ∧ v = replayedVerdict := by
  obtain ⟨_, next, h₁, h₂⟩ := h.op_inv
  rw [ht, consuming_eq] at h₁
  cases h₁
  rw [ht'] at h₂
  simp only [Option.some.injEq, Thread.mk.injEq, verifier, VerifierOp.apply] at h₂
  obtain ⟨-, h₂, -⟩ := h₂
  by_cases hj : c.jti ∈ C.shared.seenJti
  · simp_all [replayedVerdict]
  · simp [hj] at h₂
    subst h₂
    cases hv

theorem authorize_of_seen (hp : PrincipalBound X s.key now req c) (hi : IntentBound c req)
    (hj : c.jti ∈ s.seenJti) : s.authorize X now req =
      (if c.agentId ∈ s.revokedAgents then revokedVerdict else replayedVerdict, s) := by
  rw [VerifierState.authorize_eq, beforeRevocation_eq_ok.2 hp]
  by_cases hr : c.agentId ∈ s.revokedAgents
  · simp [hr, revokedVerdict]
  · simp [hr, afterRevocation_eq_ok.2 hi, hj, replayedVerdict]

theorem authorize_of_revoked (hp : PrincipalBound X s.key now req c)
    (hr : c.agentId ∈ s.revokedAgents) : s.authorize X now req = (revokedVerdict, s) := by
  rw [VerifierState.authorize_eq, beforeRevocation_eq_ok.2 hp]
  simp [hr, revokedVerdict]

theorem revokedVerdict_ne : revokedVerdict ≠ replayedVerdict := by
  intro h
  exact absurd (congrArg AuthorizeResponse.reasonCode h) (by decide)

/-- A nonce is found consumed when it is, by a handler whose agent is not
    revoked. -/
theorem of_authorize_eq_replayed (hp : PrincipalBound X s.key now req c) (hi : IntentBound c req)
    (h : (s.authorize X now req).1 = replayedVerdict) :
    c.agentId ∉ s.revokedAgents ∧ c.jti ∈ s.seenJti := by
  by_cases hr : c.agentId ∈ s.revokedAgents
  · rw [VerifierState.authorize_eq, beforeRevocation_eq_ok.2 hp] at h
    exact absurd (by simpa [hr, revokedVerdict] using h) revokedVerdict_ne
  refine ⟨hr, ?_⟩
  by_contra hj
  rw [VerifierState.authorize_of_bound hp hr hi hj] at h
  cases congrArg AuthorizeResponse.decision h

end

/-! ## Settled handlers -/

/-- The handler `i` finds its nonce consumed in the end. -/
def Loser (F : VerifierConfig) (i : ℕ) : Prop :=
  ∃ call f, F.threads i = some ⟨call, .done (.verdict replayedVerdict), f⟩

/-- The nonce is consumed in the sequential state (`Abs`). -/
def Spent (X : Crates) (F C : VerifierConfig) (jti : String) : Prop :=
  jti ∈ C.shared.seenJti ∨ ∃ i c, Winner X F i ∧ At X consuming C i c ∧ c.jti = jti

/-- What the handler `i` will answer is settled: it has its answer, or it is
    about to consume a nonce that is its own, or spent already. -/
def Settled (X : Crates) (F C : VerifierConfig) (i : ℕ) : Prop :=
  (∃ call a f, C.threads i = some ⟨call, .done a, f⟩) ∨
    ∃ c, At X consuming C i c ∧ (Winner X F i ∨ Loser F i ∧ Spent X F C c.jti)

section
variable {X : Crates} {F C : VerifierConfig} {i j : ℕ} {now : Int64} {req : AuthorizeRequest}
  {c : Claims} {call : VerifierCall} {a : VerifierAnswer} {f : Bool}
  {t : Thread VerifierCall VerifierOp Bool VerifierAnswer} {s s₁ : VerifierState}

theorem Settled.threads_ne_none (h : Settled X F C i) : C.threads i ≠ none := by
  rcases h with ⟨call, a, f, ht⟩ | ⟨c, ⟨now, req, f, ht, -⟩, -⟩ <;> simp [ht]

theorem settled_done (ht : C.threads i = some ⟨call, .done a, f⟩) : Settled X F C i :=
  .inl ⟨call, a, f, ht⟩

theorem settled_consuming (h : At X consuming C i c) :
    Settled X F C i ↔ Winner X F i ∨ Loser F i ∧ Spent X F C c.jti := by
  constructor
  · rintro (⟨call, a, f, ht⟩ | ⟨d, hd, hs⟩)
    · exact absurd h (not_at_of_threads ht (consuming_ne_done · a) c)
    · rwa [(h.unique hd).1]
  · exact fun hs => .inr ⟨c, h, hs⟩

theorem not_settled_of_threads (ht : C.threads i = some t) (hd : ∀ a, t.prog ≠ .done a)
    (hc : ∀ c, consuming c ≠ t.prog) : ¬ Settled X F C i := by
  rintro (⟨call, a, f, ht'⟩ | ⟨d, hat, -⟩)
  · rw [ht] at ht'
    cases ht'
    exact hd a rfl
  · exact not_at_of_threads ht hc d hat

theorem not_settled_checking
    (ht : C.threads i = some ⟨call, checking c req, f⟩) : ¬ Settled X F C i :=
  not_settled_of_threads ht (by simp [checking_eq]) (consuming_ne_checking · _ _)

theorem not_settled_revoking {agent : String}
    (ht : C.threads i = some ⟨call, revoking agent, f⟩) : ¬ Settled X F C i :=
  not_settled_of_threads ht (by simp [revoking_eq]) (consuming_ne_revoking · _)

theorem spent_iff (h : Abs X (Winner X F) C s) (jti : String) :
    Spent X F C jti ↔ jti ∈ s.seenJti :=
  (h.seen jti).symm

theorem settled_ne (hj : j ≠ i) (hk : s₁.key = C.shared.key) :
    Settled X F (C.set i t s₁) j ↔ (∃ call a f, C.threads j = some ⟨call, .done a, f⟩) ∨
      ∃ c, At X consuming C j c ∧
        (Winner X F j ∨ Loser F j ∧ Spent X F (C.set i t s₁) c.jti) := by
  simp only [Settled, Config.set_threads_ne _ _ _ _ hj, at_ne hj hk]

/-- A step after which the sequential state has the same nonces settles no other
    handler. -/
theorem settled_ne_iff {s' : VerifierState} (hs : Abs X (Winner X F) C s)
    (hs' : Abs X (Winner X F) (C.set i t s₁) s') (hk : s₁.key = C.shared.key)
    (hseen : s'.seenJti = s.seenJti) (hj : j ≠ i) :
    Settled X F (C.set i t s₁) j ↔ Settled X F C j := by
  rw [settled_ne hj hk]
  simp only [Settled, spent_iff hs, spent_iff hs', hseen]

theorem not_winner_of_loser (h : Loser F i) : ¬ Winner X F i := by
  obtain ⟨call, f, ht⟩ := h
  rintro ⟨c, hc⟩
  exact not_at_of_threads ht (allowing_ne_deny rfl) c hc

end

/-! ## Agreement -/

/-- The handler `i` carries a token with the claims `c`. -/
def Carries (X : Crates) (C : VerifierConfig) (i : ℕ) (c : Claims) : Prop :=
  ∃ now req p f, C.threads i = some ⟨.authorize now req, p, f⟩ ∧
    tokenClaims X C.shared.key req = some c

/-- No two handlers carry tokens with one nonce for different agents. -/
def NonceOfOneAgent (X : Crates) (C : VerifierConfig) : Prop :=
  ∀ i j c d, Carries X C i c → Carries X C j d → c.jti = d.jti → c.agentId = d.agentId

/-- The answers are equal.  If `one` does not hold, a handler may find its nonce
    consumed where it had found its agent revoked. -/
def SameAnswer (one : Prop) (a b : VerifierAnswer) : Prop :=
  a = b ∨ ¬ one ∧ a = .verdict revokedVerdict ∧ b = .verdict replayedVerdict

theorem At.carries {X : Crates} {p : Claims → VerifierProg} {C : VerifierConfig} {i : ℕ}
    {c : Claims} (h : At X p C i c) : Carries X C i c := by
  obtain ⟨now, req, f, ht, hp, -⟩ := h
  exact ⟨now, req, _, f, ht, hp.claims⟩

theorem Carries.later {X : Crates} {C F : VerifierConfig} {i : ℕ} {c : Claims}
    (h : Carries X C i c) (hl : Later C F) (hk : F.shared.key = C.shared.key) :
    Carries X F i c := by
  obtain ⟨now, req, p, f, ht, hc⟩ := h
  obtain ⟨⟨call, p', f'⟩, ht', hcall, -⟩ := hl i _ ht
  cases hcall
  exact ⟨now, req, p', f', ht', hk ▸ hc⟩

/-! ## The steps -/

/-- The handlers `js` take effect in the step. -/
abbrev HelpingStep (X : Crates) (F C C' : VerifierConfig) (s s' : VerifierState) (js : List ℕ) :
    Prop :=
  Helping (verifier X C.shared.key) F (SameAnswer (NonceOfOneAgent X F)) (Settled X F)
    (Abs X (Winner X F)) C C' s s' js

section
variable {X : Crates} {s₀ : VerifierState} {C C' F : VerifierConfig} {e : VerifierEvent} {i : ℕ}
  {now : Int64} {req : AuthorizeRequest} {c : Claims} {call : VerifierCall} {a b : VerifierAnswer}
  {f : Bool} {t : Thread VerifierCall VerifierOp Bool VerifierAnswer} {s s' s₁ : VerifierState}
  {es : List VerifierEvent}

theorem helping_nil (hs : Abs X (Winner X F) C s) (hs' : Abs X (Winner X F) (C.set i t s₁) s)
    (hi : Settled X F (C.set i t s₁) i ↔ Settled X F C i) :
    HelpingStep X F C (C.set i t s₁) s s [] := by
  have hk : s₁.key = C.shared.key := hs'.key.symm.trans hs.key
  refine ⟨List.nodup_nil, by simp, by simp, ?_, .nil s, hs'⟩
  intro j
  by_cases hj : j = i
  · subst hj
    simp [hi]
  · simp [settled_ne_iff hs hs' hk rfl hj]

theorem helping_self (hs : Abs X (Winner X F) C s) (hs' : Abs X (Winner X F) (C.set i t s₁) s')
    (hseen : s'.seenJti = s.seenJti) (hk : s'.key = s.key) (hn : ¬ Settled X F C i)
    (hi : Settled X F (C.set i t s₁) i) (hu : ∀ t, C.threads i = some t → t.finished = false)
    (hF : ∃ f, F.threads i = some ⟨call, .done a, f⟩)
    (hrun : (verifier X s.key).run call s = (b, s'))
    (ha : SameAnswer (NonceOfOneAgent X F) b a) :
    HelpingStep X F C (C.set i t s₁) s s' [i] := by
  have hk' : s₁.key = C.shared.key := (hs'.key.symm.trans hk).trans hs.key
  obtain ⟨f, hF⟩ := hF
  refine ⟨List.nodup_singleton i, by simpa using hn, by simpa using hu, ?_, ?_, hs'⟩
  · intro j
    by_cases hj : j = i
    · subst hj
      simp [hi]
    · simp [settled_ne_iff hs hs' hk' hseen hj, hj]
  · rw [← hs.key]
    have h : Replay (verifier X s.key) F (SameAnswer (NonceOfOneAgent X F)) s [i] _ :=
      .cons hF (by rwa [hrun]) (.nil _)
    rwa [hrun] at h

/-- The handlers that wait for the nonce `jti`, and will find it consumed. -/
def Waiting (X : Crates) (F C : VerifierConfig) (jti : String) (j : ℕ) : Prop :=
  Loser F j ∧ ∃ d, At X consuming C j d ∧ d.jti = jti

theorem replay_waiting (hl : Later C F) (hkF : F.shared.key = C.shared.key)
    (hk : s.key = C.shared.key) (hr : c.agentId ∉ s.revokedAgents) (hj : c.jti ∈ s.seenJti)
    (hc : Carries X F i c) {js : List ℕ} (hjs : ∀ j ∈ js, Waiting X F C c.jti j) :
    Replay (verifier X C.shared.key) F (SameAnswer (NonceOfOneAgent X F)) s js s := by
  refine .of_const fun j hjm => ?_
  obtain ⟨⟨call, f, hF⟩, d, hd, he⟩ := hjs j hjm
  obtain ⟨now, req, f', ht, hp, hi⟩ := hd
  obtain ⟨t', ht', hcall, -⟩ := hl j _ ht
  rw [hF] at ht'
  cases ht'
  cases hcall
  rw [← hk] at hp
  refine ⟨_, _, f, hF, ?_⟩
  rw [← hk, verifier_run_authorize, authorize_of_seen hp hi (he ▸ hj)]
  refine ⟨?_, rfl⟩
  by_cases hd : d.agentId ∈ s.revokedAgents
  · refine .inr ⟨fun hone => hr ?_, by simp [hd], rfl⟩
    have hdF : Carries X F j d := Carries.later ⟨now, req, _, f', ht, hk ▸ hp.claims⟩ hl hkF
    exact hone j i d c hdF hc he ▸ hd
  · exact .inl (by simp [hd])

theorem Waiting.threads_ne_none {jti : String} (h : Waiting X F C jti i) : C.threads i ≠ none := by
  obtain ⟨-, d, ⟨now, req, f, ht, -⟩, -⟩ := h
  simp [ht]

theorem Waiting.unfinished {jti : String} (h : Waiting X F C jti i)
    (hdone : ∀ i t, C.threads i = some t → t.finished = true → ∃ a, t.prog = .done a)
    (ht : C.threads i = some t) : t.finished = false := by
  obtain ⟨-, d, ⟨now, req, f, ht', -⟩, -⟩ := h
  cases ht.symm.trans ht'
  cases f with
  | false => rfl
  | true =>
    obtain ⟨a, ha⟩ := hdone i _ ht' rfl
    exact absurd ha (consuming_ne_done d a)

/-- As long as the nonce is fresh, a waiting handler is not settled. -/
theorem Waiting.not_settled {jti : String} (h : Waiting X F C jti i)
    (hs : Abs X (Winner X F) C s) (hj : jti ∉ s.seenJti) : ¬ Settled X F C i := by
  obtain ⟨hlose, d, hd, rfl⟩ := h
  intro hset
  rcases (settled_consuming hd).1 hset with hw | ⟨-, hsp⟩
  · exact not_winner_of_loser hlose hw
  · exact hj ((spent_iff hs _).1 hsp)

/-- When a nonce is spent, the handlers that wait for it are settled. -/
theorem settled_insert_iff {j : ℕ} {jti : String} (hs : Abs X (Winner X F) C s)
    (hs' : Abs X (Winner X F) (C.set i t s₁) { s with seenJti := insert jti s.seenJti })
    (hk : s₁.key = C.shared.key) (hj : j ≠ i) :
    Settled X F (C.set i t s₁) j ↔ Settled X F C j ∨ Waiting X F C jti j := by
  rw [settled_ne hj hk]
  simp only [Settled, Waiting, spent_iff hs, spent_iff hs', Finset.mem_insert]
  constructor
  · rintro (h | ⟨d, hd, hw | ⟨hlose, he | hsp⟩⟩)
    · exact .inl (.inl h)
    · exact .inl (.inr ⟨d, hd, .inl hw⟩)
    · exact .inr ⟨hlose, d, hd, he⟩
    · exact .inl (.inr ⟨d, hd, .inr ⟨hlose, hsp⟩⟩)
  · rintro ((h | ⟨d, hd, hw | ⟨hlose, hsp⟩⟩) | ⟨hlose, d, hd, he⟩)
    · exact .inl h
    · exact .inr ⟨d, hd, .inl hw⟩
    · exact .inr ⟨d, hd, .inr ⟨hlose, .inr hsp⟩⟩
    · exact .inr ⟨d, hd, .inr ⟨hlose, .inl he⟩⟩

/-- The check of a winner settles its own answer, and those of the handlers that
    wait for its nonce. -/
theorem helping_checked (hlC : Ledger X s₀ C) (hlF : Ledger X s₀ F)
    (hkF : F.shared.key = C.shared.key) (hs : Abs X (Winner X F) C s)
    (hthreads : {i | C.threads i ≠ none}.Finite)
    (hdone : ∀ i t, C.threads i = some t → t.finished = true → ∃ a, t.prog = .done a)
    (ht : C.threads i = some ⟨.authorize now req, checking c req, false⟩)
    (hp : PrincipalBound X C.shared.key now req c) (hi : IntentBound c req)
    (hr : c.agentId ∉ C.shared.revokedAgents) (hl : Later C F) (hw : Winner X F i) :
    ∃ js, HelpingStep X F C (C.set i ⟨.authorize now req, consuming c, false⟩ C.shared) s
      { s with seenJti := insert c.jti s.seenJti } js := by
  obtain ⟨hat, hans⟩ := hw.allowing (p := (checking · req)) hl hkF ⟨now, req, false, ht, hp, hi⟩
  obtain ⟨f, hF⟩ := hans _ ht
  have hfresh : c.jti ∉ s.seenJti := jti_notMem_of_abs hlC hlF hl hkF hat ht hs
  have hs' := abs_checked hs ht hp hi hw
  have hwait : {j | Waiting X F C c.jti j}.Finite :=
    hthreads.subset fun j hj => Waiting.threads_ne_none hj
  have hmem (j : ℕ) : j ∈ hwait.toFinset.toList ↔ Waiting X F C c.jti j := by simp
  have hself : ¬ Waiting X F C c.jti i := by
    rintro ⟨-, d, hd, -⟩
    exact not_at_of_threads ht (consuming_ne_checking · _ _) d hd
  refine ⟨i :: hwait.toFinset.toList, ?_, ?_, ?_, ?_, ?_, hs'⟩
  · exact List.nodup_cons.2 ⟨fun h => hself ((hmem i).1 h), Finset.nodup_toList _⟩
  · intro j hj
    rcases List.mem_cons.1 hj with rfl | hj
    · exact not_settled_checking ht
    · exact ((hmem j).1 hj).not_settled hs hfresh
  · intro j hj t htj
    rcases List.mem_cons.1 hj with rfl | hj
    · rw [ht] at htj
      cases htj
      rfl
    · exact ((hmem j).1 hj).unfinished hdone htj
  · intro j
    rw [List.mem_cons, hmem]
    by_cases hj : j = i
    · subst hj
      have hatc : At X consuming
          (C.set j ⟨.authorize now req, consuming c, false⟩ C.shared) j c :=
        ⟨now, req, false, Config.set_threads_self _ _ _ _, hp, hi⟩
      simp [settled_consuming hatc, hw]
    · simp [settled_insert_iff hs hs' rfl hj, hj]
  · have hrun : (verifier X C.shared.key).run (.authorize now req) s =
        (.verdict (allow c), { s with seenJti := insert c.jti s.seenJti }) := by
      rw [← hs.key, verifier_run_authorize, VerifierState.authorize_of_bound (hs.key.symm ▸ hp)
        (hs.revoked.symm ▸ hr) hi hfresh]
    refine .cons hF (.inl (by rw [hrun])) ?_
    rw [hrun]
    exact replay_waiting (s := { s with seenJti := insert c.jti s.seenJti }) hl hkF hs.key
      (hs.revoked.symm ▸ hr) (Finset.mem_insert_self _ _) hat.carries fun j hj => (hmem j).1 hj

/-- The check of a handler that does not win settles its own answer, or nothing:
    it waits, unless its nonce is spent. -/
theorem helping_passed (hs : Abs X (Winner X F) C s)
    (ht : C.threads i = some ⟨.authorize now req, checking c req, false⟩)
    (hp : PrincipalBound X C.shared.key now req c) (hi : IntentBound c req)
    (hr : c.agentId ∉ C.shared.revokedAgents) (hl : Later C F) (hw : ¬ Winner X F i) :
    ∃ js, HelpingStep X F C (C.set i ⟨.authorize now req, consuming c, false⟩ C.shared) s s js := by
  have hat : At X consuming (C.set i ⟨.authorize now req, consuming c, false⟩ C.shared) i c :=
    ⟨now, req, false, Config.set_threads_self _ _ _ _, hp, hi⟩
  have hs' : Abs X (Winner X F)
      (C.set i ⟨.authorize now req, consuming c, false⟩ C.shared) s :=
    hs.congr hs.key hs.revoked rfl rfl fun j d hwj => at_ne (fun he => hw (he ▸ hwj)) rfl
  by_cases hlose : Loser F i ∧ c.jti ∈ s.seenJti
  · obtain ⟨⟨call, f, hF⟩, hj⟩ := hlose
    obtain ⟨t', ht', hcall, -⟩ := hl i _ ht
    cases hF.symm.trans ht'
    cases hcall
    have hset : Settled X F (C.set i ⟨.authorize now req, consuming c, false⟩ C.shared) i :=
      (settled_consuming hat).2 (.inr ⟨⟨_, f, hF⟩, (spent_iff hs' _).2 hj⟩)
    have hopen (t) (hti : C.threads i = some t) : t.finished = false := by
      cases ht.symm.trans hti
      rfl
    refine ⟨[i], helping_self hs hs' rfl rfl (not_settled_checking ht) hset hopen ⟨f, hF⟩ ?_
      (.inl rfl)⟩
    rw [verifier_run_authorize, authorize_of_seen (hs.key.symm ▸ hp) hi hj,
      if_neg (hs.revoked.symm ▸ hr)]
  · refine ⟨[], helping_nil hs hs' (iff_of_false ?_ (not_settled_checking ht))⟩
    rw [settled_consuming hat, spent_iff hs']
    exact not_or.2 ⟨hw, hlose⟩

/-! ## Runs -/

theorem bound_of_checking
    (h : Stage X s (.authorize now req) (checking c req)) :
    ∃ d, checking d req = checking c req ∧ PrincipalBound X s.key now req d := by
  generalize hp : checking c req = p at h
  cases h with
  | @checking _ _ d hpb => exact ⟨d, rfl, hpb⟩
  | consuming => exact absurd hp.symm (consuming_ne_checking _ _ _)
  | allowed => simp [checking_eq] at hp
  | denied => simp [checking_eq] at hp

theorem bound_of_consuming (h : Stage X s (.authorize now req) (consuming c)) :
    ∃ d, consuming d = consuming c ∧ PrincipalBound X s.key now req d ∧ IntentBound d req := by
  generalize hp : consuming c = p at h
  cases h with
  | checking => exact absurd hp (consuming_ne_checking _ _ _)
  | @consuming _ _ d hpb hi => exact ⟨d, rfl, hpb, hi⟩
  | allowed => exact absurd hp (consuming_ne_done _ _)
  | denied => exact absurd hp (consuming_ne_done _ _)

/-- In every step some handlers take effect. -/
theorem Micro.helping (hst : Staged X C) (hlC : Ledger X s₀ C) (hlF : Ledger X s₀ F)
    (hkF : F.shared.key = C.shared.key) (hthreads : {i | C.threads i ≠ none}.Finite)
    (hdone : ∀ i t, C.threads i = some t → t.finished = true → ∃ a, t.prog = .done a)
    (hm : Micro X C e C') (hstep : Step (verifier X C.shared.key) C e C') (hl : Later C' F)
    (hs : Abs X (Winner X F) C s) : ∃ js s', HelpingStep X F C C' s s' js := by
  have hself {i : ℕ} {t : Thread VerifierCall VerifierOp Bool VerifierAnswer} {s : VerifierState} :
      (C.set i t s).threads i = some t := Config.set_threads_self _ _ _ _
  have hfirst {i : ℕ} (hn : C.threads i = none) (t) (ht : C.threads i = some t) :
      t.finished = false := by
    rw [hn] at ht
    cases ht
  have hopen {i : ℕ} {call : VerifierCall} {p : VerifierProg}
      (h : C.threads i = some ⟨call, p, false⟩) (t) (ht : C.threads i = some t) :
      t.finished = false := by
    rw [h] at ht
    cases ht
    rfl
  cases hm with
  | started i hn hp =>
    refine ⟨[], s, helping_nil hs ?_ (iff_of_false (not_settled_checking hself) ?_)⟩
    · exact hs.congr hs.key hs.revoked rfl rfl fun j d _ =>
        at_start hn (consuming_ne_checking · _ _)
    · exact fun h => h.threads_ne_none hn
  | refused i hn hv hd =>
    obtain ⟨f, hF, -⟩ := hl.done hself
    refine ⟨[i], s, helping_self hs ?_ rfl rfl (fun h => h.threads_ne_none hn) (settled_done hself)
      (hfirst hn) ⟨f, hF⟩ ?_ (.inl rfl)⟩
    · exact hs.congr hs.key hs.revoked rfl rfl fun j d _ => at_start hn (consuming_ne_done · _)
    · rw [verifier_run_authorize, refused_exact hstep hself hs.key]
  | revoking i a hn =>
    refine ⟨[], s, helping_nil hs ?_ (iff_of_false (not_settled_revoking hself) ?_)⟩
    · exact hs.congr hs.key hs.revoked rfl rfl fun j d _ =>
        at_start hn (consuming_ne_revoking · _)
    · exact fun h => h.threads_ne_none hn
  | barred i ht hv hd =>
    obtain ⟨f, hF, -⟩ := hl.done hself
    obtain ⟨d, he, hp⟩ := bound_of_checking (hst i _ ht)
    refine ⟨[i], s, helping_self hs ?_ rfl rfl (not_settled_checking ht) (settled_done hself)
      (hopen ht) ⟨f, hF⟩ ?_ (.inl rfl)⟩
    · exact hs.congr hs.key hs.revoked rfl rfl fun j d _ =>
        at_step rfl ht (consuming_ne_checking · _ _) (consuming_ne_done · _)
    · rw [verifier_run_authorize, barred_exact hstep (he ▸ ht) hp hself hs.key hs.revoked]
  | @checked i now req c ht hp hi hr =>
    have hC := hstep.later.trans hl
    by_cases hw : Winner X F i
    · obtain ⟨js, hjs⟩ := helping_checked hlC hlF hkF hs hthreads hdone ht hp hi hr hC hw
      exact ⟨js, _, hjs⟩
    · obtain ⟨js, hjs⟩ := helping_passed hs ht hp hi hr hC hw
      exact ⟨js, _, hjs⟩
  | @consumed i now req c ht hp hi hj =>
    have hw : Winner X F i := winner_of_allowing (c := c) hl hkF ⟨now, req, false, hself, hp, hi⟩
    refine ⟨[], s, helping_nil hs (abs_consumed hs ht hp hi hw) (iff_of_true (settled_done hself)
      ?_)⟩
    exact (settled_consuming ⟨now, req, false, ht, hp, hi⟩).2 (.inl hw)
  | @replayed i now req c v ht hv hd =>
    have hw : ¬ Winner X F i := not_winner_of_deny hl hself hv
    obtain ⟨d, he, hp, hi⟩ := bound_of_consuming (hst i _ ht)
    rw [← he] at ht
    obtain ⟨hj, rfl⟩ := replayed_exact hstep ht hself hv
    obtain ⟨f, hF, -⟩ := hl.done hself
    refine ⟨[], s, helping_nil hs ?_ (iff_of_true (settled_done hself) ?_)⟩
    · exact hs.congr hs.key hs.revoked rfl rfl fun j d hwj => at_ne (fun he => hw (he ▸ hwj)) rfl
    · exact (settled_consuming ⟨now, req, false, ht, hp, hi⟩).2 (.inr ⟨⟨_, f, hF⟩, .inl hj⟩)
  | @revoked i a ht =>
    obtain ⟨f, hF, -⟩ := hl.done hself
    refine ⟨[i], { s with revokedAgents := insert a s.revokedAgents }, helping_self hs ?_ rfl rfl
      (not_settled_revoking ht) (settled_done hself) (hopen ht) ⟨f, hF⟩
      (verifier_run_revoke X s.key s a) (.inl rfl)⟩
    exact hs.congr hs.key (by simp [hs.revoked]) rfl rfl fun j d _ =>
      at_step rfl ht (consuming_ne_revoking · _) (consuming_ne_done · _)
  | @finished i call a ht =>
    refine ⟨[], s, helping_nil hs ?_ (iff_of_true (settled_done hself) (settled_done ht))⟩
    exact hs.congr hs.key hs.revoked rfl rfl fun j d _ => at_finish ht

/-- Every run has a sequential order, up to `SameAnswer`. -/
theorem exists_order (h : Run (verifier X s.key) (.init s) es F) :
    ∃ is, Linearization (verifier X s.key) s es F (SameAnswer (NonceOfOneAgent X F)) is := by
  obtain ⟨-, hleF⟩ := staged_of_run (staged_init X s) h
  have hlF := ledger_run h
  refine h.linearization_helping (Settled X F) (Abs X (Winner X F))
    (fun C i hi => hi.threads_ne_none) ?_ ?_ (fun i c a ht => settled_done ht)
    fun s' hs => hs.eq_shared
  · refine ⟨rfl, rfl, fun jti => ⟨.inl, ?_⟩⟩
    rintro (hj | ⟨i, c, -, ⟨now, req, f, ht, -⟩, -⟩)
    · exact hj
    · cases ht
  · intro es C e C' s' hr hs hstep hl
    obtain ⟨hst, hle⟩ := staged_of_run (staged_init X s) hr
    have hk : C.shared.key = s.key := hle.key
    have hfin := hr.finite_threads
    have hdone := fun i t => hr.done_of_finished (i := i) (t := t)
    rw [← hk] at hstep ⊢
    exact (micro_of_step hst hstep).helping hst (ledger_run hr) hlF (hleF.key.trans hk.symm)
      hfin hdone hstep hl hs

end

/-- The same answer, or a spent nonce where the agent is revoked in sequence. -/
def SameUpToRevoked (a b : VerifierAnswer) : Prop :=
  a = b ∨ a = .verdict revokedVerdict ∧ b = .verdict replayedVerdict

/-- **Linearizability of the responses**: for every run there is a sequential
    order of its handlers, consistent with real time, which ends in the same state
    and in which every handler gives the response that it gave, but for one that
    found its nonce consumed and finds its agent revoked instead.  There is no
    such exception if no nonce is of two agents. -/
theorem responses_linearizable {X : Crates} {s : VerifierState} {es : List VerifierEvent}
    {F : VerifierConfig} (h : Run (verifier X s.key) (.init s) es F) :
    (∃ is, Linearization (verifier X s.key) s es F SameUpToRevoked is) ∧
      (NonceOfOneAgent X F →
        ∃ is, Linearization (verifier X s.key) s es F (fun a b => a = b) is) := by
  obtain ⟨is, hlin⟩ := exists_order h
  refine ⟨⟨is, hlin.mono ?_⟩, fun hone => ⟨is, hlin.mono ?_⟩⟩
  · rintro a b (he | ⟨-, ha, hb⟩)
    · exact .inl he
    · exact .inr ⟨ha, hb⟩
  · rintro a b (he | ⟨hn, -⟩)
    · exact he
    · exact absurd hone hn

/-- Two handlers with one token, both past their checks: handler 0 finds its
    nonce consumed, by handler 1. -/
def helpedTrace (now : Int64) (req : AuthorizeRequest) (c : Claims) : List VerifierEvent :=
  [.start 0 (.authorize now req), .step 0 (.revokedContains c.agentId) false,
    .start 1 (.authorize now req), .step 1 (.revokedContains c.agentId) false,
    .step 1 (.seenInsert c.jti) true, .step 0 (.seenInsert c.jti) false]

theorem step_replay {X : Crates} {C : VerifierConfig} {now : Int64} {req : AuthorizeRequest}
    {c : Claims} {key : List UInt8} {i : ℕ}
    (ht : C.threads i = some ⟨.authorize now req, consuming c, false⟩)
    (hj : c.jti ∈ C.shared.seenJti) :
    Step (verifier X key) C (.step i (.seenInsert c.jti) false)
      (C.set i ⟨.authorize now req, .done (.verdict replayedVerdict), false⟩ C.shared) := by
  rw [consuming_eq] at ht
  simpa [verifier, VerifierOp.apply, hj, replayedVerdict] using
    Step.step (O := verifier X key) i ht

theorem Driver.nonceOfOneAgent_helped {F : VerifierConfig}
    (h : Run (verifier happy.crates key) (.init (.new key))
      (helpedTrace now happy.wire happy.claims) F) : NonceOfOneAgent happy.crates F := by
  have hk : F.shared.key = key := (staged_of_run (staged_init happy.crates (.new key)) h).2.key
  have hclaims {i : ℕ} {c : Claims} (hc : Carries happy.crates F i c) : c = happy.claims := by
    obtain ⟨now', req, p, f, ht, hc⟩ := hc
    have hmem := h.start_mem rfl ht
    simp only [helpedTrace, List.mem_cons, Event.start.injEq, VerifierCall.authorize.injEq,
      reduceCtorEq, List.not_mem_nil, or_false, false_or] at hmem
    have hreq : req = happy.wire := by
      rcases hmem with ⟨-, -, rfl⟩ | ⟨-, -, rfl⟩ <;> rfl
    rw [hreq, hk, happy.tokenClaims_wire] at hc
    exact (Option.some.inj hc).symm
  intro i j c d hc hd _
  rw [hclaims hc, hclaims hd]

/-- In the happy path, sent twice, one handler helps the other. -/
theorem responses_linearizable_happy : ∃ F is,
    Run (verifier Driver.happy.crates Driver.key) (.init (.new Driver.key))
      (helpedTrace Driver.now Driver.happy.wire Driver.happy.claims) F ∧
    F.threads 0 =
      some ⟨.authorize Driver.now Driver.happy.wire, .done (.verdict replayedVerdict), false⟩ ∧
    Linearization (verifier Driver.happy.crates Driver.key) (.new Driver.key)
      (helpedTrace Driver.now Driver.happy.wire Driver.happy.claims) F (fun a b => a = b) is := by
  have hself {C : VerifierConfig} {i : ℕ} {t : Thread VerifierCall VerifierOp Bool VerifierAnswer}
      {s : VerifierState} : (C.set i t s).threads i = some t := Config.set_threads_self _ _ _ _
  have hp := Driver.happy_principalBound
  have hi := Driver.happy_intentBound
  have hchecked : Run (verifier Driver.happy.crates Driver.key) (.init (.new Driver.key)) _ _ :=
    (Run.nil.snoc (step_authorize (i := 0) rfl hp)).snoc
      (step_check hself (by simp [VerifierState.new]) hi)
  have hallowed : Run (verifier Driver.happy.crates Driver.key) (.init (.new Driver.key)) _ _ :=
    ((hchecked.snoc (step_authorize (i := 1) (by simp [Config.set_threads]) hp)).snoc
      (step_check hself (by simp [VerifierState.new]) hi)).snoc
      (step_consume hself (by simp [VerifierState.new]))
  have hreplayed : Run (verifier Driver.happy.crates Driver.key) (.init (.new Driver.key)) _ _ :=
    hallowed.snoc (@step_replay _ _ Driver.now Driver.happy.wire Driver.happy.claims _ 0
      (by simp [Config.set_threads]) (by simp))
  obtain ⟨is, hlin⟩ := (responses_linearizable (s := .new Driver.key) hreplayed).2
    (Driver.nonceOfOneAgent_helped hreplayed)
  exact ⟨_, is, hreplayed, hself, hlin⟩

/-! ## A nonce of two agents -/

section
variable {X : Crates} {s : VerifierState} {now now' : Int64} {req req' : AuthorizeRequest}
  {c d : Claims}

/-- Handler 0 passes its check, and its agent is revoked; handler 2 spends the
    nonce of handler 0 for another agent. -/
def sharedTrace (now now' : Int64) (req req' : AuthorizeRequest) (c d : Claims) :
    List VerifierEvent :=
  [.start 0 (.authorize now req), .step 0 (.revokedContains c.agentId) false,
    .start 1 (.revoke c.agentId), .step 1 (.revokedInsert c.agentId) true, .finish 1 .noContent,
    .start 2 (.authorize now' req'), .step 2 (.revokedContains d.agentId) false,
    .step 2 (.seenInsert d.jti) true, .finish 2 (.verdict (allow d)),
    .step 0 (.seenInsert c.jti) false, .finish 0 (.verdict replayedVerdict)]

theorem run_sharedTrace (hp : PrincipalBound X s.key now req c) (hi : IntentBound c req)
    (hp' : PrincipalBound X s.key now' req' d) (hi' : IntentBound d req') (hj : c.jti = d.jti)
    (ha : c.agentId ≠ d.agentId) (hc : c.agentId ∉ s.revokedAgents)
    (hd : d.agentId ∉ s.revokedAgents) (hf : c.jti ∉ s.seenJti) :
    ∃ F, Run (verifier X s.key) (.init s) (sharedTrace now now' req req' c d) F ∧
      F.threads 0 = some ⟨.authorize now req, .done (.verdict replayedVerdict), true⟩ ∧
      F.threads 1 = some ⟨.revoke c.agentId, .done .noContent, true⟩ ∧
      F.threads 2 = some ⟨.authorize now' req', .done (.verdict (allow d)), true⟩ ∧
      ∀ i, 2 < i → F.threads i = none := by
  have hself {C : VerifierConfig} {i : ℕ} {t : Thread VerifierCall VerifierOp Bool VerifierAnswer}
      {s : VerifierState} : (C.set i t s).threads i = some t := Config.set_threads_self _ _ _ _
  have hchecked : Run (verifier X s.key) (.init s) _ _ :=
    (Run.nil.snoc (step_authorize (i := 0) rfl hp)).snoc (step_check hself hc hi)
  have hrevoked : Run (verifier X s.key) (.init s) _ _ :=
    ((hchecked.snoc (step_revoke (i := 1) (by simp [Config.set_threads]) c.agentId)).snoc
      (step_revoked hself)).snoc (.finish 1 hself)
  simp only [Config.set_shared, Config.init_shared, hc, not_false_eq_true, decide_true] at hrevoked
  have hallowed : Run (verifier X s.key) (.init s) _ _ :=
    (((hrevoked.snoc (step_authorize (i := 2) (by simp [Config.set_threads]) hp')).snoc
      (step_check hself (by simp [hd, ha.symm]) hi')).snoc
      (step_consume hself (by simp [← hj, hf]))).snoc (.finish 2 hself)
  have hreplayed : Run (verifier X s.key) (.init s) _ _ :=
    (hallowed.snoc (@step_replay X _ now req c s.key 0 (by simp [Config.set_threads])
      (by simp [hj]))).snoc (.finish 0 hself)
  refine ⟨_, hreplayed, ?_, ?_, ?_, ?_⟩
  · simp
  · simp [Config.set_threads]
  · simp [Config.set_threads, allowing]
  · intro i hi
    have h₀ : i ≠ 0 := by omega
    have h₁ : i ≠ 1 := by omega
    have h₂ : i ≠ 2 := by omega
    simp [Config.set_threads, h₀, h₁, h₂]

/-- When one nonce is of two agents, no sequential order need give the responses,
    in whatever state it ends: handler 0 found its nonce consumed, but handler 2,
    which consumed it, started after handler 1 had revoked the agent of handler 0. -/
theorem no_order_of_shared_nonce (hp : PrincipalBound X s.key now req c) (hi : IntentBound c req)
    (hp' : PrincipalBound X s.key now' req' d) (hi' : IntentBound d req') (hj : c.jti = d.jti)
    (ha : c.agentId ≠ d.agentId) (hc : c.agentId ∉ s.revokedAgents)
    (hd : d.agentId ∉ s.revokedAgents) (hf : c.jti ∉ s.seenJti) :
    ∃ es F, Run (verifier X s.key) (.init s) es F ∧
      F.threads 0 = some ⟨.authorize now req, .done (.verdict replayedVerdict), true⟩ ∧
      F.threads 1 = some ⟨.revoke c.agentId, .done .noContent, true⟩ ∧
      F.threads 2 = some ⟨.authorize now' req', .done (.verdict (allow d)), true⟩ ∧
      (∀ i, 2 < i → F.threads i = none) ∧
      ¬ ∃ is, AnswerOrder (verifier X s.key) s es F (fun a b => a = b) is := by
  obtain ⟨F, hrun, h₀, h₁, h₂, hnone⟩ := run_sharedTrace hp hi hp' hi' hj ha hc hd hf
  refine ⟨_, F, hrun, h₀, h₁, h₂, hnone, ?_⟩
  rintro ⟨is, hlin⟩
  have h0 : 0 ∈ is := hlin.complete 0 (.verdict replayedVerdict) (by simp [sharedTrace])
  have h1 : 1 ∈ is := hlin.complete 1 .noContent (by simp [sharedTrace])
  have h2 : 2 ∈ is := hlin.complete 2 (.verdict (allow d)) (by simp [sharedTrace])
  have hb : Before (sharedTrace now now' req req' c d) 1 2 :=
    ⟨sharedTrace now now' req req' c d |>.take 4, [], sharedTrace now now' req req' c d |>.drop 6,
      .noContent, .authorize now' req', rfl⟩
  have hrt := hlin.realTime 1 h1 2 h2 hb
  obtain ⟨l, l', rfl⟩ := List.append_of_mem h0
  obtain ⟨s'', hreplay⟩ := hlin.replay
  obtain ⟨s', hr, hr'⟩ := hreplay.append_inv
  have hs' : s' = s.after X (F.calls l) := hr.eq_after
  have hk : s'.key = s.key := by rw [hs', after_key]
  have hans : (s'.authorize X now req).1 = replayedVerdict := by
    cases hr' with
    | cons ht hag _ =>
      rw [h₀] at ht
      cases ht
      rw [← hk, verifier_run_authorize] at hag
      exact VerifierAnswer.verdict.inj hag
  obtain ⟨hrev, hseen⟩ := of_authorize_eq_replayed (hk ▸ hp) hi hans
  rw [hs', mem_revokedAgents_after, not_or] at hrev
  rw [hs', mem_seenJti_after] at hseen
  -- the handler that spent the nonce before handler 0 is handler 2
  have h2l : 2 ∈ l := by
    obtain ⟨l₁, now₁, req₁, l₂, he, -⟩ := hseen.resolve_left hf
    have hcall : .authorize now₁ req₁ ∈ F.calls l := by simp [he]
    obtain ⟨i, hil, hic⟩ := List.mem_filterMap.1 hcall
    obtain ⟨t, ht, htc⟩ := Option.map_eq_some_iff.1 hic
    have hstart := hrun.start_mem rfl ht
    rw [htc] at hstart
    simp only [sharedTrace, List.mem_cons, Event.start.injEq, VerifierCall.authorize.injEq,
      reduceCtorEq, and_false, List.not_mem_nil, or_false, false_or] at hstart
    rcases hstart with ⟨rfl, -⟩ | ⟨rfl, -⟩
    · exact absurd rfl ((List.nodup_append.1 hlin.nodup).2.2 0 hil 0 List.mem_cons_self)
    · exact hil
  -- so the revocation comes first
  have h1l : 1 ∈ l := mem_of_pair_sublist hrt hlin.nodup h2l
  exact hrev.2 (List.mem_filterMap.2 ⟨1, h1l, by rw [h₁]; rfl⟩)

end

theorem Driver.grant_bound (agent : String) :
    PrincipalBound rivalCrates key now (grantWire agent) (grantFor agent) ∧
      IntentBound (grantFor agent) (grantWire agent) := by
  have hallow : ((VerifierState.new key).authorize rivalCrates now (grantWire agent)).1.decision =
      .allow :=
    (grant_allow_iff rfl agent).2 ⟨by simp [VerifierState.new], by simp [VerifierState.new]⟩
  obtain ⟨c, hp, -, hi, -⟩ := VerifierState.authorize_allow_iff.1 hallow
  cases (tokenClaims_grantWire agent).symm.trans hp.claims
  exact ⟨hp, hi⟩

theorem no_order_of_rivals : ∃ es F,
    Run (verifier Driver.rivalCrates Driver.key) (.init (.new Driver.key)) es F ∧
      F.threads 0 = some ⟨.authorize Driver.now (Driver.grantWire Driver.agent),
        .done (.verdict replayedVerdict), true⟩ ∧
      F.threads 1 = some ⟨.revoke Driver.agent, .done .noContent, true⟩ ∧
      F.threads 2 = some ⟨.authorize Driver.now (Driver.grantWire Driver.rival),
        .done (.verdict (allow (Driver.grantFor Driver.rival))), true⟩ ∧
      ¬ ∃ is, AnswerOrder (verifier Driver.rivalCrates Driver.key) (.new Driver.key) es F
        (fun a b => a = b) is := by
  obtain ⟨hp, hi⟩ := Driver.grant_bound Driver.agent
  obtain ⟨hp', hi'⟩ := Driver.grant_bound Driver.rival
  obtain ⟨es, F, hrun, h₀, h₁, h₂, -, hno⟩ := no_order_of_shared_nonce (s := .new Driver.key) hp hi
    hp' hi' rfl (by decide) (by simp [VerifierState.new]) (by simp [VerifierState.new])
    (by simp [VerifierState.new])
  exact ⟨es, F, hrun, h₀, h₁, h₂, hno⟩

end ExtAuthz
