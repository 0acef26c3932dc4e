/-
  The handlers of the verifier, interleaved.

  A handler is at one of six points (`Stage`), and a step of a run takes one
  handler from a point to the next (`Micro`).  Only `micro_of_step` looks into
  the programs; every invariant is a case analysis on `Micro`.

  `Ledger` is the invariant of the replay set: it holds exactly the nonces of
  the handlers that decided ALLOW, and no two of them have the same nonce.
-/
import ExtAuthz.Demo.Verifier

namespace ExtAuthz

open Interleave

/-! ## States -/

/-- The state `s'` has the same key, and every nonce and revocation of `s`. -/
structure VerifierState.Le (s s' : VerifierState) : Prop where
  key : s'.key = s.key
  seen : s.seenJti ⊆ s'.seenJti
  revoked : s.revokedAgents ⊆ s'.revokedAgents

theorem VerifierState.Le.refl (s : VerifierState) : s.Le s := ⟨rfl, subset_rfl, subset_rfl⟩

theorem VerifierState.Le.trans {s s' s'' : VerifierState} (h : s.Le s') (h' : s'.Le s'') :
    s.Le s'' :=
  ⟨h'.key.trans h.key, h.seen.trans h'.seen, h.revoked.trans h'.revoked⟩

theorem decision_ne_deny {v : AuthorizeResponse} : v.decision ≠ .deny ↔ v.decision = .allow := by
  cases v.decision <;> simp

theorem VerifierState.Le.deny {X : Crates} {s s' : VerifierState} (h : s.Le s') {now now' : Int64}
    (ht : now ≤ now') {req : AuthorizeRequest}
    (hd : (s.authorize X now req).1.decision = .deny) :
    (s'.authorize X now' req).1.decision = .deny := by
  by_contra hn
  obtain ⟨c, hp, hr, hi, hj⟩ := authorize_allow_iff.1 (decision_ne_deny.1 hn)
  rw [h.key] at hp
  have ha := authorize_allow_iff.2 ⟨c, { hp with unexpired := Int64.le_trans ht hp.unexpired },
    fun hm => hr (h.revoked hm), hi, fun hm => hj (h.seen hm)⟩
  rw [hd] at ha
  cases ha

section
variable {X : Crates} {s : VerifierState} {now : Int64} {req : AuthorizeRequest} {c : Claims}

theorem authorize_deny_of (hp : PrincipalBound X s.key now req c)
    (h : c.agentId ∈ s.revokedAgents ∨ ¬ IntentBound c req ∨ c.jti ∈ s.seenJti) :
    (s.authorize X now req).1.decision = .deny := by
  by_contra hn
  obtain ⟨c', hp', hr, hi, hj⟩ := VerifierState.authorize_allow_iff.1 (decision_ne_deny.1 hn)
  cases hp.unique hp'
  rcases h with h | h | h
  · exact hr h
  · exact h hi
  · exact hj h

end

/-! ## Points of the programs -/

/-- Before the revocation check. -/
@[irreducible] def checking (c : Claims) (req : AuthorizeRequest) : VerifierProg :=
  (checkRevoked c req).map .verdict

/-- Before the consumption of the nonce. -/
@[irreducible] def consuming (c : Claims) : VerifierProg := (consume c).map .verdict

/-- Before the insertion into the revoked agents. -/
@[irreducible] def revoking (a : String) : VerifierProg := (revoke a).map fun _ => .noContent

theorem checking_eq (c : Claims) (req : AuthorizeRequest) : checking c req =
    .op (.revokedContains c.agentId) fun revoked =>
      if revoked then
        .done (.verdict (deny Reason.agentRevoked "agent principal has been revoked"))
      else match afterRevocation c req with
        | .error (code, msg) => .done (.verdict (deny code msg))
        | .ok () => consuming c := by
  rw [checking, checkRevoked, Prog.map]
  congr 1
  funext revoked
  cases revoked with
  | true => rfl
  | false =>
    cases h : afterRevocation c req with
    | error d => rfl
    | ok u =>
      rw [consuming]
      rfl

theorem consuming_eq (c : Claims) : consuming c =
    .op (.seenInsert c.jti) fun inserted => .done (.verdict
      (if inserted then allow c else deny Reason.tokenReplayed "jti already consumed")) := by
  rw [consuming]
  rfl

theorem revoking_eq (a : String) :
    revoking a = .op (.revokedInsert a) fun _ => .done .noContent := by
  rw [revoking]
  rfl

/-- The points of a handler of `call`, in the state `s`. -/
inductive Stage (X : Crates) (s : VerifierState) : VerifierCall → VerifierProg → Prop
  | checking {now req c} : PrincipalBound X s.key now req c →
      Stage X s (.authorize now req) (checking c req)
  | consuming {now req c} : PrincipalBound X s.key now req c → IntentBound c req →
      Stage X s (.authorize now req) (consuming c)
  | allowed {now req c} : PrincipalBound X s.key now req c → IntentBound c req →
      c.jti ∈ s.seenJti → Stage X s (.authorize now req) (.done (.verdict (allow c)))
  | denied {now req v} : v.decision = .deny → (s.authorize X now req).1.decision = .deny →
      Stage X s (.authorize now req) (.done (.verdict v))
  | revoking (a) : Stage X s (.revoke a) (revoking a)
  | revoked {a} : a ∈ s.revokedAgents → Stage X s (.revoke a) (.done .noContent)

theorem Stage.mono {X : Crates} {s s' : VerifierState} {call : VerifierCall} {p : VerifierProg}
    (h : Stage X s call p) (hs : s.Le s') : Stage X s' call p := by
  cases h with
  | checking hp => exact .checking (hs.key ▸ hp)
  | consuming hp hi => exact .consuming (hs.key ▸ hp) hi
  | allowed hp hi hj => exact .allowed (hs.key ▸ hp) hi (hs.seen hj)
  | denied hv hd => exact .denied hv (hs.deny (Int64.le_refl _) hd)
  | revoking a => exact .revoking a
  | revoked ha => exact .revoked (hs.revoked ha)

/-- What a handler that answered has found. -/
theorem Stage.done_cases {X : Crates} {s : VerifierState} {call : VerifierCall} {a : VerifierAnswer}
    (h : Stage X s call (.done a)) :
    (∃ now req c, call = .authorize now req ∧ a = .verdict (allow c) ∧
      PrincipalBound X s.key now req c ∧ IntentBound c req ∧ c.jti ∈ s.seenJti) ∨
    (∃ now req v, call = .authorize now req ∧ a = .verdict v ∧ v.decision = .deny ∧
      (s.authorize X now req).1.decision = .deny) ∨
    (∃ agent, call = .revoke agent ∧ a = .noContent ∧ agent ∈ s.revokedAgents) := by
  generalize hp : Prog.done a = p at h
  cases h with
  | checking => rw [checking_eq] at hp; cases hp
  | consuming => rw [consuming_eq] at hp; cases hp
  | allowed hb hi hj => cases hp; exact .inl ⟨_, _, _, rfl, rfl, hb, hi, hj⟩
  | denied hv hd => cases hp; exact .inr (.inl ⟨_, _, _, rfl, rfl, hv, hd⟩)
  | revoking => rw [revoking_eq] at hp; cases hp
  | revoked ha => cases hp; exact .inr (.inr ⟨_, rfl, rfl, ha⟩)

/-- Every handler is at one of its points. -/
def Staged (X : Crates) (C : VerifierConfig) : Prop :=
  ∀ i t, C.threads i = some t → Stage X C.shared t.call t.prog

/-- The steps of the verifier, by what happens. -/
inductive Micro (X : Crates) (C : VerifierConfig) : VerifierEvent → VerifierConfig → Prop
  | started (i) {now req c} : C.threads i = none → PrincipalBound X C.shared.key now req c →
      Micro X C (.start i (.authorize now req))
        (C.set i ⟨.authorize now req, checking c req, false⟩ C.shared)
  | refused (i) {now req v} : C.threads i = none → v.decision = .deny →
      (C.shared.authorize X now req).1.decision = .deny →
      Micro X C (.start i (.authorize now req))
        (C.set i ⟨.authorize now req, .done (.verdict v), false⟩ C.shared)
  | revoking (i a) : C.threads i = none →
      Micro X C (.start i (.revoke a)) (C.set i ⟨.revoke a, revoking a, false⟩ C.shared)
  /-- Revoked, or out of the intent of the token. -/
  | barred (i) {now req c v} : C.threads i = some ⟨.authorize now req, checking c req, false⟩ →
      v.decision = .deny → (C.shared.authorize X now req).1.decision = .deny →
      Micro X C (.step i (.revokedContains c.agentId) (decide (c.agentId ∈ C.shared.revokedAgents)))
        (C.set i ⟨.authorize now req, .done (.verdict v), false⟩ C.shared)
  | checked (i) {now req c} : C.threads i = some ⟨.authorize now req, checking c req, false⟩ →
      PrincipalBound X C.shared.key now req c → IntentBound c req →
      c.agentId ∉ C.shared.revokedAgents →
      Micro X C (.step i (.revokedContains c.agentId) false)
        (C.set i ⟨.authorize now req, consuming c, false⟩ C.shared)
  | consumed (i) {now req c} : C.threads i = some ⟨.authorize now req, consuming c, false⟩ →
      PrincipalBound X C.shared.key now req c → IntentBound c req → c.jti ∉ C.shared.seenJti →
      Micro X C (.step i (.seenInsert c.jti) true)
        (C.set i ⟨.authorize now req, .done (.verdict (allow c)), false⟩
          { C.shared with seenJti := insert c.jti C.shared.seenJti })
  | replayed (i) {now req c v} : C.threads i = some ⟨.authorize now req, consuming c, false⟩ →
      v.decision = .deny → (C.shared.authorize X now req).1.decision = .deny →
      Micro X C (.step i (.seenInsert c.jti) false)
        (C.set i ⟨.authorize now req, .done (.verdict v), false⟩ C.shared)
  | revoked (i) {a} : C.threads i = some ⟨.revoke a, revoking a, false⟩ →
      Micro X C (.step i (.revokedInsert a) (decide (a ∉ C.shared.revokedAgents)))
        (C.set i ⟨.revoke a, .done .noContent, false⟩
          { C.shared with revokedAgents := insert a C.shared.revokedAgents })
  | finished (i) {call a} : C.threads i = some ⟨call, .done a, false⟩ →
      Micro X C (.finish i a) (C.set i ⟨call, .done a, true⟩ C.shared)

section
variable {X : Crates} {C C' : VerifierConfig} {e : VerifierEvent}

/-- What a handler does before its first lock. -/
theorem micro_of_start {i : ℕ} (hn : C.threads i = none) (call : VerifierCall) :
    Micro X C (.start i call)
      (C.set i ⟨call, (verifier X C.shared.key).body call, false⟩ C.shared) := by
  cases call with
  | authorize now req =>
    have hb : (verifier X C.shared.key).body (.authorize now req) =
      (authorize X C.shared.key now req).map .verdict := rfl
    rw [hb, authorize]
    cases h : beforeRevocation X C.shared.key now req with
    | error d =>
      refine .refused i hn rfl ?_
      rw [VerifierState.authorize_eq, h]
      rfl
    | ok c =>
      have h' := Micro.started i hn (beforeRevocation_eq_ok.1 h)
      rwa [checking] at h'
  | revoke a =>
    have h := Micro.revoking (X := X) i a hn
    rwa [revoking] at h

/-- What a handler does under a lock, and after it. -/
theorem micro_of_op (hs : Staged X C) {i : ℕ} {call : VerifierCall} {o : VerifierOp}
    {next : Bool → VerifierProg} (ht : C.threads i = some ⟨call, .op o next, false⟩) :
    Micro X C (.step i o (o.apply C.shared).1)
      (C.set i ⟨call, next (o.apply C.shared).1, false⟩ (o.apply C.shared).2) := by
  have hst := hs i _ ht
  generalize hp : Prog.op o next = p at hst ht
  cases hst with
  | @checking now req c hpb =>
    rw [checking_eq] at hp
    cases hp
    by_cases hr : c.agentId ∈ C.shared.revokedAgents
    · have h := Micro.barred i ht (v := deny Reason.agentRevoked "agent principal has been revoked")
        rfl (authorize_deny_of hpb (.inl hr))
      simpa [VerifierOp.apply, hr] using h
    · cases ha : afterRevocation c req with
      | error d =>
        have hn : ¬ IntentBound c req := fun hi => by
          rw [afterRevocation_eq_ok.2 hi] at ha
          cases ha
        have h := Micro.barred i ht (v := deny d.1 d.2) rfl (authorize_deny_of hpb (.inr (.inl hn)))
        simpa [VerifierOp.apply, hr, ha] using h
      | ok u =>
        have h := Micro.checked i ht hpb (afterRevocation_eq_ok.1 ha) hr
        simpa [VerifierOp.apply, hr, ha] using h
  | @consuming now req c hpb hi =>
    rw [consuming_eq] at hp
    cases hp
    by_cases hj : c.jti ∈ C.shared.seenJti
    · have h := Micro.replayed i ht (v := deny Reason.tokenReplayed "jti already consumed") rfl
        (authorize_deny_of hpb (.inr (.inr hj)))
      simpa [VerifierOp.apply, hj] using h
    · have h := Micro.consumed i ht hpb hi hj
      simpa [VerifierOp.apply, hj] using h
  | allowed => cases hp
  | denied => cases hp
  | revoking a =>
    rw [revoking_eq] at hp
    cases hp
    exact Micro.revoked i ht
  | revoked => cases hp

/-- Every step of the verifier is one of the above. -/
theorem micro_of_step (hs : Staged X C) (h : Step (verifier X C.shared.key) C e C') :
    Micro X C e C' := by
  cases h with
  | start i call hn => exact micro_of_start hn call
  | step i ht => exact micro_of_op hs ht
  | finish i ht => exact .finished i ht

theorem Micro.le (h : Micro X C e C') : C.shared.Le C'.shared := by
  cases h with
  | consumed i => exact ⟨rfl, Finset.subset_insert _ _, subset_rfl⟩
  | revoked i => exact ⟨rfl, subset_rfl, Finset.subset_insert _ _⟩
  | _ => exact .refl _

theorem Micro.staged (hs : Staged X C) (h : Micro X C e C') : Staged X C' := by
  have hset {i : ℕ} {call : VerifierCall} {p : VerifierProg} {f : Bool} {s : VerifierState}
      (hle : C.shared.Le s) (hp : Stage X s call p) : Staged X (C.set i ⟨call, p, f⟩ s) := by
    intro j t ht
    by_cases hj : j = i
    · subst hj
      rw [Config.set_threads_self] at ht
      cases ht
      exact hp
    · rw [Config.set_threads_ne _ _ _ _ hj] at ht
      exact (hs j t ht).mono hle
  have hle := h.le
  cases h with
  | started i hn hp => exact hset hle (.checking hp)
  | refused i hn hv hd => exact hset hle (.denied hv hd)
  | revoking i a hn => exact hset hle (.revoking a)
  | barred i ht hv hd => exact hset hle (.denied hv hd)
  | checked i ht hp hi hr => exact hset hle (.consuming hp hi)
  | consumed i ht hp hi hj => exact hset hle (.allowed hp hi (Finset.mem_insert_self _ _))
  | replayed i ht hv hd => exact hset hle (.denied hv hd)
  | revoked i ht => exact hset hle (.revoked (Finset.mem_insert_self _ _))
  | finished i ht => exact hset hle (hs i _ ht)

/-! ## Runs -/

variable {st : VerifierState} {es es' : List VerifierEvent}

theorem staged_init (X : Crates) (st : VerifierState) : Staged X (.init st) := by
  intro i t ht
  cases ht

/-- The rule for the runs of the verifier: what every `Micro` step keeps, from a
    configuration with every handler at a point. -/
theorem staged_run (hs : Staged X C) (h : Run (verifier X C.shared.key) C es C')
    {P : List VerifierEvent → VerifierConfig → Prop} (h₀ : P [] C)
    (hP : ∀ es C₁ e C₂, Staged X C₁ → C.shared.Le C₁.shared → P es C₁ → Micro X C₁ e C₂ →
      P (es ++ [e]) C₂) : Staged X C' ∧ C.shared.Le C'.shared ∧ P es C' := by
  induction h with
  | nil => exact ⟨hs, .refl _, h₀⟩
  | snoc _ hstep ih =>
    obtain ⟨hs₁, hle, hp⟩ := ih
    rw [← hle.key] at hstep
    have hm := micro_of_step hs₁ hstep
    exact ⟨hm.staged hs₁, hle.trans hm.le, hP _ _ _ _ hs₁ hle hp hm⟩

/-- Every run keeps the handlers at their points, and only adds to the state. -/
theorem staged_of_run (hs : Staged X C) (h : Run (verifier X C.shared.key) C es C') :
    Staged X C' ∧ C.shared.Le C'.shared := by
  obtain ⟨hs', hle, -⟩ := staged_run (P := fun _ _ => True) hs h trivial
    fun _ _ _ _ _ _ _ _ => trivial
  exact ⟨hs', hle⟩

/-! ## The replay set -/

/-- The handler `i` is at the point `p`, for the claims `c` of its request. -/
def At (X : Crates) (p : Claims → VerifierProg) (C : VerifierConfig) (i : ℕ) (c : Claims) : Prop :=
  ∃ now req f, C.threads i = some ⟨.authorize now req, p c, f⟩ ∧
    PrincipalBound X C.shared.key now req c ∧ IntentBound c req

/-- The point of a handler that decided ALLOW. -/
def allowing (c : Claims) : VerifierProg := .done (.verdict (allow c))

theorem allowing_ne_deny {v : AuthorizeResponse} (hv : v.decision = .deny) (c : Claims) :
    allowing c ≠ .done (.verdict v) := by
  intro h
  cases h
  cases hv

theorem allowing_ne_checking (c d : Claims) (req : AuthorizeRequest) :
    allowing c ≠ checking d req := by
  simp [allowing, checking_eq]

theorem allowing_ne_consuming (c d : Claims) : allowing c ≠ consuming d := by
  simp [allowing, consuming_eq]

theorem allowing_ne_revoking (c : Claims) (a : String) : allowing c ≠ revoking a := by
  simp [allowing, revoking_eq]

theorem consuming_ne_done (c : Claims) (a : VerifierAnswer) : consuming c ≠ .done a := by
  simp [consuming_eq]

theorem consuming_ne_checking (c d : Claims) (req : AuthorizeRequest) :
    consuming c ≠ checking d req := by
  simp [consuming_eq, checking_eq]

theorem consuming_ne_revoking (c : Claims) (a : String) : consuming c ≠ revoking a := by
  simp [consuming_eq, revoking_eq]

/-- The claims of a handler are those of its request. -/
theorem At.unique {p q : Claims → VerifierProg} {i : ℕ} {c d : Claims} (h : At X p C i c)
    (h' : At X q C i d) : c = d ∧ p c = q d := by
  obtain ⟨now, req, f, ht, hp, -⟩ := h
  obtain ⟨now', req', f', ht', hp', -⟩ := h'
  rw [ht] at ht'
  simp only [Option.some.injEq, Thread.mk.injEq, VerifierCall.authorize.injEq] at ht'
  obtain ⟨⟨rfl, rfl⟩, hpq, -⟩ := ht'
  exact ⟨hp.unique hp', hpq⟩

/-- The handler `i` decided ALLOW for a token with the claims `c`. -/
def Allowed (X : Crates) (C : VerifierConfig) (i : ℕ) (c : Claims) : Prop :=
  ∃ now req v f, C.threads i = some ⟨.authorize now req, .done (.verdict v), f⟩ ∧
    v.decision = .allow ∧ tokenClaims X C.shared.key req = some c

theorem allowed_iff_at (hs : Staged X C) {i : ℕ} {c : Claims} :
    Allowed X C i c ↔ At X allowing C i c := by
  constructor
  · rintro ⟨now, req, v, f, ht, hv, hc⟩
    rcases (hs i _ ht).done_cases with
      ⟨now', req', c', hcall, ha, hp, hi, -⟩ | ⟨_, _, v', -, ha, hv', -⟩ | ⟨_, hcall, -, -⟩
    · cases hcall
      cases ha
      cases hc.symm.trans hp.claims
      exact ⟨now, req, f, ht, hp, hi⟩
    · cases ha
      rw [hv] at hv'
      cases hv'
    · cases hcall
  · rintro ⟨now, req, f, ht, hp, -⟩
    exact ⟨now, req, _, f, ht, rfl, hp.claims⟩

/-- A handler is at one point only. -/
theorem not_at_of_threads {p : Claims → VerifierProg} {i : ℕ}
    {t : Thread VerifierCall VerifierOp Bool VerifierAnswer} (ht : C.threads i = some t)
    (hp : ∀ c, p c ≠ t.prog) (c : Claims) : ¬ At X p C i c := by
  rintro ⟨now, req, f, ht', -⟩
  rw [ht] at ht'
  cases ht'
  exact hp c rfl

/-- Other handlers than `i` stay where they are. -/
theorem at_ne {p : Claims → VerifierProg} {i j : ℕ} {c : Claims}
    {t : Thread VerifierCall VerifierOp Bool VerifierAnswer} {s : VerifierState} (hj : j ≠ i)
    (hk : s.key = C.shared.key) : At X p (C.set i t s) j c ↔ At X p C j c := by
  simp only [At, Config.set_threads_ne _ _ _ _ hj, Config.set_shared, hk]

/-- A step to the point `p` brings one handler there, with its claims. -/
theorem at_set_self {p : Claims → VerifierProg} {i j : ℕ} {now : Int64} {req : AuthorizeRequest}
    {f : Bool} {s : VerifierState} {c d : Claims} (hk : s.key = C.shared.key)
    (hp : PrincipalBound X C.shared.key now req c) (hi : IntentBound c req) :
    At X p (C.set i ⟨.authorize now req, p c, f⟩ s) j d ↔
      j ≠ i ∧ At X p C j d ∨ j = i ∧ d = c := by
  by_cases hj : j = i
  · subst hj
    have h₀ : At X p (C.set j ⟨.authorize now req, p c, f⟩ s) j c :=
      ⟨now, req, f, Config.set_threads_self _ _ _ _, hk.symm ▸ hp, hi⟩
    constructor
    · exact fun h => .inr ⟨rfl, (h.unique h₀).1⟩
    · rintro (⟨h, -⟩ | ⟨-, rfl⟩)
      · exact absurd rfl h
      · exact h₀
  · simp [at_ne hj hk, hj]

/-- A step to another point brings no handler to this one. -/
theorem at_of_set {p : Claims → VerifierProg} {i j : ℕ} {call : VerifierCall} {q : VerifierProg}
    {f : Bool} {s : VerifierState} {c : Claims} (hk : s.key = C.shared.key) (hq : ∀ c, p c ≠ q)
    (h : At X p (C.set i ⟨call, q, f⟩ s) j c) : j ≠ i ∧ At X p C j c := by
  have hj : j ≠ i := by
    rintro rfl
    exact not_at_of_threads (Config.set_threads_self _ _ _ _) hq c h
  exact ⟨hj, (at_ne hj hk).1 h⟩

theorem at_set_iff {p : Claims → VerifierProg} {i j : ℕ} {call : VerifierCall} {q : VerifierProg}
    {f : Bool} {s : VerifierState} {c : Claims} (hk : s.key = C.shared.key)
    (hC : ∀ t, C.threads i = some t → ∀ c, p c ≠ t.prog) (hq : ∀ c, p c ≠ q) :
    At X p (C.set i ⟨call, q, f⟩ s) j c ↔ At X p C j c := by
  refine ⟨fun h => (at_of_set hk hq h).2, fun h => (at_ne ?_ hk).2 h⟩
  rintro rfl
  obtain ⟨now, req, f', ht, -⟩ := h
  exact hC _ ht c rfl

theorem at_start {p : Claims → VerifierProg} {i j : ℕ} {call : VerifierCall} {q : VerifierProg}
    {f : Bool} {c : Claims} (hn : C.threads i = none) (hq : ∀ c, p c ≠ q) :
    At X p (C.set i ⟨call, q, f⟩ C.shared) j c ↔ At X p C j c :=
  at_set_iff rfl (fun t ht => by rw [hn] at ht; cases ht) hq

/-- A handler that neither was at the point nor comes to it. -/
theorem at_step {p : Claims → VerifierProg} {i j : ℕ} {call call' : VerifierCall}
    {q q' : VerifierProg} {f f' : Bool} {s : VerifierState} {c : Claims} (hk : s.key = C.shared.key)
    (ht : C.threads i = some ⟨call', q', f'⟩) (hq' : ∀ c, p c ≠ q') (hq : ∀ c, p c ≠ q) :
    At X p (C.set i ⟨call, q, f⟩ s) j c ↔ At X p C j c :=
  at_set_iff hk (fun t h => by rw [ht] at h; cases h; exact hq') hq

theorem at_finish {p : Claims → VerifierProg} {i j : ℕ} {call : VerifierCall} {q : VerifierProg}
    {c : Claims} (h : C.threads i = some ⟨call, q, false⟩) :
    At X p (C.set i ⟨call, q, true⟩ C.shared) j c ↔ At X p C j c := by
  by_cases hj : j = i
  · subst hj
    simp only [At, Config.set_threads_self, h, Config.set_shared, Option.some.injEq,
      Thread.mk.injEq]
    constructor <;> rintro ⟨now, req, f, ⟨h₁, h₂, -⟩, hp, hi⟩ <;>
      exact ⟨now, req, _, ⟨h₁, h₂, rfl⟩, hp, hi⟩
  · simp only [At, Config.set_threads_ne _ _ _ _ hj, Config.set_shared]

/-- A handler comes to allow by consuming a fresh nonce, and in no other way. -/
theorem Micro.allowing_cases (h : Micro X C e C') :
    (C'.shared.seenJti = C.shared.seenJti ∧
      ∀ j c, At X allowing C' j c ↔ At X allowing C j c) ∨
    ∃ i c₀, At X consuming C i c₀ ∧ c₀.jti ∉ C.shared.seenJti ∧
      C'.shared.seenJti = insert c₀.jti C.shared.seenJti ∧
      ∀ j c, At X allowing C' j c ↔ At X allowing C j c ∨ (j = i ∧ c = c₀) := by
  cases h with
  | started i hn hp => exact .inl ⟨rfl, fun j c => at_start hn (allowing_ne_checking · _ _)⟩
  | refused i hn hv hd => exact .inl ⟨rfl, fun j c => at_start hn (allowing_ne_deny hv)⟩
  | revoking i a hn => exact .inl ⟨rfl, fun j c => at_start hn (allowing_ne_revoking · _)⟩
  | barred i ht hv hd =>
    exact .inl ⟨rfl, fun j c => at_step rfl ht (allowing_ne_checking · _ _)
      (allowing_ne_deny hv)⟩
  | checked i ht hp hi hr =>
    exact .inl ⟨rfl, fun j c => at_step rfl ht (allowing_ne_checking · _ _)
      (allowing_ne_consuming · _)⟩
  | @consumed i now req c₀ ht hp hi hj =>
    refine .inr ⟨i, c₀, ⟨now, req, false, ht, hp, hi⟩, hj, rfl, ?_⟩
    intro j c
    have hnot (h : At X allowing C j c) : j ≠ i := by
      rintro rfl
      exact not_at_of_threads ht (allowing_ne_consuming · _) c h
    refine (at_set_self (p := allowing)
      (s := { C.shared with seenJti := insert c₀.jti C.shared.seenJti }) rfl hp hi).trans
      (or_congr_left ?_)
    exact ⟨And.right, fun h => ⟨hnot h, h⟩⟩
  | replayed i ht hv hd =>
    exact .inl ⟨rfl, fun j c => at_step rfl ht (allowing_ne_consuming · _)
      (allowing_ne_deny hv)⟩
  | revoked i ht =>
    exact .inl ⟨rfl, fun j c => at_step rfl ht (allowing_ne_revoking · _)
      (by simp [allowing])⟩
  | finished i ht => exact .inl ⟨rfl, fun j c => at_finish ht⟩

/-- The replay set is the set of the nonces that were there in the beginning and
    those of the handlers that decided ALLOW, and every nonce is of one handler. -/
structure Ledger (X : Crates) (s₀ : VerifierState) (C : VerifierConfig) : Prop where
  seen : ∀ jti, jti ∈ C.shared.seenJti ↔
    jti ∈ s₀.seenJti ∨ ∃ i c, At X allowing C i c ∧ c.jti = jti
  fresh : ∀ i c, At X allowing C i c → c.jti ∉ s₀.seenJti
  unique : ∀ i j c d, At X allowing C i c → At X allowing C j d → c.jti = d.jti → i = j

theorem Ledger.step {s₀ : VerifierState} (h : Ledger X s₀ C) (hm : Micro X C e C') :
    Ledger X s₀ C' := by
  rcases hm.allowing_cases with ⟨hs, ha⟩ | ⟨i, c₀, -, hj, hs, ha⟩
  · exact ⟨by simpa only [hs, ha] using h.seen, by simpa only [ha] using h.fresh,
      by simpa only [ha] using h.unique⟩
  · -- an older ALLOW does not have the nonce that was fresh just now
    have hold {j : ℕ} {c : Claims} (hc : At X allowing C j c) : c.jti ≠ c₀.jti := by
      intro he
      exact hj ((h.seen _).2 (.inr ⟨j, c, hc, he⟩))
    refine ⟨?_, ?_, ?_⟩
    · intro jti
      simp only [hs, Finset.mem_insert, h.seen, ha]
      constructor
      · rintro (rfl | hjti | ⟨j, c, hc, rfl⟩)
        · exact .inr ⟨i, c₀, .inr ⟨rfl, rfl⟩, rfl⟩
        · exact .inl hjti
        · exact .inr ⟨j, c, .inl hc, rfl⟩
      · rintro (hjti | ⟨j, c, hc | ⟨rfl, rfl⟩, rfl⟩)
        · exact .inr (.inl hjti)
        · exact .inr (.inr ⟨j, c, hc, rfl⟩)
        · exact .inl rfl
    · intro j c hc
      rcases (ha j c).1 hc with hc | ⟨rfl, rfl⟩
      · exact h.fresh j c hc
      · exact fun hm => hj ((h.seen _).2 (.inl hm))
    · intro j k c d hc hd he
      rcases (ha j c).1 hc with hc | ⟨rfl, rfl⟩ <;> rcases (ha k d).1 hd with hd | ⟨rfl, rfl⟩
      · exact h.unique j k c d hc hd he
      · exact absurd he (hold hc)
      · exact absurd he.symm (hold hd)
      · rfl

theorem ledger_init (X : Crates) (s₀ : VerifierState) : Ledger X s₀ (.init s₀) := by
  have hn : ∀ i c, ¬ At X allowing (.init s₀) i c := by
    rintro i c ⟨now, req, f, ht, -⟩
    cases ht
  exact ⟨by simp [hn], fun i c h => absurd h (hn i c), fun i j c d h => absurd h (hn i c)⟩

theorem ledger_run {s₀ : VerifierState} (h : Run (verifier X s₀.key) (.init s₀) es C) :
    Ledger X s₀ C :=
  (staged_run (P := fun _ C => Ledger X s₀ C) (staged_init X s₀) h (ledger_init X s₀)
    fun _ _ _ _ _ _ hl hm => hl.step hm).2.2

/-! ## The revocation check -/

/-- The handler `i` has passed the revocation check, and no later check stopped
    it. -/
def Passed (X : Crates) (C : VerifierConfig) (i : ℕ) (c : Claims) : Prop :=
  At X consuming C i c ∨ At X allowing C i c

/-- A handler passes the check while its agent is not revoked. -/
theorem Micro.passed (h : Micro X C e C') {j : ℕ} {c : Claims} (hp : Passed X C' j c) :
    Passed X C j c ∨
      e = .step j (.revokedContains c.agentId) false ∧ c.agentId ∉ C.shared.revokedAgents := by
  rcases hp with hp | hp
  · cases h with
    | started i hn => exact .inl (.inl (at_of_set rfl (consuming_ne_checking · _ _) hp).2)
    | refused i hn => exact .inl (.inl (at_of_set rfl (consuming_ne_done · _) hp).2)
    | revoking i a hn => exact .inl (.inl (at_of_set rfl (consuming_ne_revoking · _) hp).2)
    | barred i ht => exact .inl (.inl (at_of_set rfl (consuming_ne_done · _) hp).2)
    | @checked i now req c₀ ht hpb hi hr =>
      rcases (at_set_self rfl hpb hi).1 hp with ⟨-, hp⟩ | ⟨rfl, rfl⟩
      · exact .inl (.inl hp)
      · exact .inr ⟨rfl, hr⟩
    | consumed i ht => exact .inl (.inl (at_of_set rfl (consuming_ne_done · _) hp).2)
    | replayed i ht => exact .inl (.inl (at_of_set rfl (consuming_ne_done · _) hp).2)
    | revoked i ht => exact .inl (.inl (at_of_set rfl (consuming_ne_done · _) hp).2)
    | finished i ht => exact .inl (.inl ((at_finish ht).1 hp))
  · rcases h.allowing_cases with ⟨-, ha⟩ | ⟨i, c₀, hc, -, -, ha⟩
    · exact .inl (.inr ((ha j c).1 hp))
    · rcases (ha j c).1 hp with hp | ⟨rfl, rfl⟩
      · exact .inl (.inr hp)
      · exact .inl (.inl hc)

end

end ExtAuthz
