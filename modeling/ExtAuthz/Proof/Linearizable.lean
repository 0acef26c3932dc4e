/-
  The verifier is linearizable, up to the decisions (`linearizable`).

  A handler that will decide ALLOW takes effect at its revocation check, a
  revocation at its insertion, and a denied handler when it finishes.  Between
  its check and its insertion the nonce of a handler that will decide ALLOW is
  already consumed in the sequential state (`Abs`); no other handler can have it
  in the meantime, because the nonces of the allowed handlers are distinct
  (`Ledger`).
-/
import ExtAuthz.Proof.Revocation

namespace ExtAuthz

open Interleave

/-- The decision of an answer, if it is one of `authorize`. -/
def VerifierAnswer.decision : VerifierAnswer → Option WireDecision
  | .verdict v => some v.decision
  | .noContent => none

/-- Two answers with the same decision. -/
def SameDecision (a b : VerifierAnswer) : Prop := a.decision = b.decision

/-! ## Points -/

open Classical in
/-- Where the handlers take effect, when those in `W` decide ALLOW in the end. -/
noncomputable def point (W : ℕ → Prop) : VerifierEvent → Option ℕ
  | .step i (.revokedContains _) false => if W i then some i else none
  | .step i (.revokedInsert _) _ => some i
  | .finish i a => if a.decision = some .deny then some i else none
  | _ => none

theorem tid_of_point {W : ℕ → Prop} {e : VerifierEvent} {i : ℕ} (h : point W e = some i) :
    e.tid = i := by
  unfold point at h
  split at h <;> (try split at h) <;> simp_all [Event.tid]

/-- A handler that has taken effect: it will decide ALLOW and passed the check,
    or it has its answer, and has finished with it if it is a denial. -/
def ThreadTaken (w : Prop) (t : Thread VerifierCall VerifierOp Bool VerifierAnswer) : Prop :=
  (w ∧ ∃ c, t.prog = consuming c) ∨
    ∃ a, t.prog = .done a ∧ (a.decision = some .deny → t.finished = true)

/-- Handler `i` has taken effect. -/
def Taken (W : ℕ → Prop) (C : VerifierConfig) (i : ℕ) : Prop :=
  ∃ t, C.threads i = some t ∧ ThreadTaken (W i) t

section
variable {w : Prop} {call : VerifierCall} {f : Bool}

@[simp] theorem threadTaken_checking (c : Claims) (req : AuthorizeRequest) :
    ¬ ThreadTaken w ⟨call, checking c req, f⟩ := by
  simp [ThreadTaken, checking_eq, consuming_eq]

@[simp] theorem threadTaken_consuming (c : Claims) : ThreadTaken w ⟨call, consuming c, f⟩ ↔ w := by
  constructor
  · rintro (⟨h, -⟩ | ⟨a, h, -⟩)
    · exact h
    · exact absurd h (consuming_ne_done c a)
  · exact fun h => .inl ⟨h, c, rfl⟩

@[simp] theorem threadTaken_revoking (a : String) : ¬ ThreadTaken w ⟨call, revoking a, f⟩ := by
  simp [ThreadTaken, revoking_eq, consuming_eq]

@[simp] theorem threadTaken_done (a : VerifierAnswer) :
    ThreadTaken w ⟨call, .done a, f⟩ ↔ (a.decision = some .deny → f = true) := by
  simp [ThreadTaken, consuming_eq]

end

section
variable {W : ℕ → Prop} {C : VerifierConfig} {i : ℕ}
  {t : Thread VerifierCall VerifierOp Bool VerifierAnswer}

theorem taken_of_threads (ht : C.threads i = some t) : Taken W C i ↔ ThreadTaken (W i) t := by
  simp [Taken, ht]

theorem not_taken_of_threads (ht : C.threads i = none) : ¬ Taken W C i := by
  simp [Taken, ht]

theorem taken_set (s : VerifierState) (j : ℕ) :
    Taken W (C.set i t s) j ↔ if j = i then ThreadTaken (W i) t else Taken W C j := by
  by_cases hj : j = i
  · subst hj
    simp [Taken]
  · simp only [Taken, Config.set_threads_ne _ _ _ _ hj, if_neg hj]

/-- A step after which its handler has taken effect if it had before. -/
theorem taken_set_same (h : ThreadTaken (W i) t ↔ Taken W C i) (s : VerifierState) (j : ℕ) :
    Taken W (C.set i t s) j ↔ Taken W C j := by
  rw [taken_set]
  split
  · rename_i hj
    rw [h, hj]
  · rfl

theorem taken_set_new (h : ThreadTaken (W i) t) (s : VerifierState) (j : ℕ) :
    Taken W (C.set i t s) j ↔ Taken W C j ∨ j = i := by
  rw [taken_set]
  by_cases hj : j = i
  · simp [hj, h]
  · simp [hj]

end

theorem point_check_of_not {W : ℕ → Prop} {i : ℕ} (h : ¬ W i) (a : String) (b : Bool) :
    point W (.step i (.revokedContains a) b) = none := by
  cases b <;> simp [point, h]

/-! ## The sequential state -/

section
variable {X : Crates} {W : ℕ → Prop} {C C' : VerifierConfig} {e : VerifierEvent}
  {s : VerifierState}

/-- The sequential state: the nonces of the handlers in `W` that passed the check
    are consumed already. -/
structure Abs (X : Crates) (W : ℕ → Prop) (C : VerifierConfig) (s : VerifierState) : Prop where
  key : s.key = C.shared.key
  revoked : s.revokedAgents = C.shared.revokedAgents
  seen : ∀ jti, jti ∈ s.seenJti ↔
    jti ∈ C.shared.seenJti ∨ ∃ i c, W i ∧ At X consuming C i c ∧ c.jti = jti

theorem Abs.le (h : Abs X W C s) : C.shared.Le s :=
  ⟨h.key, fun _ hj => (h.seen _).2 (.inl hj), h.revoked.ge⟩

theorem Abs.congr (h : Abs X W C s) {s' : VerifierState} (hk : s'.key = C'.shared.key)
    (hr : s'.revokedAgents = C'.shared.revokedAgents) (hs : s'.seenJti = s.seenJti)
    (hC : C'.shared.seenJti = C.shared.seenJti)
    (ha : ∀ j c, W j → (At X consuming C' j c ↔ At X consuming C j c)) : Abs X W C' s' := by
  refine ⟨hk, hr, ?_⟩
  intro jti
  rw [hs, h.seen, hC]
  refine or_congr_right (exists_congr fun j => exists_congr fun c => ?_)
  exact and_congr_right fun hj => and_congr_left fun _ => (ha j c hj).symm

/-- A step of a handler that neither takes effect nor changes the shared state,
    and that moves no handler of `W` to the consumption or from it. -/
theorem silent_set {i : ℕ} {t : Thread VerifierCall VerifierOp Bool VerifierAnswer}
    (hp : point W e = none) (ht : ThreadTaken (W i) t ↔ Taken W C i)
    (ha : ∀ j c, W j → (At X consuming (C.set i t C.shared) j c ↔ At X consuming C j c)) :
    Silent (point W) (Taken W) (Abs X W) C e (C.set i t C.shared) := by
  exact ⟨hp, taken_set_same ht _, fun s hs => hs.congr hs.key hs.revoked rfl rfl ha⟩

end

/-! ## The steps -/

/-- The handlers that decide ALLOW in the end. -/
def Winner (X : Crates) (F : VerifierConfig) (i : ℕ) : Prop := ∃ c, At X allowing F i c

/-- No handler takes effect in the step. -/
abbrev SilentStep (X : Crates) (F C : VerifierConfig) (e : VerifierEvent) (C' : VerifierConfig) :
    Prop :=
  Silent (point (Winner X F)) (Taken (Winner X F)) (Abs X (Winner X F)) C e C'

/-- The handler `i` takes effect in the step. -/
abbrev EffectiveStep (X : Crates) (F C : VerifierConfig) (e : VerifierEvent) (C' : VerifierConfig)
    (i : ℕ) (call : VerifierCall) (a : VerifierAnswer) : Prop :=
  Effective (verifier X C.shared.key) F SameDecision (point (Winner X F)) (Taken (Winner X F))
    (Abs X (Winner X F)) C e C' i call a

section
variable {X : Crates} {s₀ : VerifierState} {C C' F : VerifierConfig} {e : VerifierEvent}
  {i : ℕ} {now : Int64} {req : AuthorizeRequest} {c : Claims} {f : Bool}

theorem not_winner_of_deny (hl : Later C F) {v : AuthorizeResponse}
    (ht : C.threads i = some ⟨.authorize now req, .done (.verdict v), f⟩)
    (hv : v.decision = .deny) : ¬ Winner X F i := by
  rintro ⟨c, now', req', f', htF, -⟩
  obtain ⟨f'', ht', -⟩ := hl.done ht
  rw [htF] at ht'
  simp only [Option.some.injEq, Thread.mk.injEq] at ht'
  exact allowing_ne_deny hv c ht'.2.1

theorem winner_of_allowing (hl : Later C F) (hk : F.shared.key = C.shared.key)
    (h : At X allowing C i c) : Winner X F i := by
  obtain ⟨now, req, f, ht, hp, hi⟩ := h
  obtain ⟨f', ht', -⟩ := hl.done ht
  exact ⟨c, now, req, f', ht', hk ▸ hp, hi⟩

/-- The claims of a winner are those of its request. -/
theorem Winner.allowing (hw : Winner X F i) (hl : Later C F) (hk : F.shared.key = C.shared.key)
    {p : Claims → VerifierProg} (h : At X p C i c) :
    At X allowing F i c ∧ ∀ t, C.threads i = some t →
      ∃ f, F.threads i = some ⟨t.call, .done (.verdict (allow c)), f⟩ := by
  obtain ⟨c', now', req', f', htF, hpF, hiF⟩ := hw
  obtain ⟨now, req, f, ht, hp, -⟩ := h
  obtain ⟨t', ht', hcall, -⟩ := hl i _ ht
  rw [htF] at ht'
  cases ht'
  cases hcall
  cases hp.unique (hk ▸ hpF)
  refine ⟨⟨_, _, f', htF, hpF, hiF⟩, fun t htC => ⟨f', ?_⟩⟩
  rw [ht] at htC
  cases htC
  exact htF

/-- The nonce of a winner is fresh until the winner consumes it. -/
theorem jti_notMem_of_winner (hlC : Ledger X s₀ C) (hlF : Ledger X s₀ F) (hl : Later C F)
    (hk : F.shared.key = C.shared.key) (hF : At X allowing F i c)
    (hn : ∀ d, ¬ At X allowing C i d) : c.jti ∉ C.shared.seenJti := by
  intro hj
  rcases (hlC.seen _).1 hj with hj | ⟨j, d, hd, he⟩
  · exact hlF.fresh i c hF hj
  · have hdF := ((winner_of_allowing hl hk hd).allowing hl hk hd).1
    cases hlF.unique j i d c hdF hF he
    exact hn d hd

/-- The nonces of the winners are distinct, also while they are pending. -/
theorem jti_ne_of_pending (hlF : Ledger X s₀ F) (hl : Later C F) (hk : F.shared.key = C.shared.key)
    (hF : At X allowing F i c) {j : ℕ} {d : Claims} (hw : Winner X F j)
    (hd : At X consuming C j d) (hn : j ≠ i) : d.jti ≠ c.jti :=
  fun he => hn (hlF.unique j i d c (hw.allowing hl hk hd).1 hF he)

/-- The nonce of a winner that is at its check is fresh in the sequential state,
    too. -/
theorem jti_notMem_of_abs (hlC : Ledger X s₀ C) (hlF : Ledger X s₀ F) (hl : Later C F)
    (hk : F.shared.key = C.shared.key) (hF : At X allowing F i c)
    (ht : C.threads i = some ⟨.authorize now req, checking c req, f⟩) {s : VerifierState}
    (hs : Abs X (Winner X F) C s) : c.jti ∉ s.seenJti := by
  intro hj
  rcases (hs.seen _).1 hj with hj | ⟨j, d, hwj, hd, he⟩
  · have hn := not_at_of_threads (X := X) ht (allowing_ne_checking · _ _)
    exact jti_notMem_of_winner hlC hlF hl hk hF hn hj
  · refine jti_ne_of_pending hlF hl hk hF hwj hd ?_ he
    rintro rfl
    exact not_at_of_threads ht (consuming_ne_checking · _ _) d hd

/-- A winner passes its check: its nonce is pending from now on. -/
theorem abs_checked {W : ℕ → Prop} {s : VerifierState} (hs : Abs X W C s)
    (ht : C.threads i = some ⟨.authorize now req, checking c req, false⟩)
    (hp : PrincipalBound X C.shared.key now req c) (hi : IntentBound c req) (hw : W i) :
    Abs X W (C.set i ⟨.authorize now req, consuming c, false⟩ C.shared)
      { s with seenJti := insert c.jti s.seenJti } := by
  refine ⟨hs.key, hs.revoked, ?_⟩
  intro jti
  have hset (j : ℕ) (d : Claims) := at_set_self (p := consuming) (i := i) (j := j) (f := false)
    (s := C.shared) (d := d) rfl hp hi
  simp only [Finset.mem_insert, hs.seen, Config.set_shared, hset]
  constructor
  · rintro (rfl | hj | ⟨j, d, hwj, hd, he⟩)
    · exact .inr ⟨i, c, hw, .inr ⟨rfl, rfl⟩, rfl⟩
    · exact .inl hj
    · refine .inr ⟨j, d, hwj, .inl ⟨?_, hd⟩, he⟩
      rintro rfl
      exact not_at_of_threads ht (consuming_ne_checking · _ _) d hd
  · rintro (hj | ⟨j, d, hwj, ⟨-, hd⟩ | ⟨rfl, rfl⟩, he⟩)
    · exact .inr (.inl hj)
    · exact .inr (.inr ⟨j, d, hwj, hd, he⟩)
    · exact .inl he.symm

theorem effective_checked (hlC : Ledger X s₀ C) (hlF : Ledger X s₀ F)
    (hk : F.shared.key = C.shared.key)
    (ht : C.threads i = some ⟨.authorize now req, checking c req, false⟩)
    (hp : PrincipalBound X C.shared.key now req c) (hi : IntentBound c req)
    (hr : c.agentId ∉ C.shared.revokedAgents) (hl : Later C F) (hw : Winner X F i) :
    EffectiveStep X F C (.step i (.revokedContains c.agentId) false)
      (C.set i ⟨.authorize now req, consuming c, false⟩ C.shared) i (.authorize now req)
      (.verdict (allow c)) := by
  obtain ⟨hat, hans⟩ := hw.allowing (p := (checking · req)) hl hk ⟨now, req, false, ht, hp, hi⟩
  have hrun (s : VerifierState) (hs : Abs X (Winner X F) C s) :
      (verifier X C.shared.key).run (.authorize now req) s =
        (.verdict (allow c), { s with seenJti := insert c.jti s.seenJti }) := by
    rw [← hs.key, verifier_run_authorize, VerifierState.authorize_of_bound (hs.key.symm ▸ hp)
      (hs.revoked.symm ▸ hr) hi (jti_notMem_of_abs hlC hlF hl hk hat ht hs)]
  refine ⟨by simp [point, hw], ?_, taken_set_new ((threadTaken_consuming c).2 hw) _, hans _ ht,
    ?_, ?_⟩
  · rw [taken_of_threads ht]
    exact threadTaken_checking _ _
  · intro s hs
    rw [hrun s hs]
    rfl
  · intro s hs
    rw [hrun s hs]
    exact abs_checked hs ht hp hi hw

theorem effective_revoked {a : String}
    (ht : C.threads i = some ⟨.revoke a, revoking a, false⟩)
    (hF : ∃ f, F.threads i = some ⟨.revoke a, .done .noContent, f⟩) (b : Bool) :
    EffectiveStep X F C (.step i (.revokedInsert a) b)
      (C.set i ⟨.revoke a, .done .noContent, false⟩
        { C.shared with revokedAgents := insert a C.shared.revokedAgents })
      i (.revoke a) .noContent := by
  refine ⟨rfl, ?_, taken_set_new (by simp [VerifierAnswer.decision]) _, hF,
    fun s _ => rfl, ?_⟩
  · rw [taken_of_threads ht]
    exact threadTaken_revoking a
  · intro s hs
    rw [verifier_run_revoke]
    exact hs.congr hs.key (by simp [hs.revoked]) rfl rfl fun j d _ =>
      at_step rfl ht (consuming_ne_revoking · _) (consuming_ne_done · _)

/-- The end is the point of a denial, which still holds in the sequential state. -/
theorem effective_denied {v : AuthorizeResponse}
    (ht : C.threads i = some ⟨.authorize now req, .done (.verdict v), false⟩)
    (hv : v.decision = .deny) (hd : (C.shared.authorize X now req).1.decision = .deny)
    (hF : ∃ f, F.threads i = some ⟨.authorize now req, .done (.verdict v), f⟩) :
    EffectiveStep X F C (.finish i (.verdict v))
      (C.set i ⟨.authorize now req, .done (.verdict v), true⟩ C.shared) i (.authorize now req)
      (.verdict v) := by
  have hdec : (VerifierAnswer.verdict v).decision = some .deny := by
    simp [VerifierAnswer.decision, hv]
  have hrun (s : VerifierState) (h : Abs X (Winner X F) C s) :
      (s.authorize X now req).1.decision = .deny := h.le.deny (Int64.le_refl _) hd
  refine ⟨by simp [point, hdec], ?_, taken_set_new (by simp) _, hF, ?_, ?_⟩
  · simp [taken_of_threads ht, hdec]
  · intro s h
    rw [← h.key, verifier_run_authorize]
    simp [SameDecision, VerifierAnswer.decision, hrun s h, hv]
  · intro s h
    rw [← h.key, verifier_run_authorize, VerifierState.authorize_state_of_deny (hrun s h)]
    exact h.congr h.key h.revoked rfl rfl fun j d _ => at_finish ht

theorem abs_consumed {W : ℕ → Prop} {s : VerifierState} (hs : Abs X W C s)
    (ht : C.threads i = some ⟨.authorize now req, consuming c, false⟩)
    (hp : PrincipalBound X C.shared.key now req c) (hi : IntentBound c req) (hw : W i) :
    Abs X W (C.set i ⟨.authorize now req, .done (.verdict (allow c)), false⟩
      { C.shared with seenJti := insert c.jti C.shared.seenJti }) s := by
  have hat : At X consuming C i c := ⟨now, req, false, ht, hp, hi⟩
  refine ⟨hs.key, hs.revoked, ?_⟩
  intro jti
  simp only [hs.seen, Config.set_shared, Finset.mem_insert]
  constructor
  · rintro (hj | ⟨j, d, hwj, hd, he⟩)
    · exact .inl (.inr hj)
    · by_cases hji : j = i
      · subst hji
        cases (hat.unique hd).1
        exact .inl (.inl he.symm)
      · exact .inr ⟨j, d, hwj, (at_ne hji rfl).2 hd, he⟩
  · rintro ((rfl | hj) | ⟨j, d, hwj, hd, he⟩)
    · exact .inr ⟨i, c, hw, hat, rfl⟩
    · exact .inl hj
    · exact .inr ⟨j, d, hwj, (at_of_set rfl (consuming_ne_done · _) hd).2, he⟩

/-- Every step of the verifier is silent or a point. -/
theorem Micro.silent_or_effective (hs : Staged X C) (hlC : Ledger X s₀ C) (hlF : Ledger X s₀ F)
    (hk : F.shared.key = C.shared.key) (hm : Micro X C e C') (hlater : Later C C')
    (hl : Later C' F) :
    SilentStep X F C e C' ∨ ∃ i call a, EffectiveStep X F C e C' i call a := by
  have hself {i : ℕ} {t : Thread VerifierCall VerifierOp Bool VerifierAnswer} {s : VerifierState} :
      (C.set i t s).threads i = some t := Config.set_threads_self _ _ _ _
  cases hm with
  | started i hn hp =>
    refine .inl (silent_set rfl ?_ fun j d _ => at_start hn (consuming_ne_checking · _ _))
    simp [not_taken_of_threads hn]
  | refused i hn hv hd =>
    refine .inl (silent_set rfl ?_ fun j d _ => at_start hn (consuming_ne_done · _))
    simp [not_taken_of_threads hn, VerifierAnswer.decision, hv]
  | revoking i a hn =>
    refine .inl (silent_set rfl ?_ fun j d _ => at_start hn (consuming_ne_revoking · _))
    simp [not_taken_of_threads hn]
  | barred i ht hv hd =>
    refine .inl (silent_set (point_check_of_not (not_winner_of_deny hl hself hv) _ _) ?_
      fun j d _ => at_step rfl ht (consuming_ne_checking · _ _) (consuming_ne_done · _))
    simp [taken_of_threads ht, VerifierAnswer.decision, hv]
  | checked i ht hp hi hr =>
    by_cases hw : Winner X F i
    · exact .inr ⟨i, _, _, effective_checked hlC hlF hk ht hp hi hr (hlater.trans hl) hw⟩
    · refine .inl (silent_set (point_check_of_not hw _ _) ?_ fun j d hwj => at_ne ?_ rfl)
      · simp [taken_of_threads ht, hw]
      · rintro rfl
        exact hw hwj
  | @consumed i now req c ht hp hi hj =>
    have hw : Winner X F i := winner_of_allowing (c := c) hl hk ⟨now, req, false, hself, hp, hi⟩
    refine .inl ⟨rfl, taken_set_same ?_ _, fun s hs => abs_consumed hs ht hp hi hw⟩
    simp [taken_of_threads ht, hw, VerifierAnswer.decision, allow]
  | replayed i ht hv hd =>
    have hw : ¬ Winner X F i := not_winner_of_deny hl hself hv
    refine .inl (silent_set rfl ?_ fun j d hwj => at_ne ?_ rfl)
    · simp [taken_of_threads ht, VerifierAnswer.decision, hv, hw]
    · rintro rfl
      exact hw hwj
  | @revoked i a ht =>
    obtain ⟨f, hF, -⟩ := hl.done hself
    exact .inr ⟨i, _, _, effective_revoked ht ⟨f, hF⟩ _⟩
  | @finished i call a ht =>
    by_cases ha : a.decision = some .deny
    · obtain ⟨f, hF, -⟩ := hl.done hself
      rcases (hs i _ ht).done_cases with
        ⟨_, _, c, -, rfl, -⟩ | ⟨now, req, v, rfl, rfl, hv, hd⟩ | ⟨_, -, rfl, -⟩
      · cases ha
      · exact .inr ⟨i, _, _, effective_denied ht hv hd ⟨f, hF⟩⟩
      · cases ha
    · refine .inl (silent_set (by simp [point, ha]) ?_ fun j d _ => at_finish ht)
      simp [taken_of_threads ht, ha]

theorem Abs.eq_shared {s : VerifierState} (h : Abs X (Winner X F) F s) : s = F.shared := by
  have hseen : s.seenJti = F.shared.seenJti := by
    ext jti
    rw [h.seen]
    refine ⟨?_, .inl⟩
    rintro (hj | ⟨i, c, ⟨d, hd⟩, hc, -⟩)
    · exact hj
    · exact absurd (hd.unique hc).2 (allowing_ne_consuming d c)
  obtain ⟨key, seen, revoked⟩ := s
  have hk : key = F.shared.key := h.key
  have hr : revoked = F.shared.revokedAgents := h.revoked
  subst hk hr hseen
  rfl

/-- **Linearizability**: for every run there is a sequential order of its
    handlers, consistent with real time, in which every handler has the same
    decision and which ends in the same state. -/
theorem linearizable {X : Crates} {s : VerifierState} {es : List VerifierEvent}
    {F : VerifierConfig} (h : Run (verifier X s.key) (.init s) es F) :
    ∃ is, Linearization (verifier X s.key) s es F SameDecision is := by
  obtain ⟨-, hleF⟩ := staged_of_run (staged_init X s) h
  have hlF := ledger_run h
  refine ⟨_, h.linearization (point (Winner X F)) (Taken (Winner X F)) (Abs X (Winner X F))
    (fun e i => tid_of_point) ?_ ?_ ?_ ?_ fun s' hs => hs.eq_shared⟩
  · exact fun i => not_taken_of_threads rfl
  · refine ⟨rfl, rfl, fun jti => ⟨.inl, ?_⟩⟩
    rintro (hj | ⟨i, c, -, ⟨now, req, f, ht, -⟩, -⟩)
    · exact hj
    · cases ht
  · intro es C e C' hr hstep hl
    obtain ⟨hs, hle⟩ := staged_of_run (staged_init X s) hr
    have hk : C.shared.key = s.key := hle.key
    have hlater := hstep.later
    rw [← hk] at hstep
    rw [← hk]
    exact (micro_of_step hs hstep).silent_or_effective hs (ledger_run hr) hlF
      (hleF.key.trans hk.symm) hlater hl
  · intro i c a ht
    rw [taken_of_threads ht]
    exact (threadTaken_done a).2 fun _ => rfl

end

/-- The race of the demo: a revocation between the locks of the happy path. -/
theorem linearizable_happy_race : ∃ C is,
    Run (verifier Driver.happy.crates Driver.key) (.init (.new Driver.key))
      (raceTrace Driver.now Driver.happy.wire Driver.happy.claims ++
        [.step 0 (.seenInsert Driver.happy.claims.jti) true]) C ∧
    Linearization (verifier Driver.happy.crates Driver.key) (.new Driver.key)
      (raceTrace Driver.now Driver.happy.wire Driver.happy.claims ++
        [.step 0 (.seenInsert Driver.happy.claims.jti) true]) C SameDecision is := by
  obtain ⟨C₁, C, h₁, h₂, -⟩ := happy_race
  have h := h₁.append h₂
  obtain ⟨is, hlin⟩ := linearizable (s := .new Driver.key) h
  exact ⟨C, is, h, hlin⟩

end ExtAuthz
