/-
  Sequential histories of the verifier.

  The state after a history says two things: which nonces some request won an
  ALLOW for (`mem_seenJti_after`), and which agents were revoked
  (`mem_revokedAgents_after`).  A response depends on the state through these two
  questions about its own token (`authorize_congr_state`), so that histories
  which answer them alike cannot be told apart by it (`noninterference`).

  The checks are antitone in the state and in the clock, so that a denial is
  permanent (`denial_permanent`).
-/
import ExtAuthz.Lib.Sequential
import ExtAuthz.Proof.EndToEnd
import ExtAuthz.Proof.Handlers
import ExtAuthz.Proof.Tokens

namespace ExtAuthz

open Interleave

/-- The verifier after a history of calls. -/
def VerifierState.after (X : Crates) (s : VerifierState) (h : List VerifierCall) : VerifierState :=
  (verifier X s.key).after s h

/-- `authorize` answers ALLOW, for a token with the nonce `jti`. -/
def Wins (X : Crates) (s : VerifierState) (now : Int64) (req : AuthorizeRequest) (jti : String) :
    Prop :=
  (s.authorize X now req).1.decision = .allow ∧ ∃ c, tokenClaims X s.key req = some c ∧ c.jti = jti

/-! ## One call -/

section
variable {X : Crates} {s t : VerifierState} {now : Int64} {req : AuthorizeRequest} {jti : String}

/-- What `authorize` does to the state. -/
theorem authorize_cases (X : Crates) (s : VerifierState) (now : Int64) (req : AuthorizeRequest) :
    ((s.authorize X now req).1.decision = .deny ∧ (s.authorize X now req).2 = s) ∨
      ∃ c, tokenClaims X s.key req = some c ∧ c.jti ∉ s.seenJti ∧
        s.authorize X now req = (allow c, { s with seenJti := insert c.jti s.seenJti }) := by
  cases hd : (s.authorize X now req).1.decision with
  | deny => exact .inl ⟨rfl, VerifierState.authorize_state_of_deny hd⟩
  | allow =>
    obtain ⟨c, hp, hr, hi, hj⟩ := VerifierState.authorize_allow_iff.1 hd
    exact .inr ⟨c, hp.claims, hj, VerifierState.authorize_of_bound hp hr hi hj⟩

theorem authorize_key (X : Crates) (s : VerifierState) (now : Int64) (req : AuthorizeRequest) :
    (s.authorize X now req).2.key = s.key := by
  rcases authorize_cases X s now req with ⟨-, h⟩ | ⟨c, -, -, h⟩ <;> rw [h]

theorem authorize_revokedAgents (X : Crates) (s : VerifierState) (now : Int64)
    (req : AuthorizeRequest) : (s.authorize X now req).2.revokedAgents = s.revokedAgents := by
  rcases authorize_cases X s now req with ⟨-, h⟩ | ⟨c, -, -, h⟩ <;> rw [h]

/-- A nonce is added by the request that wins it. -/
theorem mem_seenJti_authorize : jti ∈ (s.authorize X now req).2.seenJti ↔
    jti ∈ s.seenJti ∨ Wins X s now req jti := by
  rcases authorize_cases X s now req with ⟨hd, h⟩ | ⟨c, hc, -, h⟩
  · rw [h]
    simp [Wins, hd]
  · have ha : (s.authorize X now req).1.decision = .allow := by
      rw [h]
      rfl
    rw [h, Finset.mem_insert]
    constructor
    · rintro (rfl | hj)
      · exact .inr ⟨ha, c, hc, rfl⟩
      · exact .inl hj
    · rintro (hj | ⟨-, c', hc', rfl⟩)
      · exact .inr hj
      · cases hc.symm.trans hc'
        exact .inl rfl

theorem Wins.notMem (h : Wins X s now req jti) : jti ∉ s.seenJti := by
  obtain ⟨hd, c, hc, rfl⟩ := h
  rcases authorize_cases X s now req with ⟨hd', -⟩ | ⟨c', hc', hj, -⟩
  · rw [hd] at hd'
    cases hd'
  · cases hc.symm.trans hc'
    exact hj

/-- The state enters a response by two questions about the token. -/
theorem authorize_congr_state (hk : s.key = t.key)
    (h : ∀ c, tokenClaims X s.key req = some c → (c.jti ∈ s.seenJti ↔ c.jti ∈ t.seenJti) ∧
      (c.agentId ∈ s.revokedAgents ↔ c.agentId ∈ t.revokedAgents)) :
    (s.authorize X now req).1 = (t.authorize X now req).1 := by
  rw [VerifierState.authorize_eq, VerifierState.authorize_eq, ← hk]
  cases hb : beforeRevocation X s.key now req with
  | error d => rfl
  | ok c =>
    obtain ⟨hj, hr⟩ := h c (beforeRevocation_eq_ok.1 hb).claims
    simp only [hj, hr]
    by_cases hrt : c.agentId ∈ t.revokedAgents
    · simp [hrt]
    · cases afterRevocation c req with
      | error d => simp [hrt]
      | ok u => by_cases hjt : c.jti ∈ t.seenJti <;> simp [hrt, hjt]

end

/-! ## Histories -/

section
variable {X : Crates} {s t : VerifierState} {h : List VerifierCall}

theorem le_run (X : Crates) (s : VerifierState) (call : VerifierCall) :
    s.Le ((verifier X s.key).run call s).2 := by
  cases call with
  | authorize now req =>
    rw [verifier_run_authorize]
    refine ⟨authorize_key X s now req, ?_, ?_⟩
    · intro jti hj
      exact mem_seenJti_authorize.2 (.inl hj)
    · rw [authorize_revokedAgents]
  | revoke a =>
    rw [verifier_run_revoke]
    exact ⟨rfl, subset_rfl, Finset.subset_insert _ _⟩

theorem le_after (X : Crates) (s : VerifierState) (h : List VerifierCall) : s.Le (s.after X h) := by
  refine Object.after_invariant (P := fun _ t => s.Le t) (.refl s) (fun h call hle => ?_) h
  have hrun := le_run X ((verifier X s.key).after s h) call
  rw [hle.key] at hrun
  exact hle.trans hrun

@[simp] theorem after_key (X : Crates) (s : VerifierState) (h : List VerifierCall) :
    (s.after X h).key = s.key :=
  (le_after X s h).key

@[simp] theorem after_nil (X : Crates) (s : VerifierState) : s.after X [] = s := rfl

theorem after_append (X : Crates) (s : VerifierState) (h h' : List VerifierCall) :
    s.after X (h ++ h') = (s.after X h).after X h' := by
  rw [VerifierState.after, VerifierState.after, Object.after_append, after_key]
  rfl

theorem after_authorize (X : Crates) (s : VerifierState) (now : Int64) (req : AuthorizeRequest)
    (h : List VerifierCall) :
    s.after X (.authorize now req :: h) = (s.authorize X now req).2.after X h := by
  rw [VerifierState.after, Object.after_cons, verifier_run_authorize, VerifierState.after,
    authorize_key]

theorem after_revoke (X : Crates) (s : VerifierState) (a : String) (h : List VerifierCall) :
    s.after X (.revoke a :: h) =
      VerifierState.after X { s with revokedAgents := insert a s.revokedAgents } h := rfl

/-- The request that won the nonce `jti` is in the history. -/
def Won (X : Crates) (s : VerifierState) (h : List VerifierCall) (jti : String) : Prop :=
  ∃ l now req l', h = l ++ .authorize now req :: l' ∧ Wins X (s.after X l) now req jti

theorem won_concat {call : VerifierCall} {jti : String} : Won X s (h ++ [call]) jti ↔
    Won X s h jti ∨ ∃ now req, call = .authorize now req ∧ Wins X (s.after X h) now req jti := by
  constructor
  · rintro ⟨l, now, req, l', he, hw⟩
    induction l' using List.reverseRecOn with
    | nil =>
      obtain ⟨rfl, hc⟩ := List.append_inj' he rfl
      rw [List.singleton_inj] at hc
      exact .inr ⟨now, req, hc, hw⟩
    | append_singleton l' c _ =>
      rw [← List.cons_append, ← List.append_assoc] at he
      obtain ⟨rfl, -⟩ := List.append_inj' he rfl
      exact .inl ⟨l, now, req, l', rfl, hw⟩
  · rintro (⟨l, now, req, l', rfl, hw⟩ | ⟨now, req, rfl, hw⟩)
    · exact ⟨l, now, req, l' ++ [call], by simp, hw⟩
    · exact ⟨h, now, req, [], rfl, hw⟩

theorem mem_seenJti_after (X : Crates) (s : VerifierState) (h : List VerifierCall) (jti : String) :
    jti ∈ (s.after X h).seenJti ↔ jti ∈ s.seenJti ∨ Won X s h jti := by
  induction h using List.reverseRecOn with
  | nil => simp [Won]
  | append_singleton h call ih =>
    rw [won_concat, ← or_assoc, ← ih, after_append]
    cases call with
    | authorize now req =>
      rw [after_authorize, after_nil, mem_seenJti_authorize]
      simp
    | revoke a =>
      rw [after_revoke, after_nil]
      simp

theorem mem_revokedAgents_after (X : Crates) (s : VerifierState) (h : List VerifierCall)
    (a : String) :
    a ∈ (s.after X h).revokedAgents ↔ a ∈ s.revokedAgents ∨ .revoke a ∈ h := by
  induction h generalizing s with
  | nil => simp
  | cons call h ih =>
    cases call with
    | authorize now req =>
      rw [after_authorize, ih, authorize_revokedAgents]
      simp
    | revoke b =>
      rw [after_revoke, ih, Finset.mem_insert, List.mem_cons, VerifierCall.revoke.injEq]
      tauto

end

/-! ## Non-interference -/

/-- Two states that the requests with the nonce of `c` cannot tell apart, if
    their agents are in `A`. -/
structure Agree (c : Claims) (A : Set String) (key : List UInt8) (s t : VerifierState) : Prop where
  left : s.key = key
  right : t.key = key
  seen : c.jti ∈ s.seenJti ↔ c.jti ∈ t.seenJti
  revoked : ∀ a ∈ A, a ∈ s.revokedAgents ↔ a ∈ t.revokedAgents

/-- The agents of the requests in `h` with the nonce of `c`, and its own. -/
def rivals (X : Crates) (key : List UInt8) (c : Claims) (h : List VerifierCall) : Set String :=
  {a | a = c.agentId ∨ ∃ now req d, .authorize now req ∈ h ∧ tokenClaims X key req = some d ∧
    d.jti = c.jti ∧ d.agentId = a}

section
variable {X : Crates} {key : List UInt8} {c : Claims} {A : Set String} {s t : VerifierState}
  {now : Int64} {req : AuthorizeRequest} {h h' l l' : List VerifierCall}

theorem Agree.refl (hk : s.key = key) : Agree c A key s s :=
  ⟨hk, hk, Iff.rfl, fun _ _ => Iff.rfl⟩

theorem Agree.symm (ha : Agree c A key s t) : Agree c A key t s :=
  ⟨ha.right, ha.left, ha.seen.symm, fun a h => (ha.revoked a h).symm⟩

theorem Agree.trans {u : VerifierState} (ha : Agree c A key s t) (hb : Agree c A key t u) :
    Agree c A key s u :=
  ⟨ha.left, hb.right, ha.seen.trans hb.seen, fun a h => (ha.revoked a h).trans (hb.revoked a h)⟩

theorem Agree.wins_iff (ha : Agree c A key s t)
    (hA : ∀ d, tokenClaims X key req = some d → d.jti = c.jti → d.agentId ∈ A) :
    Wins X s now req c.jti ↔ Wins X t now req c.jti := by
  have heq {d : Claims} (hd : tokenClaims X key req = some d) (hj : d.jti = c.jti) :
      (s.authorize X now req).1 = (t.authorize X now req).1 := by
    refine authorize_congr_state (ha.left.trans ha.right.symm) fun d' hd' => ?_
    rw [ha.left] at hd'
    cases hd.symm.trans hd'
    exact ⟨hj ▸ ha.seen, ha.revoked _ (hA d hd hj)⟩
  simp only [Wins, ha.left, ha.right]
  constructor
  · rintro ⟨hw, d, hd, hj⟩
    exact ⟨heq hd hj ▸ hw, d, hd, hj⟩
  · rintro ⟨hw, d, hd, hj⟩
    exact ⟨heq hd hj ▸ hw, d, hd, hj⟩

/-- The same calls keep two states in agreement. -/
theorem Agree.after (ha : Agree c A key s t) (hA : rivals X key c h ⊆ A) :
    Agree c A key (s.after X h) (t.after X h) := by
  unfold VerifierState.after
  rw [ha.left, ha.right]
  refine Object.after_congr ?_ ha
  intro call hcall s t ha
  cases call with
  | authorize now req =>
    have hw : Wins X s now req c.jti ↔ Wins X t now req c.jti := ha.wins_iff fun d hd hj =>
      hA (.inr ⟨now, req, d, hcall, hd, hj, rfl⟩)
    have hs := verifier_run_authorize X s now req
    have ht := verifier_run_authorize X t now req
    rw [ha.left] at hs
    rw [ha.right] at ht
    rw [hs, ht]
    refine ⟨by rw [authorize_key, ha.left], by rw [authorize_key, ha.right], ?_, ?_⟩
    · rw [mem_seenJti_authorize, mem_seenJti_authorize, ha.seen, hw]
    · intro a h
      rw [authorize_revokedAgents, authorize_revokedAgents]
      exact ha.revoked a h
  | revoke b =>
    refine ⟨ha.left, ha.right, ha.seen, ?_⟩
    intro a h
    simp only [verifier_run_revoke, Finset.mem_insert, ha.revoked a h]

/-- A call that neither wins the nonce of `c` in the state `s` nor revokes one of
    the agents `A`. -/
inductive Bystander (X : Crates) (c : Claims) (A : Set String) (s : VerifierState) :
    VerifierCall → Prop
  | authorize {now : Int64} {req : AuthorizeRequest} : ¬ Wins X s now req c.jti →
      Bystander X c A s (.authorize now req)
  | revoke {a : String} : a ∉ A → Bystander X c A s (.revoke a)

theorem Bystander.agree {call : VerifierCall} (hb : Bystander X c A s call) :
    Agree c A s.key s (s.after X [call]) := by
  cases hb with
  | @authorize now req hw =>
    rw [after_authorize, after_nil]
    refine ⟨rfl, authorize_key X s now req, ?_, ?_⟩
    · rw [mem_seenJti_authorize, or_iff_left hw]
    · intro a _
      rw [authorize_revokedAgents]
  | @revoke b hA =>
    rw [after_revoke, after_nil]
    refine ⟨rfl, rfl, Iff.rfl, ?_⟩
    intro a ha
    have hab : a ≠ b := fun he => hA (he ▸ ha)
    simp [hab]

/-- `h'` is `h` with one more call that does not concern the claims `c`: where it
    stands it does not win their nonce, and it revokes neither their agent nor
    the agent of a later request with their nonce. -/
inductive Inserted (X : Crates) (key : List UInt8) (c : Claims) :
    List VerifierCall → List VerifierCall → Prop
  | mk {l l' : List VerifierCall} {call : VerifierCall} :
      Bystander X c (rivals X key c l') ((VerifierState.new key).after X l) call →
      Inserted X key c (l ++ l') (l ++ call :: l')

theorem Inserted.agree (hi : Inserted X key c h h') :
    Agree c {c.agentId} key ((VerifierState.new key).after X h)
      ((VerifierState.new key).after X h') := by
  cases hi with
  | @mk l l' call hb =>
    have ha := hb.agree
    rw [after_key] at ha
    have hl := Agree.after ha subset_rfl
    rw [← after_append, ← after_append, List.singleton_append, ← after_append] at hl
    refine ⟨hl.left, hl.right, hl.seen, fun a ha => hl.revoked a ?_⟩
    exact .inl ha

/-- The answer to a request after a history of a new verifier. -/
def answer (X : Crates) (key : List UInt8) (h : List VerifierCall) (now : Int64)
    (req : AuthorizeRequest) : AuthorizeResponse :=
  (((VerifierState.new key).after X h).authorize X now req).1

theorem Agree.answer_eq
    (ha : ∀ c, tokenClaims X key req = some c → Agree c {c.agentId} key
      ((VerifierState.new key).after X h) ((VerifierState.new key).after X h')) :
    answer X key h now req = answer X key h' now req := by
  apply authorize_congr_state (by simp)
  intro c hc
  rw [after_key] at hc
  exact ⟨(ha c hc).seen, (ha c hc).revoked _ rfl⟩

/-- Histories that answer the two questions about a token alike. -/
theorem answer_eq_of_questions
    (hq : ∀ c, tokenClaims X key req = some c →
      (Won X (.new key) h c.jti ↔ Won X (.new key) h' c.jti) ∧
      (.revoke c.agentId ∈ h ↔ .revoke c.agentId ∈ h')) :
    answer X key h now req = answer X key h' now req := by
  refine Agree.answer_eq fun c hc => ⟨after_key _ _ _, after_key _ _ _, ?_, ?_⟩
  · rw [mem_seenJti_after, mem_seenJti_after, (hq c hc).1]
  · rintro a rfl
    rw [mem_revokedAgents_after, mem_revokedAgents_after, (hq c hc).2]

/-- Calls inserted and taken out again, any number of them. -/
theorem agree_of_edited (he : Relation.EqvGen (Inserted X key c) h h') :
    Agree c {c.agentId} key ((VerifierState.new key).after X h)
      ((VerifierState.new key).after X h') := by
  induction he with
  | rel h h' hi => exact hi.agree
  | refl h => exact .refl (after_key _ _ _)
  | symm h h' _ ih => exact ih.symm
  | trans h₁ h₂ h₃ _ _ ih₁ ih₂ => exact ih₁.trans ih₂

end

/-- **Non-interference**: histories that agree on whether the nonce of a request
    was won and on whether its agent was revoked give the same answer to it.
    Calls that do not concern its token can be inserted and taken out, and a
    request that is denied can be erased: the state and the other answers stay. -/
theorem noninterference (X : Crates) (key : List UInt8) :
    (∀ h h' now req, (∀ c, tokenClaims X key req = some c →
        (Won X (.new key) h c.jti ↔ Won X (.new key) h' c.jti) ∧
        (.revoke c.agentId ∈ h ↔ .revoke c.agentId ∈ h')) →
      answer X key h now req = answer X key h' now req) ∧
    (∀ h h' now req, (∀ c, tokenClaims X key req = some c →
        Relation.EqvGen (Inserted X key c) h h') →
      answer X key h now req = answer X key h' now req) ∧
    ∀ l l' now req, (answer X key l now req).decision = .deny →
      (VerifierState.new key).after X (l ++ .authorize now req :: l') =
        (VerifierState.new key).after X (l ++ l') ∧
      (verifier X key).answers (.new key) (l ++ .authorize now req :: l') =
        (verifier X key).answers (.new key) l ++ .verdict (answer X key l now req) ::
          (verifier X key).answers ((VerifierState.new key).after X l) l' ∧
      (verifier X key).answers (.new key) (l ++ l') =
        (verifier X key).answers (.new key) l ++
          (verifier X key).answers ((VerifierState.new key).after X l) l' := by
  refine ⟨?_, ?_, ?_⟩
  · intro h h' now req
    exact answer_eq_of_questions
  · intro h h' now req he
    exact Agree.answer_eq fun c hc => agree_of_edited (he c hc)
  · intro l l' now req hd
    have hrun : (verifier X key).run (.authorize now req) ((verifier X key).after (.new key) l) =
        (.verdict (answer X key l now req), (verifier X key).after (.new key) l) := by
      have h := verifier_run_authorize X ((VerifierState.new key).after X l) now req
      rw [after_key, VerifierState.authorize_state_of_deny hd] at h
      exact h
    have hstay := congrArg Prod.snd hrun
    obtain ⟨ha, ha'⟩ := Object.answers_erase hstay l'
    rw [hrun] at ha
    exact ⟨Object.after_erase hstay l', ha, ha'⟩

/-! ## Two agents with one nonce -/

namespace Driver

/-- A coarse grant for an agent.  All of them have one nonce. -/
def grantFor (agent : String) : Claims := claimsFor agent "jti-coarse" none none

/-- Another agent than that of the scenarios. -/
def rival : String := "agt-91bc"

/-- The HMAC-SHA256 of the grant of the other agent. -/
def rivalMac : Digest :=
  #v[0x9a, 0x39, 0xee, 0x69, 0xdb, 0x4f, 0x36, 0x69, 0x78, 0x95, 0x80, 0xaf, 0x40, 0xe6, 0xdb, 0xd6,
    0xba, 0x68, 0xaf, 0xe4, 0xd4, 0x2f, 0x5f, 0xeb, 0x17, 0xb0, 0xe7, 0x0f, 0x6c, 0xe0, 0x74, 0x26]

/-- The external functions on the grants of both agents. -/
def rivalCrates : Crates where
  sha256 := happy.crates.sha256
  hmacSha256 _ body := if body = Text.bytes (claimsBytes (grantFor rival)) then rivalMac
    else climbing.mac
  fromSlice := Json.parse
  values := happy.crates.values

/-- The request of the happy path, with a coarse grant. -/
def granted (agent : String) : EgressRequest :=
  egress path "" (some (mint rivalCrates (grantFor agent) key))

/-- What the middleware sends for it. -/
def grantWire (agent : String) : AuthorizeRequest :=
  middleware.wire rivalCrates.sha256 readings (ctx agent sandbox) (granted agent)
    (mint rivalCrates (grantFor agent) key)

theorem verify_grant (agent : String) :
    verify rivalCrates (mint rivalCrates (grantFor agent) key) key = .ok (grantFor agent) :=
  verify_mint_of_reads key (fun _ => Json.parse_render) (grantFor agent)

theorem tokenClaims_grantWire (agent : String) :
    tokenClaims rivalCrates key (grantWire agent) = some (grantFor agent) := by
  rw [grantWire, ExtAuthzMiddleware.tokenClaims_wire _ _ _ _ _ middleware_tokenHeader,
    verify_grant]
  rfl

theorem grant_allow_iff {st : VerifierState} (hk : st.key = key) (agent : String) :
    (st.authorize rivalCrates now (grantWire agent)).1.decision = .allow ↔
      agent ∉ st.revokedAgents ∧ "jti-coarse" ∉ st.seenJti := by
  rw [grantWire, authorize_wire_iff middleware_tokenHeader (by rw [hk, verify_grant])]
  constructor
  · intro h
    exact ⟨h.notRevoked, h.fresh⟩
  · rintro ⟨hr, hj⟩
    have he : now ≤ 1700000060000 := by decide
    have hm : Text.eqIgnoreAsciiCase "POST" "POST" = true := by decide
    have hp : pathInScope path goodScope.pathPrefix = true := by decide
    exact ⟨he, rfl, hr, by simp [grantFor, claimsFor], by simp [grantFor, claimsFor], hm, rfl, hp,
      by simp [grantFor, claimsFor], hj⟩

theorem answer_grant_iff (h : List VerifierCall) (agent : String) :
    (answer rivalCrates key h now (grantWire agent)).decision = .allow ↔
      agent ∉ ((VerifierState.new key).after rivalCrates h).revokedAgents ∧
        "jti-coarse" ∉ ((VerifierState.new key).after rivalCrates h).seenJti := by
  have hk : ((VerifierState.new key).after rivalCrates h).key = key := after_key _ _ _
  rw [answer, grant_allow_iff hk]

/-- The other agent wins the nonce, if it comes first. -/
theorem rival_wins :
    Won rivalCrates (.new key) [.authorize now (grantWire rival)] "jti-coarse" := by
  refine ⟨[], now, grantWire rival, [], rfl, ?_, grantFor rival, tokenClaims_grantWire rival, rfl⟩
  exact (grant_allow_iff rfl rival).2 ⟨by simp [VerifierState.new], by simp [VerifierState.new]⟩

theorem rival_revoked : "jti-coarse" ∉ ((VerifierState.new key).after rivalCrates
    [.revoke rival, .authorize now (grantWire rival)]).seenJti := by
  rw [after_revoke, after_authorize, after_nil, mem_seenJti_authorize]
  rintro (h | ⟨hd, -⟩)
  · simp [VerifierState.new] at h
  · exact ((grant_allow_iff rfl rival).1 hd).1 (Finset.mem_insert_self _ _)

end Driver

/-- The revocation of another agent with the same nonce changes an answer: this
    agent does not win the nonce any more. -/
theorem not_noninterference : ¬ ∀ (l l' : List VerifierCall) (call : VerifierCall) (now : Int64)
    (req : AuthorizeRequest) (c : Claims), tokenClaims Driver.rivalCrates Driver.key req = some c →
    (∀ now' req', call = .authorize now' req' →
      ¬ Wins Driver.rivalCrates ((VerifierState.new Driver.key).after Driver.rivalCrates l) now' req'
        c.jti) →
    call ≠ .revoke c.agentId →
    answer Driver.rivalCrates Driver.key (l ++ l') now req =
      answer Driver.rivalCrates Driver.key (l ++ call :: l') now req := by
  intro h
  have he := h [] [.authorize Driver.now (Driver.grantWire Driver.rival)] (.revoke Driver.rival)
    Driver.now (Driver.grantWire Driver.agent) (Driver.grantFor Driver.agent)
    (Driver.tokenClaims_grantWire _) (by simp) fun hc =>
      absurd (VerifierCall.revoke.inj hc) (by decide)
  rw [List.nil_append, List.nil_append] at he
  have hallow : (answer Driver.rivalCrates Driver.key [.revoke Driver.rival,
      .authorize Driver.now (Driver.grantWire Driver.rival)] Driver.now
      (Driver.grantWire Driver.agent)).decision = .allow := by
    rw [Driver.answer_grant_iff, mem_revokedAgents_after]
    exact ⟨by simp [VerifierState.new, Driver.rival, Driver.agent], Driver.rival_revoked⟩
  rw [← he, Driver.answer_grant_iff, mem_seenJti_after, not_or] at hallow
  exact hallow.2.2 Driver.rival_wins

/-- The revocation of another agent does not matter to a token with a nonce of
    its own. -/
theorem noninterference_happy :
    answer Driver.happy.crates Driver.key [] Driver.now Driver.happy.wire =
      answer Driver.happy.crates Driver.key [.revoke Driver.rival] Driver.now Driver.happy.wire := by
  refine (noninterference Driver.happy.crates Driver.key).2.1 _ _ _ _ fun c hc => .rel _ _ ?_
  rw [Driver.happy.tokenClaims_wire] at hc
  cases hc
  refine @Inserted.mk _ _ _ [] [] _ (.revoke ?_)
  rintro (h | ⟨now, req, d, h, -⟩)
  · exact absurd h (by decide)
  · cases h

/-! ## Denials -/

/-- The clock readings of a history. -/
def clocks (h : List VerifierCall) : List Int64 :=
  h.filterMap fun
    | .authorize now _ => some now
    | .revoke _ => none

section
variable {X : Crates} {s : VerifierState} {now now' : Int64} {req req' : AuthorizeRequest}
  {h h₁ h₂ : List VerifierCall}

theorem now_le (ht : (clocks (h₁ ++ .authorize now req :: (h₂ ++ [.authorize now' req']))).Pairwise
    (· ≤ ·)) : now ≤ now' := by
  simp only [clocks, List.filterMap_append, List.filterMap_cons] at ht
  have hcons := (List.pairwise_append.1 ht).2.1
  exact List.rel_of_pairwise_cons hcons (by simp)

/-- After a request that won a nonce, the requests with this nonce are denied. -/
theorem authorize_deny_of_won {c' : Claims} (hw : Wins X s now req c'.jti)
    (hc' : tokenClaims X s.key req' = some c') (h : List VerifierCall) :
    ((s.after X (.authorize now req :: h)).authorize X now' req').1.decision = .deny := by
  by_contra hn
  have hw' : Wins X (s.after X (.authorize now req :: h)) now' req' c'.jti :=
    ⟨decision_ne_deny.1 hn, c', by rw [after_key, hc'], rfl⟩
  refine hw'.notMem ?_
  rw [after_authorize]
  exact (le_after X _ h).seen (mem_seenJti_authorize.2 (.inr hw))

end

/-- **A denial is permanent**: as the clock goes on, a request that was denied is
    denied again, whatever happens in between; one that was allowed is denied
    from then on, and with it every request with the same nonce. -/
theorem denial_permanent (X : Crates) (s : VerifierState) (h₁ h₂ : List VerifierCall)
    (now now' : Int64) (req req' : AuthorizeRequest)
    (ht : (clocks (h₁ ++ .authorize now req :: (h₂ ++ [.authorize now' req']))).Pairwise (· ≤ ·)) :
    let first := ((s.after X h₁).authorize X now req).1
    let later := ((s.after X (h₁ ++ .authorize now req :: h₂)).authorize X now' req').1
    (first.decision = .deny → req' = req → later.decision = .deny) ∧
      (first.decision = .allow →
        (req' = req ∨ ∃ c c', tokenClaims X s.key req = some c ∧
          tokenClaims X s.key req' = some c' ∧ c'.jti = c.jti) → later.decision = .deny) := by
  have hle : (s.after X h₁).Le (s.after X (h₁ ++ .authorize now req :: h₂)) := by
    rw [after_append]
    exact le_after X _ _
  intro first later
  constructor
  · rintro hd rfl
    exact hle.deny (now_le ht) hd
  · intro ha hj
    obtain ⟨c, c', hc, hc', hcc⟩ : ∃ c c', tokenClaims X s.key req = some c ∧
        tokenClaims X s.key req' = some c' ∧ c'.jti = c.jti := by
      rcases hj with rfl | hj
      · obtain ⟨c, hp, -⟩ := VerifierState.authorize_allow_iff.1 ha
        have hc := hp.claims
        rw [after_key] at hc
        exact ⟨c, c, hc, hc, rfl⟩
      · exact hj
    have hw : Wins X (s.after X h₁) now req c'.jti :=
      ⟨ha, c, by rw [after_key, hc], hcc.symm⟩
    unfold later
    rw [after_append]
    exact authorize_deny_of_won hw (by rw [after_key, hc']) h₂

/-- The first of two agents with one nonce gets it, and the other one is denied. -/
theorem denial_permanent_rival :
    ((((VerifierState.new Driver.key).after Driver.rivalCrates
      [.authorize Driver.now (Driver.grantWire Driver.rival)]).authorize Driver.rivalCrates
        Driver.now (Driver.grantWire Driver.agent)).1.decision) = .deny := by
  have ha := (Driver.answer_grant_iff [] Driver.rival).2
    ⟨by simp [VerifierState.new], by simp [VerifierState.new]⟩
  have ht : (clocks [.authorize Driver.now (Driver.grantWire Driver.rival),
      .authorize Driver.now (Driver.grantWire Driver.agent)]).Pairwise (· ≤ ·) :=
    List.pairwise_pair.2 (Int64.le_refl _)
  obtain ⟨-, hallowed⟩ := denial_permanent Driver.rivalCrates (.new Driver.key) [] [] Driver.now
    Driver.now (Driver.grantWire Driver.rival) (Driver.grantWire Driver.agent) ht
  rw [answer] at ha
  rw [List.nil_append] at hallowed
  have hclaims := Driver.tokenClaims_grantWire
  exact hallowed ha (.inr ⟨_, _, hclaims Driver.rival, hclaims Driver.agent, rfl⟩)

end ExtAuthz
