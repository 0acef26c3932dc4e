/-
  The descriptor gate, step 4 of `authorize`.

  `decode_lower_hex_32` accepts the texts of 32 bytes, each of which spells its
  own bytes (`decodeLowerHex32_eq`).  A request that reaches the gate is
  malformed, a mismatch, or goes on, by the two digests of its descriptor
  (`descriptor_gate`), and no field of it stands for an error.
-/
import ExtAuthz.Proof.Verdict

namespace ExtAuthz

open Text Interleave

/-! ## Digests -/

/-- A digest has one text that is accepted. -/
theorem decodeLowerHex32_eq_some {s : String} {d : Digest} :
    decodeLowerHex32 s = some d ↔ Hex.encode d.toList = s := by
  constructor
  · intro h
    unfold decodeLowerHex32 at h
    split at h
    · cases h
    · split_ifs at h with he
      cases h
      exact he
  · rintro rfl
    exact decodeLowerHex32_encode d

theorem decodeLowerHex32_eq (s : String) : decodeLowerHex32 s =
    if h : Hex.Spells 32 s then some (Hex.spelled 32 ⟨s, h⟩) else none := by
  split_ifs with h
  · rw [decodeLowerHex32_eq_some, Hex.encode_spelled]
  · rw [Option.eq_none_iff_forall_ne_some]
    intro d hd
    exact h (Hex.spells_iff.2 ⟨d, decodeLowerHex32_eq_some.1 hd⟩)

theorem eq_iff_decodeLowerHex32_eq {s t : String} (ht : Hex.Spells 32 t) :
    s = t ↔ decodeLowerHex32 s = decodeLowerHex32 t := by
  constructor
  · rintro rfl
    rfl
  · intro h
    obtain ⟨d, rfl⟩ := Hex.spells_iff.1 ht
    rw [decodeLowerHex32_encode, decodeLowerHex32_eq_some] at h
    exact h.symm

/-- Both digests of a descriptor are texts of 32 bytes. -/
structure RequestDescriptor.WellFormed (r : RequestDescriptor) : Prop where
  bodySha256 : Hex.Spells 32 r.bodySha256
  canonicalRequestHash : Hex.Spells 32 r.canonicalRequestHash

/-- The hash in a descriptor is its `crh_v1`, over the body digest that it
    spells. -/
def RequestDescriptor.Hashed (X : Crates) (r : RequestDescriptor) : Prop :=
  ∃ body : Digest, Hex.encode body.toList = r.bodySha256 ∧
    Hex.encode (ExtAuthz.canonicalRequestHash X.sha256 (r.parts body)).toList =
      r.canonicalRequestHash

section
variable {X : Crates} {r : RequestDescriptor}

theorem recomputeCrh_eq_some {h : String} : recomputeCrh X r = some h ↔
    r.WellFormed ∧ ∃ body : Digest, Hex.encode body.toList = r.bodySha256 ∧
      Hex.encode (canonicalRequestHash X.sha256 (r.parts body)).toList = h := by
  unfold recomputeCrh
  constructor
  · intro he
    split at he
    · cases he
    · rename_i body hb
      split at he
      · cases he
      · rename_i crh hc
        rw [decodeLowerHex32_eq_some] at hb hc
        exact ⟨⟨Hex.spells_iff.2 ⟨body, hb⟩, Hex.spells_iff.2 ⟨crh, hc⟩⟩, body, hb,
          Option.some.inj he⟩
  · rintro ⟨hr, body, hb, rfl⟩
    obtain ⟨crh, hc⟩ := Hex.spells_iff.1 hr.canonicalRequestHash
    rw [← decodeLowerHex32_eq_some] at hb hc
    simp only [hb, hc, RequestDescriptor.parts]

theorem recomputeCrh_eq_none : recomputeCrh X r = none ↔ ¬ r.WellFormed := by
  constructor
  · intro hn hr
    obtain ⟨body, hb⟩ := Hex.spells_iff.1 hr.bodySha256
    have hs := (recomputeCrh_eq_some (X := X)).2 ⟨hr, body, hb, rfl⟩
    rw [hn] at hs
    cases hs
  · intro hr
    rw [Option.eq_none_iff_forall_ne_some]
    intro h hs
    exact hr (recomputeCrh_eq_some.1 hs).1

theorem recomputeCrh_eq_sent : recomputeCrh X r = some r.canonicalRequestHash ↔
    r.WellFormed ∧ r.Hashed X := recomputeCrh_eq_some

end

/-! ## The gate -/

/-- The request passes steps 1 to 3, with a token for the claims `c`. -/
structure ReachesGate (X : Crates) (key : List UInt8) (now : Int64) (req : AuthorizeRequest)
    (c : Claims) : Prop where
  claims : tokenClaims X key req = some c
  version : req.version = wireVersion
  unexpired : now ≤ c.expUnixMs

/-- The handler from step 5 on. -/
def afterGate (c : Claims) (req : AuthorizeRequest) : Prog VerifierOp Bool AuthorizeResponse :=
  if c.agentId ≠ req.context.agentId then
    .done (deny Reason.agentMismatch "token agent != acting agent")
  else checkRevoked c req

section
variable {X : Crates} {key : List UInt8} {now : Int64} {req : AuthorizeRequest} {c : Claims}

theorem authorize_of_reachesGate (h : ReachesGate X key now req c) :
    authorize X key now req =
      match recomputeCrh X req.request with
      | none => .done (deny Reason.descriptorMalformed
          "descriptor hashes are not lowercase 32-byte hex")
      | some crh =>
        if crh ≠ req.request.canonicalRequestHash then
          .done (deny Reason.crhMismatch "descriptor does not hash to the sent crh")
        else afterGate c req := by
  obtain ⟨hc, hv, he⟩ := h
  unfold tokenClaims at hc
  split at hc
  · cases hc
  · rename_i token ht
    cases hver : verify X token key with
    | error e =>
      rw [hver] at hc
      cases hc
    | ok c' =>
      rw [hver] at hc
      cases hc
      unfold authorize beforeRevocation afterGate
      simp only [ht, hver, hv, Int64.not_lt.2 he, ne_eq, not_true_eq_false, if_false]
      cases recomputeCrh X req.request with
      | none => rfl
      | some crh =>
        by_cases hcrh : crh = req.request.canonicalRequestHash
        · by_cases ha : c.agentId = req.context.agentId <;> simp [hcrh, ha]
        · simp [hcrh]

/-- The codes of the steps behind the gate. -/
def laterCodes : List String :=
  [Reason.agentMismatch, Reason.agentRevoked, Reason.workloadMismatch, Reason.intentMismatch,
    Reason.tokenReplayed, Reason.ok]

theorem descriptorMalformed_notMem : Reason.descriptorMalformed ∉ laterCodes := by decide

theorem crhMismatch_notMem : Reason.crhMismatch ∉ laterCodes := by decide

theorem afterRevocation_code {d : String × String} (h : afterRevocation c req = .error d) :
    d.1 ∈ laterCodes := by
  unfold afterRevocation at h
  split_ifs at h <;> cases h <;> simp [laterCodes]

theorem afterGate_code (c : Claims) (req : AuthorizeRequest) (st : VerifierState) :
    ((afterGate c req).run VerifierOp.apply st).1.reasonCode ∈ laterCodes := by
  unfold afterGate
  split_ifs with ha
  · simp [Prog.run, deny, laterCodes]
  · simp only [checkRevoked, Prog.run, VerifierOp.apply]
    by_cases hr : c.agentId ∈ st.revokedAgents
    · simp [hr, Prog.run, deny, laterCodes]
    · simp only [hr, decide_false, Bool.false_eq_true, if_false]
      cases hres : afterRevocation c req with
      | error d => exact afterRevocation_code hres
      | ok u =>
        by_cases hj : c.jti ∈ st.seenJti
        · simp [consume, Prog.run, VerifierOp.apply, hj, deny, laterCodes]
        · simp [consume, Prog.run, VerifierOp.apply, hj, allow, laterCodes]

/-- The answer to a request that reaches the gate, by what the gate finds. -/
theorem reasonCode_of_reachesGate {st : VerifierState} (h : ReachesGate X st.key now req c) :
    (¬ req.request.WellFormed ∧
        (st.authorize X now req).1.reasonCode = Reason.descriptorMalformed) ∨
      ((req.request.WellFormed ∧ ¬ req.request.Hashed X) ∧
        (st.authorize X now req).1.reasonCode = Reason.crhMismatch) ∨
      ((req.request.WellFormed ∧ req.request.Hashed X) ∧
        (st.authorize X now req).1.reasonCode ∈ laterCodes) := by
  rw [VerifierState.authorize, authorize_of_reachesGate h]
  cases hr : recomputeCrh X req.request with
  | none => exact .inl ⟨recomputeCrh_eq_none.1 hr, rfl⟩
  | some crh =>
    have hw := (recomputeCrh_eq_some.1 hr).1
    by_cases he : crh = req.request.canonicalRequestHash
    · rw [he, recomputeCrh_eq_sent] at hr
      simp only [he, ne_eq, not_true_eq_false, if_false]
      exact .inr (.inr ⟨hr, afterGate_code c req st⟩)
    · simp only [ne_eq, he, not_false_eq_true, if_true]
      refine .inr (.inl ⟨⟨hw, ?_⟩, rfl⟩)
      intro hh
      have hs := recomputeCrh_eq_sent.2 ⟨hw, hh⟩
      rw [hr] at hs
      exact he (Option.some.inj hs)

theorem descriptorMalformed_iff {st : VerifierState} (h : ReachesGate X st.key now req c) :
    (st.authorize X now req).1.reasonCode = Reason.descriptorMalformed ↔
      ¬ req.request.WellFormed := by
  rcases reasonCode_of_reachesGate h with ⟨hw, hc⟩ | ⟨⟨hw, -⟩, hc⟩ | ⟨⟨hw, -⟩, hc⟩
  · exact iff_of_true hc hw
  · refine iff_of_false ?_ (not_not.2 hw)
    rw [hc]
    decide
  · refine iff_of_false ?_ (not_not.2 hw)
    intro he
    exact descriptorMalformed_notMem (he ▸ hc)

theorem crhMismatch_iff {st : VerifierState} (h : ReachesGate X st.key now req c) :
    (st.authorize X now req).1.reasonCode = Reason.crhMismatch ↔
      req.request.WellFormed ∧ ¬ req.request.Hashed X := by
  rcases reasonCode_of_reachesGate h with ⟨hw, hc⟩ | ⟨hh, hc⟩ | ⟨⟨-, hh⟩, hc⟩
  · refine iff_of_false ?_ fun hn => hw hn.1
    rw [hc]
    decide
  · exact iff_of_true hc hh
  · refine iff_of_false ?_ fun hn => hn.2 hh
    intro he
    exact crhMismatch_notMem (he ▸ hc)

/-- A request goes on with step 5 exactly when the gate finds its hash. -/
theorem authorize_eq_afterGate_iff {st : VerifierState} (h : ReachesGate X st.key now req c) :
    authorize X st.key now req = afterGate c req ↔
      req.request.WellFormed ∧ req.request.Hashed X := by
  constructor
  · intro he
    have hl : (st.authorize X now req).1.reasonCode ∈ laterCodes := by
      rw [VerifierState.authorize, he]
      exact afterGate_code c req st
    rcases reasonCode_of_reachesGate h with ⟨-, hc⟩ | ⟨-, hc⟩ | ⟨hh, -⟩
    · exact absurd (hc ▸ hl) descriptorMalformed_notMem
    · exact absurd (hc ▸ hl) crhMismatch_notMem
    · exact hh
  · intro hh
    rw [authorize_of_reachesGate h, recomputeCrh_eq_sent.2 hh]
    simp only [ne_eq, not_true_eq_false, if_false]

end

/-- The hash is compared as a text, which is to compare the bytes. -/
theorem hashed_iff_spelled {X : Crates} {r : RequestDescriptor} (hr : r.WellFormed) :
    r.Hashed X ↔
      canonicalRequestHash X.sha256 (r.parts (Hex.spelled 32 ⟨_, hr.bodySha256⟩)) =
        Hex.spelled 32 ⟨_, hr.canonicalRequestHash⟩ := by
  constructor
  · rintro ⟨body, hb, hc⟩
    have hbody : Hex.spelled 32 ⟨_, hr.bodySha256⟩ = body := Hex.spelled_eq_iff.2 hb
    rw [hbody]
    exact (Hex.spelled_eq_iff.2 hc).symm
  · intro h
    refine ⟨_, Hex.encode_spelled ⟨_, hr.bodySha256⟩, ?_⟩
    rw [h, Hex.encode_spelled]

/-- **The descriptor gate**: a request that reaches step 4 is malformed when one of
    its digests is not a text of 32 bytes, a mismatch when both are and the hash
    is not that of the descriptor, and goes on with step 5 otherwise.  The texts
    that are accepted are one for each value of 32 bytes, so that to compare
    them, here and with the hash that a token is bound to, is to compare bytes. -/
theorem descriptor_gate (X : Crates) :
    (∀ (st : VerifierState) now req c, ReachesGate X st.key now req c →
      ((st.authorize X now req).1.reasonCode = Reason.descriptorMalformed ↔
        ¬ req.request.WellFormed) ∧
      ((st.authorize X now req).1.reasonCode = Reason.crhMismatch ↔
        req.request.WellFormed ∧ ¬ req.request.Hashed X) ∧
      (authorize X st.key now req = afterGate c req ↔
        req.request.WellFormed ∧ req.request.Hashed X)) ∧
    (∀ s, decodeLowerHex32 s =
      if h : Hex.Spells 32 s then some (Hex.spelled 32 ⟨s, h⟩) else none) ∧
    (∀ (r : RequestDescriptor) (hr : r.WellFormed), r.Hashed X ↔
      canonicalRequestHash X.sha256 (r.parts (Hex.spelled 32 ⟨_, hr.bodySha256⟩)) =
        Hex.spelled 32 ⟨_, hr.canonicalRequestHash⟩) ∧
    ∀ (r : RequestDescriptor) (bound : String), r.WellFormed →
      (bound = r.canonicalRequestHash ↔
        decodeLowerHex32 bound = decodeLowerHex32 r.canonicalRequestHash) := by
  refine ⟨?_, decodeLowerHex32_eq, fun r hr => hashed_iff_spelled hr, ?_⟩
  · intro st now req c h
    exact ⟨descriptorMalformed_iff h, crhMismatch_iff h, authorize_eq_afterGate_iff h⟩
  · intro r bound hr
    exact eq_iff_decodeLowerHex32_eq hr.canonicalRequestHash

/-- The happy path goes on, and with digests that are none it is malformed, also
    when they are equal. -/
theorem descriptor_gate_happy :
    let r := Driver.happy.wire
    let sentinel := { r with
      request := { r.request with
        bodySha256 := "invalid-body-sha", canonicalRequestHash := "invalid-body-sha" } }
    authorize Driver.happy.crates Driver.key Driver.now r = afterGate Driver.happy.claims r ∧
      ((VerifierState.new Driver.key).authorize Driver.happy.crates Driver.now sentinel).1.reasonCode
        = Reason.descriptorMalformed := by
  intro r sentinel
  have hp := Driver.happy_principalBound
  obtain ⟨hgate, -⟩ := descriptor_gate Driver.happy.crates
  constructor
  · exact (hgate (.new Driver.key) _ r _ ⟨hp.claims, hp.version, hp.unexpired⟩).2.2.2
      (recomputeCrh_eq_sent.1 hp.crh)
  · have h : ReachesGate Driver.happy.crates Driver.key Driver.now sentinel Driver.happy.claims :=
      ⟨hp.claims, hp.version, hp.unexpired⟩
    refine (hgate (.new Driver.key) _ sentinel _ h).1.2 ?_
    intro hw
    exact absurd hw.bodySha256.length (by decide)

end ExtAuthz
