/-
  Nothing is lost or gained between the documents and the bytes of the network.

  Every document that a middleware or the verifier writes is one that lossless
  readers read back from its bytes.  So the links come exactly to the networks in
  which every request that is handled has a body that it was read from
  (`link_iff`), and what holds of all networks holds of the bytes as well.
-/
import ExtAuthz.Demo.Link
import ExtAuthz.Proof.Explained

namespace ExtAuthz

open Json Interleave

/-! ## Documents as bytes -/

theorem plain_optionStr {depth : ℕ} (o : Option String) : ∀ v ∈ o.map Json.str, v.Plain depth := by
  cases o <;> simp [Plain]

theorem RequestDescriptor.plain_toJson (r : RequestDescriptor) (depth : ℕ) :
    r.toJson.Plain (depth + 2) := by
  have hn : InRange r.bodyLen.toNat := by
    have := r.bodyLen.toNat_lt
    constructor <;> omega
  refine plain_ofFields ?_
  simpa [toFields, Plain] using hn

theorem WireContext.plain_toJson (c : WireContext) (depth : ℕ) : c.toJson.Plain (depth + 2) := by
  have hn : InRange c.receivedAtUnixMs.toInt :=
    ⟨c.receivedAtUnixMs.le_toInt, by have := c.receivedAtUnixMs.toInt_lt; omega⟩
  refine plain_ofFields ?_
  simp only [toFields, List.forall_mem_cons, Option.mem_def, Option.some.injEq, forall_eq']
  exact ⟨trivial, plain_optionStr _, plain_optionStr _, trivial, plain_optionStr _, trivial,
    plain_optionStr _, plain_optionStr _, hn, by simp⟩

theorem AuthorizeRequest.plain_toJson (r : AuthorizeRequest) : r.toJson.Plain 128 := by
  refine plain_ofFields ?_
  simp only [toFields, List.forall_mem_cons, Option.mem_def, Option.some.injEq, forall_eq']
  exact ⟨trivial, r.request.plain_toJson 125, r.context.plain_toJson 125, plain_ofMap _, by simp⟩

/-- A response is within the limits when its evidence is. -/
theorem AuthorizeResponse.plain_toJson {v : AuthorizeResponse}
    (h : ∀ e ∈ v.evidence, e.json.Plain 127) : v.toJson.Plain 128 := by
  refine plain_ofFields ?_
  have hd : v.decision.toJson.Plain 127 := by cases v.decision <;> trivial
  simp only [toFields, List.forall_mem_cons, Option.mem_def, Option.some.injEq, forall_eq']
  refine ⟨hd, trivial, plain_optionStr _, plain_optionStr _, ?_, by simp⟩
  intro j hj
  obtain ⟨e, he, rfl⟩ := Option.map_eq_some_iff.1 hj
  exact h e he

theorem plain_object {depth : ℕ} {fs : List (String × Value)}
    (h : ∀ p ∈ fs, p.2.json.Plain (depth + 1)) : (Value.object fs).json.Plain (depth + 2) := by
  refine plain_normal _ ⟨by omega, plainFields_iff.2 fun p hp => ?_⟩
  obtain ⟨q, hq, rfl⟩ := List.mem_map.1 hp
  exact h q hq

theorem plain_deny (code msg : String) : (deny code msg).toJson.Plain 128 := by
  refine AuthorizeResponse.plain_toJson fun e he => ?_
  cases he
  exact plain_object (by simp [Value.str, Plain])

theorem plain_allow (c : Claims) : (allow c).toJson.Plain 128 := by
  refine AuthorizeResponse.plain_toJson fun e he => ?_
  cases he
  have hscope : (Value.object [("method", .str c.scope.method),
      ("authority", .str c.scope.authority)]).json.Plain 126 :=
    plain_object (by simp [Value.str, Plain])
  have hcrh : (Value.ofOption c.crh).json.Plain 126 := by
    cases c.crh <;> trivial
  refine plain_object ?_
  simp only [List.forall_mem_cons]
  exact ⟨trivial, trivial, trivial, hcrh, hscope, by simp⟩

/-! ## Requests and responses -/

variable {X : Crates} {D : Decoders}

/-- The verifier reads the request that was sent, or refuses it. -/
theorem Decoders.Lossless.readRequest_toVec (hD : D.Lossless X) {wire req : AuthorizeRequest} :
    readRequest D (toVec wire.toJson) = some req ↔ wire.FitsLimit ∧ req = wire := by
  have hl : (toVec wire.toJson).length = wire.toJson.size := Text.length_bytes _
  rw [readRequest, hl, hD.request _ wire.plain_toJson, AuthorizeRequest.fromJson_toJson]
  by_cases h : wire.toJson.size ≤ maxAuthorizeBodyBytes
  · rw [if_neg (not_lt.2 h), Option.some.injEq, eq_comm]
    exact (and_iff_right h).symm
  · rw [if_pos (not_le.1 h)]
    exact iff_of_false (by simp) fun hf => h hf.1

theorem Decoders.Lossless.ofBody_toVec (hD : D.Lossless X) {v : AuthorizeResponse}
    (h : v.toJson.Plain 128) : Reply.ofBody D (toVec v.toJson) =
      .response .ok (AuthorizeResponse.decode X.values v.toJson) := by
  rw [Reply.ofBody, hD.response _ h]

/-- The verifier reads the request in some body. -/
def Arrives (D : Decoders) (req : AuthorizeRequest) : Prop :=
  ∃ body, readRequest D body = some req

theorem AuthorizeRequest.FitsLimit.arrives {req : AuthorizeRequest} (h : req.FitsLimit)
    (hD : D.Lossless X) : Arrives D req :=
  ⟨toVec req.toJson, hD.readRequest_toVec.2 ⟨h, rfl⟩⟩

/-- What a handler answered can be read. -/
theorem Network.Reachable.plain_verdict {key : List UInt8} {N : Network}
    (h : Reachable X key N) {i : ℕ} {c : VerifierCall} {v : AuthorizeResponse} {f : Bool}
    (ht : N.verifier.threads i = some ⟨c, .done (.verdict v), f⟩) : v.toJson.Plain 128 := by
  obtain ⟨es, hrun⟩ := h.inv.run
  obtain ⟨hst, -⟩ := staged_of_run (staged_init X (.new key)) hrun
  rcases (hst i _ ht).done_cases with
    ⟨now, req, d, hc, he, -⟩ | ⟨now, req, w, hc, he, -⟩ | ⟨_, _, he, -⟩
  · cases he
    exact plain_allow d
  · cases hc
    cases he
    cases Reachable.init.cause h.from_init rfl ht with
    | before =>
      rcases VerifierState.authorize_response X (.new key) now req with
        ⟨code, msg, hv⟩ | ⟨d, hv⟩
      · exact hv ▸ plain_deny code msg
      · exact hv ▸ plain_allow d
    | revoked => exact plain_deny _ _
    | replayed => exact plain_deny _ _
  · cases he

/-! ## From the bytes to the documents -/

/-- Every request that is handled was read from a body. -/
def Network.Arriving (D : Decoders) (N : Network) : Prop :=
  ∀ i t now req, N.verifier.threads i = some t → t.call = .authorize now req → Arrives D req

namespace Link

variable {key : List UInt8} {L L' : Link}

/-- The invariant of the link: what it says of the network, and of the bytes that
    were sent. -/
structure Inv (X : Crates) (D : Decoders) (key : List UInt8) (L : Link) : Prop where
  reachable : Network.Reachable X key L.net
  arriving : L.net.Arriving D
  requests : ∀ j body, (j, body) ∈ L.requests → ∃ call wire, L.net.calls j = some call ∧
    call.sent X = some wire ∧ body = toVec wire.toJson
  responses : ∀ j body, (j, body) ∈ L.responses → ∃ i c v, L.net.sender i = some j ∧
    L.net.verifier.threads i = some ⟨c, .done (.verdict v), true⟩ ∧ body = toVec v.toJson

theorem inv_init (X : Crates) (D : Decoders) (key : List UInt8) :
    Inv X D key (.init (.new key)) where
  reachable := .init
  arriving i t now req ht := by cases ht
  requests j body h := by cases h
  responses j body h := by cases h

/-- A response stays what a handler answered. -/
theorem Inv.responses_of_step (h : Inv X D key L) {N : Network}
    (hstep : Network.Step X key L.net N) {j : ℕ} {body : List UInt8}
    (hb : (j, body) ∈ L.responses) : ∃ i c v, N.sender i = some j ∧
      N.verifier.threads i = some ⟨c, .done (.verdict v), true⟩ ∧ body = toVec v.toJson := by
  obtain ⟨i, c, v, hi, ht, rfl⟩ := h.responses j body hb
  have hg := hstep.grows
  obtain ⟨f, ht', hf⟩ := hg.verifier.done ht
  rw [hf rfl] at ht'
  exact ⟨i, c, v, (hg.sender i _ ht).trans hi, ht', rfl⟩

/-- A handler that starts has read its request. -/
theorem Inv.arriving_of_step (h : Inv X D key L) {e : VerifierEvent} {C : VerifierConfig}
    (hstep : Interleave.Step (verifier X key) L.net.verifier e C)
    (he : ∀ i now req, e = .start i (.authorize now req) → Arrives D req) :
    ∀ i t now req, C.threads i = some t → t.call = .authorize now req → Arrives D req := by
  intro i t now req ht hc
  rcases hstep.call_or_start ht with ⟨t₀, ht₀, hc₀⟩ | hs
  · exact h.arriving i t₀ now req ht₀ (hc₀.trans hc)
  · exact he i now req (hc ▸ hs)

theorem Inv.handle (h : Inv X D key L) {e : VerifierEvent} {C : VerifierConfig}
    (hstep : Interleave.Step (verifier X key) L.net.verifier e C)
    (he : ∀ i now req, e = .start i (.authorize now req) → Arrives D req) :
    Inv X D key (L.withVerifier C) where
  reachable := h.reachable.step (.handle hstep)
  arriving := h.arriving_of_step hstep he
  requests := h.requests
  responses _ _ hb := h.responses_of_step (.handle hstep) hb

theorem Inv.deliver (h : Inv X D key L) (hD : D.Lossless X) {i j : ℕ} {now : Int64}
    {body : List UInt8} {req : AuthorizeRequest} {C : VerifierConfig} (hb : (j, body) ∈ L.requests)
    (hr : readRequest D body = some req)
    (hstep : Interleave.Step (verifier X key) L.net.verifier (.start i (.authorize now req)) C) :
    Inv X D key { L with
      net := { L.net with verifier := C, sender := Function.update L.net.sender i (some j) } } := by
  obtain ⟨call, wire, hj, hw, rfl⟩ := h.requests j body hb
  obtain ⟨hl, rfl⟩ := hD.readRequest_toVec.1 hr
  have harrive : Network.Step X key L.net _ :=
    .arrive i j now hj hw (extractRequest_toJson hl) hstep
  refine ⟨h.reachable.step harrive, h.arriving_of_step hstep ?_, h.requests,
    fun _ _ hb => h.responses_of_step harrive hb⟩
  rintro _ _ _ ⟨⟩
  exact hl.arrives hD

theorem Inv.enter (h : Inv X D key L) {j : ℕ} {call : EvaluateCall} (hn : L.net.calls j = none)
    (hr : call.result = none) :
    Inv X D key { L.withCall j call with requests := call.posted X j ++ L.requests } := by
  have henter : Network.Step X key L.net _ := .enter j call hn hr
  refine ⟨h.reachable.step henter, h.arriving, ?_, fun _ _ hb => h.responses_of_step henter hb⟩
  intro j' body hb
  rcases List.mem_append.1 hb with hb | hb
  · obtain ⟨wire, hw, he⟩ := Option.map_eq_some_iff.1 (Option.mem_toList.1 hb)
    cases he
    exact ⟨call, wire, Function.update_self _ _ _, hw, rfl⟩
  · obtain ⟨call', wire, hj', hw, rfl⟩ := h.requests j' body hb
    have hne : j' ≠ j := by
      rintro rfl
      rw [hn] at hj'
      cases hj'
    exact ⟨call', wire, (Function.update_of_ne hne _ _).trans hj', hw, rfl⟩

/-- A call that leaves has sent what it sent. -/
theorem Inv.leave (h : Inv X D key L) {j : ℕ} {call : EvaluateCall} {reply : Reply}
    (hj : L.net.calls j = some call) (hr : call.result = none) (hh : L.net.Hears X j reply) :
    Inv X D key (L.withCall j { call with result := some (call.run X reply) }) := by
  have hleave : Network.Step X key L.net _ := .leave j call hj hr hh
  refine ⟨h.reachable.step hleave, h.arriving, ?_, fun _ _ hb => h.responses_of_step hleave hb⟩
  intro j' body hb
  obtain ⟨call', wire, hj', hw, rfl⟩ := h.requests j' body hb
  by_cases hjj : j' = j
  · subst hjj
    cases hj.symm.trans hj'
    exact ⟨_, wire, Function.update_self _ _ _, hw, rfl⟩
  · exact ⟨call', wire, (Function.update_of_ne hjj _ _).trans hj', hw, rfl⟩

/-- What a call reads from a response is what a handler of its own answered. -/
theorem Inv.hears (h : Inv X D key L) (hD : D.Lossless X) {j : ℕ} {body : List UInt8}
    (hb : (j, body) ∈ L.responses) : L.net.Hears X j (.ofBody D body) := by
  obtain ⟨i, c, v, hi, ht, rfl⟩ := h.responses j body hb
  rw [hD.ofBody_toVec (h.reachable.plain_verdict ht)]
  exact .response i hi ht

theorem Inv.step (h : Inv X D key L) (hD : D.Lossless X) (hstep : Step X D key L L') :
    Inv X D key L' := by
  cases hstep with
  | enter j call hn hr => exact h.enter hn hr
  | deliver i j now hb hr hs => exact h.deliver hD hb hr hs
  | @other req C i now body hr hs =>
    refine h.handle hs ?_
    rintro _ _ _ ⟨⟩
    exact ⟨body, hr⟩
  | revoke i a hs =>
    refine h.handle hs ?_
    rintro _ _ _ ⟨⟩
  | run hne hs => exact h.handle hs fun i now req he => absurd he (hne i _)
  | @respond c v i j hi ht =>
    refine ⟨h.reachable, h.arriving, h.requests, ?_⟩
    intro j' body hb
    rcases List.mem_cons.1 hb with he | hb
    · cases he
      exact ⟨i, c, v, hi, ht, rfl⟩
    · exact h.responses j' body hb
  | hear j call hb hj hr => exact h.leave hj hr (h.hears hD hb)
  | fail j call hj hr hf => exact h.leave hj hr (.failure hf)

theorem Reachable.inv (h : Reachable X D key L) (hD : D.Lossless X) : Inv X D key L := by
  induction h with
  | init => exact inv_init X D key
  | step _ hstep ih => exact ih.step hD hstep

/-! ## From the documents to the bytes -/

/-- Every call has sent its request. -/
def Sent (X : Crates) (L : Link) : Prop :=
  ∀ j call wire, L.net.calls j = some call → call.sent X = some wire →
    (j, toVec wire.toJson) ∈ L.requests

theorem Sent.leave (h : Sent X L) {j : ℕ} {call : EvaluateCall} (hj : L.net.calls j = some call)
    (r : Option (Decision × AuditEvent)) : Sent X (L.withCall j { call with result := r }) := by
  intro j' call' wire hj' hw
  by_cases hjj : j' = j
  · subst hjj
    cases (Function.update_self _ _ _).symm.trans hj'
    exact h j' call wire hj hw
  · exact h j' call' wire ((Function.update_of_ne hjj _ _).symm.trans hj') hw

theorem Sent.enter (h : Sent X L) (j : ℕ) (call : EvaluateCall) :
    Sent X { L.withCall j call with requests := call.posted X j ++ L.requests } := by
  intro j' call' wire hj' hw
  refine List.mem_append.2 ?_
  by_cases hjj : j' = j
  · subst hjj
    cases (Function.update_self _ _ _).symm.trans hj'
    exact .inl (by simp [EvaluateCall.posted, hw])
  · exact .inr (h j' call' wire ((Function.update_of_ne hjj _ _).symm.trans hj') hw)

/-- What a handler does is done on the link. -/
theorem step_of_handle {N : Network} (hN : L.net = N) {e : VerifierEvent} {C : VerifierConfig}
    (hstep : Interleave.Step (verifier X key) N.verifier e C)
    (ha : Network.Arriving D { N with verifier := C }) : Step X D key L (L.withVerifier C) := by
  subst hN
  cases e with
  | start i call =>
    cases call with
    | authorize now req =>
      have ht : ∃ t, C.threads i = some t ∧ t.call = .authorize now req := by
        cases hstep
        exact ⟨_, Config.set_threads_self _ _ _ _, rfl⟩
      obtain ⟨t, ht, hc⟩ := ht
      obtain ⟨body, hb⟩ := ha i t now req ht hc
      exact .other i now body hb hstep
    | revoke a => exact .revoke i a hstep
  | step => exact .run (by rintro _ _ ⟨⟩) hstep
  | finish => exact .run (by rintro _ _ ⟨⟩) hstep

end Link

namespace Network

variable {key : List UInt8} {N N' : Network}

theorem Arriving.of_grows (h : N'.Arriving D) (hg : N.Grows N') : N.Arriving D := by
  intro i t now req ht hc
  obtain ⟨t', ht', hc', -⟩ := hg.verifier i t ht
  exact h i t' now req ht' (hc'.trans hc)

theorem Reachable.exists_link (h : Reachable X key N) (hD : D.Lossless X) (ha : N.Arriving D) :
    ∃ L, Link.Reachable X D key L ∧ L.Sent X ∧ L.net = N := by
  induction h with
  | init => exact ⟨_, .init, (by intro j call wire hj; cases hj), rfl⟩
  | step hN hstep ih =>
    obtain ⟨L, hL, hs, rfl⟩ := ih (ha.of_grows hstep.grows)
    cases hstep with
    | enter j call hn hr => exact ⟨_, hL.step (.enter j call hn hr), hs.enter j call, rfl⟩
    | @arrive call wire req C i j now hj hw hx hstep =>
      cases eq_of_extractRequest hx
      have hl : wire.FitsLimit := by
        by_contra hl
        rw [extractRequest_of_not_fitsLimit hl] at hx
        cases hx
      exact ⟨_, hL.step (.deliver i j now (hs j call wire hj hw)
        (hD.readRequest_toVec.2 ⟨hl, rfl⟩) hstep), hs, rfl⟩
    | handle hstep => exact ⟨_, hL.step (Link.step_of_handle rfl hstep ha), hs, rfl⟩
    | leave j call hj hr hh =>
      cases hh with
      | failure hf => exact ⟨_, hL.step (.fail j call hj hr hf), hs.leave hj _, rfl⟩
      | @response i _ v hi ht =>
        have hrespond := hL.step (.respond i j hi ht)
        have hhear : Link.Step X D key
          { L with responses := (j, toVec v.toJson) :: L.responses } _ :=
            .hear j call List.mem_cons_self hj hr
        rw [hD.ofBody_toVec (hN.plain_verdict ht)] at hhear
        exact ⟨_, hrespond.step hhear, Link.Sent.leave hs hj _, rfl⟩

end Network

/-- **Documents and bytes**: the networks that links come to are those in which
    every request that is handled has a body that it was read from. -/
theorem link_iff (hD : D.Lossless X) {key : List UInt8} {N : Network} :
    (∃ L, Link.Reachable X D key L ∧ L.net = N) ↔ Network.Reachable X key N ∧ N.Arriving D := by
  constructor
  · rintro ⟨L, hL, rfl⟩
    exact ⟨(hL.inv hD).reachable, (hL.inv hD).arriving⟩
  · rintro ⟨hN, ha⟩
    obtain ⟨L, hL, -, he⟩ := hN.exists_link hD ha
    exact ⟨L, hL, he⟩

namespace Driver

/-- Readers of the documents that `Json.parse` reads. -/
def decoders : Decoders where
  request body := (parse body).bind AuthorizeRequest.fromJson
  response body :=
    (parse body).elim (.error .decode) (AuthorizeResponse.decode happy.crates.values)

theorem lossless_decoders : decoders.Lossless happy.crates where
  request j h := by
    have hp : parse (toVec j) = some j := parse_render h
    simp only [decoders, hp, Option.bind_some]
  response j h := by
    have hp : parse (toVec j) = some j := parse_render h
    simp only [decoders, hp, Option.elim_some]

end Driver

/-- The happy path as bytes: its call reports the ALLOW. -/
theorem link_iff_happy : ∃ L call r,
    Link.Reachable Driver.happy.crates Driver.decoders Driver.key L ∧
    L.net.calls 0 = some call ∧ call.result = some r ∧ Reports r (allow Driver.happy.claims) := by
  obtain ⟨N, call, r, hN, hj, hr, -, hrep, -, ht, hframe⟩ := Driver.reported_network
  have ha : N.Arriving Driver.decoders := by
    intro i t now req hi hc
    have hi₀ : i = 0 := by
      by_contra hne
      rw [hframe i hne] at hi
      cases hi
    subst hi₀
    cases ht.symm.trans hi
    cases hc
    exact Driver.happy_fitsLimit.arrives Driver.lossless_decoders
  obtain ⟨L, hL, rfl⟩ := (link_iff Driver.lossless_decoders).2 ⟨hN, ha⟩
  exact ⟨L, call, r, hL, hj, hr, hrep⟩

end ExtAuthz
