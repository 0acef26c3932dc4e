/-
  The deployment as one authorizer that serves one request at a time.

  A call that heard a verdict reports the answer of a handler of its own request,
  and this handler ran while the call was open (`Reporter`).  So an order of the
  handlers (`exists_order`) orders the calls of all middlewares, and the
  revocations among them: every call reports what the verifier answers to its
  request after those that come before, one after the other, and what was over
  when something else began comes before it (`network_atomic`).
-/
import ExtAuthz.Proof.Explained
import ExtAuthz.Proof.Responses

namespace ExtAuthz

open Json Interleave

namespace Network

/-- A run: the networks that it went through, the last one first, and the one that
    it has come to. -/
inductive History (X : Crates) (key : List UInt8) : List Network → Network → Prop
  | init : History X key [] (.init (.new key))
  | step {past N N'} : History X key past N → Step X key N N' → History X key (N :: past) N'

/-- The call `j` has returned. -/
def Returned (N : Network) (j : ℕ) : Prop :=
  ∃ call r, N.calls j = some call ∧ call.result = some r

/-- The call `j` sent `wire` and heard a verdict, and its result is `r`. -/
structure Heard (X : Crates) (N : Network) (j : ℕ) (wire : AuthorizeRequest)
    (r : Decision × AuditEvent) : Prop where
  call : ∃ call, N.calls j = some call ∧ call.result = some r ∧ call.sent X = some wire
  degraded : r.2.degraded = false

/-- The call `j` reports the answer `v` of the handler `i`, which had finished when
    the call returned. -/
structure Reporter (past : List Network) (N : Network) (j i : ℕ) (now : Int64)
    (wire : AuthorizeRequest) (v : AuthorizeResponse) (r : Decision × AuditEvent) : Prop where
  sender : N.sender i = some j
  thread : N.verifier.threads i = some ⟨.authorize now wire, .done (.verdict v), true⟩
  reports : Reports r v
  finished : ∀ M ∈ past, M.Returned j →
    ∃ t, M.verifier.threads i = some t ∧ t.finished = true

/-- The handlers `is` in a row, with the handler `server j` of the call `j`. -/
structure Serial (X : Crates) (key : List UInt8) (past : List Network) (N : Network)
    (agree : VerifierAnswer → VerifierAnswer → Prop) (is : List ℕ) (server : ℕ → ℕ) : Prop where
  nodup : is.Nodup
  /-- Every handler that finished has its place. -/
  complete : ∀ k t, N.verifier.threads k = some t → t.finished = true → k ∈ is
  /-- A call reports what the verifier answers to its request after the handlers
      before its own. -/
  reports : ∀ j wire r, N.Heard X j wire r → ∃ l l' now v, is = l ++ server j :: l' ∧
    agree (.verdict (answer X key (N.verifier.calls l) now wire)) (.verdict v) ∧
    Reporter past N j (server j) now wire v r
  /-- In the end the verifier is where the handlers bring it. -/
  shared : (VerifierState.new key).after X (N.verifier.calls is) = N.verifier.shared
  /-- A handler that had finished before another one started comes first. -/
  realTime : ∀ i k, k ∈ is →
    (∃ M ∈ past, (∃ t, M.verifier.threads i = some t ∧ t.finished = true) ∧
      M.verifier.threads k = none) → [i, k].Sublist is
  /-- A call that returned before another one entered comes first. -/
  order : ∀ j j' wire wire' r r', N.Heard X j wire r → N.Heard X j' wire' r' →
    (∃ M ∈ past, M.Returned j ∧ M.calls j' = none) → [server j, server j'].Sublist is
  /-- What had finished before a call entered comes first, a revocation say. -/
  earlier : ∀ j wire r k, N.Heard X j wire r →
    (∃ M ∈ past, (∃ t, M.verifier.threads k = some t ∧ t.finished = true) ∧ M.calls j = none) →
    [k, server j].Sublist is
  /-- What started after a call returned comes later. -/
  later : ∀ j wire r k, N.Heard X j wire r → k ∈ is →
    (∃ M ∈ past, M.Returned j ∧ M.verifier.threads k = none) → [server j, k].Sublist is

variable {X : Crates} {key : List UInt8} {past : List Network} {M N N' : Network} {i j k : ℕ}
  {wire : AuthorizeRequest} {r : Decision × AuditEvent}

theorem History.reachable (h : History X key past N) : Reachable X key N := by
  induction h with
  | init => exact .init
  | step _ hstep ih => exact ih.step hstep

theorem Reachable.exists_history (h : Reachable X key N) : ∃ past, History X key past N := by
  induction h with
  | init => exact ⟨[], .init⟩
  | step _ hstep ih =>
    obtain ⟨past, hp⟩ := ih
    exact ⟨_, hp.step hstep⟩

/-- From every network of the past the run went on. -/
theorem History.steps (h : History X key past N) (hM : M ∈ past) :
    Reachable X key M ∧ Relation.ReflTransGen (Step X key) M N := by
  induction h with
  | init => cases hM
  | step hp hstep ih =>
    rcases List.mem_cons.1 hM with rfl | hM
    · exact ⟨hp.reachable, .single hstep⟩
    · exact ⟨(ih hM).1, (ih hM).2.tail hstep⟩

/-- The verifier has one trace, and was somewhere on it in every network of the
    past. -/
theorem History.exists_trace (h : History X key past N) :
    ∃ es, Run (ExtAuthz.verifier X key) (.init (.new key)) es N.verifier ∧
      ∀ M ∈ past, ∃ es₁ es₂, es = es₁ ++ es₂ ∧
        Run (ExtAuthz.verifier X key) (.init (.new key)) es₁ M.verifier ∧
        Run (ExtAuthz.verifier X key) M.verifier es₂ N.verifier := by
  induction h with
  | init => exact ⟨[], .nil, by simp⟩
  | step _ hstep ih =>
    obtain ⟨es, hr, hpast⟩ := ih
    obtain ⟨d, hd⟩ := hstep.run
    refine ⟨es ++ d, hr.append hd, ?_⟩
    intro M hM
    rcases List.mem_cons.1 hM with rfl | hM
    · exact ⟨es, d, rfl, hr, hd⟩
    · obtain ⟨es₁, es₂, rfl, h₁, h₂⟩ := hpast M hM
      exact ⟨es₁, es₂ ++ d, by simp, h₁, h₂.append hd⟩

theorem Returned.grows (h : M.Returned j) (hg : M.Grows N) : N.Returned j := by
  obtain ⟨call, r, hj, hr⟩ := h
  exact ⟨call, r, hg.result j call r hj hr, hr⟩

theorem Reporter.step {now : Int64} {v : AuthorizeResponse}
    (h : Reporter past N j i now wire v r) (hg : N.Grows N') :
    Reporter (N :: past) N' j i now wire v r := by
  obtain ⟨f, ht, hf⟩ := hg.verifier.done h.thread
  rw [hf rfl] at ht
  refine ⟨(hg.sender i _ h.thread).trans h.sender, ht, h.reports, ?_⟩
  intro M hM hj
  rcases List.mem_cons.1 hM with rfl | hM
  · exact ⟨_, h.thread, rfl⟩
  · exact h.finished M hM hj

theorem History.exists_reporter (h : History X key past N) (hh : N.Heard X j wire r) :
    ∃ i now v, Reporter past N j i now wire v r := by
  obtain ⟨⟨call, hj, hr, hw⟩, hd⟩ := hh
  induction h with
  | init => cases hj
  | @step past N N' hp hstep ih =>
    by_cases hret : N.Returned j
    · -- it had returned already, with the same result
      obtain ⟨call', r', hj', hr'⟩ := hret
      cases hj.symm.trans (hstep.grows.result j call' r' hj' hr')
      obtain ⟨i, now, v, hrep⟩ := ih hj'
      exact ⟨i, now, v, hrep.step hstep.grows⟩
    · -- it returns in this step, so it has not returned in the past
      obtain ⟨i, now, v, hi, ht, hrep⟩ := (hp.step hstep).reachable.heard hj hr hw hd
      refine ⟨i, now, v, hi, ht, hrep, ?_⟩
      intro M hM hMj
      rcases List.mem_cons.1 hM with rfl | hM
      · exact absurd hMj hret
      · exact absurd (hMj.grows (grows_of_steps (hp.steps hM).2)) hret

theorem Heard.unique {wire' : AuthorizeRequest} {r' : Decision × AuditEvent}
    (h : N.Heard X j wire r) (h' : N.Heard X j wire' r') : wire' = wire ∧ r' = r := by
  obtain ⟨⟨call, hj, hr, hw⟩, -⟩ := h
  obtain ⟨⟨call', hj', hr', hw'⟩, -⟩ := h'
  cases hj.symm.trans hj'
  exact ⟨Option.some.inj (hw'.symm.trans hw), Option.some.inj (hr'.symm.trans hr)⟩

theorem History.exists_server (h : History X key past N) : ∃ server : ℕ → ℕ,
    ∀ j wire r, N.Heard X j wire r → ∃ now v, Reporter past N j (server j) now wire v r := by
  have hone (j : ℕ) : ∃ i, ∀ wire r, N.Heard X j wire r →
      ∃ now v, Reporter past N j i now wire v r := by
    by_cases hj : ∃ wire r, N.Heard X j wire r
    · obtain ⟨wire, r, hh⟩ := hj
      obtain ⟨i, now, v, hrep⟩ := h.exists_reporter hh
      refine ⟨i, fun wire' r' hh' => ?_⟩
      obtain ⟨rfl, rfl⟩ := hh.unique hh'
      exact ⟨now, v, hrep⟩
    · exact ⟨0, fun wire r hh => absurd ⟨wire, r, hh⟩ hj⟩
  choose server hserver using hone
  exact ⟨server, hserver⟩

end Network

/-- What the verifier answers after a history, as a shared object. -/
theorem run_authorize_after (X : Crates) (key : List UInt8) (cs : List VerifierCall) (now : Int64)
    (req : AuthorizeRequest) :
    ((verifier X key).run (.authorize now req) ((verifier X key).after (.new key) cs)).1 =
      .verdict (answer X key cs now req) := by
  have h := verifier_run_authorize X ((VerifierState.new key).after X cs) now req
  rw [after_key] at h
  exact congrArg Prod.fst h

/-- **The deployment is one authorizer**: in every run of the network there is an
    order of the handlers of the verifier in which every call that heard a verdict
    reports what the verifier answers to it after what comes before, but for a call
    that found its nonce consumed and finds its agent revoked instead, when a nonce
    is of two agents.  The order is consistent with the times at which the handlers
    started and finished, and at which the calls entered and returned. -/
theorem network_atomic {X : Crates} {key : List UInt8} {past : List Network} {N : Network}
    (h : Network.History X key past N) : ∃ is server,
      Network.Serial X key past N (SameAnswer (NonceOfOneAgent X N.verifier)) is server := by
  obtain ⟨es, hrun, hpast⟩ := h.exists_trace
  obtain ⟨is, hlin⟩ := exists_order (s := .new key) hrun
  obtain ⟨server, hserver⟩ := h.exists_server
  have hcomplete (k : ℕ) (t) (ht : N.verifier.threads k = some t) (hf : t.finished = true) :
      k ∈ is := by
    obtain ⟨a, ha⟩ := hrun.finish_mem rfl ht hf
    exact hlin.complete k a ha
  have hmem {j : ℕ} {wire : AuthorizeRequest} {r : Decision × AuditEvent}
      (hh : N.Heard X j wire r) : server j ∈ is := by
    obtain ⟨now, v, hrep⟩ := hserver j wire r hh
    exact hcomplete _ _ hrep.thread rfl
  have hbefore {M : Network} (hM : M ∈ past) {i k : ℕ} (hk : k ∈ is)
      (hi : ∃ t, M.verifier.threads i = some t ∧ t.finished = true)
      (hn : M.verifier.threads k = none) : [i, k].Sublist is := by
    obtain ⟨t, ht, hf⟩ := hi
    obtain ⟨es₁, es₂, rfl, h₁, h₂⟩ := hpast M hM
    exact hlin.sublist_of_append h₁ h₂ ht hf hn hk
  have hnone {M : Network} (hM : M ∈ past) {j : ℕ} {wire : AuthorizeRequest}
      {r : Decision × AuditEvent} (hh : N.Heard X j wire r) (hn : M.calls j = none) :
      M.verifier.threads (server j) = none := by
    obtain ⟨now, v, hrep⟩ := hserver j wire r hh
    exact (h.steps hM).1.threads_eq_none (h.steps hM).2 hn hrep.sender
  have hover {M : Network} (hM : M ∈ past) {j : ℕ} {wire : AuthorizeRequest}
      {r : Decision × AuditEvent} (hh : N.Heard X j wire r) (hj : M.Returned j) :
      ∃ t, M.verifier.threads (server j) = some t ∧ t.finished = true := by
    obtain ⟨now, v, hrep⟩ := hserver j wire r hh
    exact hrep.finished M hM hj
  refine ⟨is, server, hlin.nodup, hcomplete, ?_, hlin.replay.eq_after.symm, ?_, ?_, ?_, ?_⟩
  · intro j wire r hh
    obtain ⟨now, v, hrep⟩ := hserver j wire r hh
    obtain ⟨l, l', he, ha⟩ := hlin.exists_split (hmem hh) hrep.thread
    have hk : (VerifierState.new key).key = key := rfl
    rw [hk, run_authorize_after] at ha
    exact ⟨l, l', now, v, he, ha, hrep⟩
  · rintro i k hk ⟨M, hM, hi, hn⟩
    exact hbefore hM hk hi hn
  · rintro j j' wire wire' r r' hh hh' ⟨M, hM, hj, hn⟩
    exact hbefore hM (hmem hh') (hover hM hh hj) (hnone hM hh' hn)
  · rintro j wire r k hh ⟨M, hM, hk, hn⟩
    exact hbefore hM (hmem hh) hk (hnone hM hh hn)
  · rintro j wire r k hh hk ⟨M, hM, hj, hn⟩
    exact hbefore hM hk (hover hM hh hj) hn

/-- The happy path in its order: its call reports the ALLOW. -/
theorem network_atomic_happy : ∃ past N r is server,
    Network.History Driver.happy.crates Driver.key past N ∧
    N.Heard Driver.happy.crates 0 Driver.happy.wire r ∧ Unmarked r ∧
    Network.Serial Driver.happy.crates Driver.key past N
      (SameAnswer (NonceOfOneAgent Driver.happy.crates N.verifier)) is server := by
  obtain ⟨N, call, r, hN, hj, hr, hw, hrep, -⟩ := Driver.reported_network
  have hu : Unmarked r := hrep.unmarked.2 rfl
  obtain ⟨past, hp⟩ := hN.exists_history
  obtain ⟨is, server, hs⟩ := network_atomic hp
  exact ⟨past, N, r, is, server, hp, ⟨⟨call, hj, hr, hw⟩, hu.degraded⟩, hu, hs⟩

end ExtAuthz
