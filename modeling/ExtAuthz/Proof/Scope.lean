/-
  The path scope of a coarse grant, and what a request path resolves to.

  The segments of the prefix come first in the path (`pathInScope_iff`).  An
  upstream server resolves the dot segments.  A path whose segments after the
  prefix do not climb out of it resolves into the scope
  (`coarse_scope_confines`); a path that climbs out may pass the check.
-/
import ExtAuthz.Lib.DotSegments
import ExtAuthz.Proof.PathScope
import ExtAuthz.Proof.Wire

namespace ExtAuthz

open Text DotSegments

/-- The segments that every path in the scope of `pre` starts with. -/
def scopeBase (pre : String) : List (List Char) :=
  if endsWithChar pre '/' then (segments pre.toList).dropLast else segments pre.toList

/-- The dot segments of `path` lead out of the scope of `pre`. -/
def leavesScope (path pre : String) : Bool :=
  climbs 0 ((segments path.toList).drop (scopeBase pre).length)

/-! ## The scope in segments -/

theorem splitOn_slash {p l : List Char} (h : p = '/' :: l) :
    p.splitOn '/' = [] :: segments p := by
  rw [h, segments, List.tail_cons, List.splitOn_cons_eq_if_modifyHead]
  simp

theorem base_slash {pre : String} {l : List Char} (h : pre.toList = '/' :: l) :
    Split.base '/' pre.toList = [] :: scopeBase pre := by
  rw [Split.base, scopeBase, splitOn_slash h]
  by_cases he : endsWithChar pre '/' = true
  · rw [if_pos he, if_pos (endsWithChar_iff.1 he), List.dropLast_cons_of_ne_nil (segments_ne_nil _)]
  · rw [if_neg he, if_neg fun h => he (endsWithChar_iff.2 h)]

theorem pathInScope_iff {path pre : String} {l l' : List Char} (hpath : path.toList = '/' :: l)
    (hpre : pre.toList = '/' :: l') : pathInScope path pre = true ↔
      ∃ r, segments path.toList = scopeBase pre ++ r ∧ (endsWithChar pre '/' = true → r ≠ []) := by
  have hroot {p : String} {m : List Char} (hp : p.toList = '/' :: m) : pathOrRoot p = p := by
    refine pathOrRoot_of_ne ?_
    rintro rfl
    simp at hp
  have hlen : (segments pre.toList).length =
      (scopeBase pre).length + if endsWithChar pre '/' then 1 else 0 := by
    have hpos := List.length_pos_iff.2 (segments_ne_nil pre.toList)
    unfold scopeBase
    split
    · rw [List.length_dropLast]
      omega
    · rfl
  rw [pathInScope_iff_below, hroot hpath, hroot hpre, Split.Below, base_slash hpre,
    splitOn_slash hpath, splitOn_slash hpre, List.cons_prefix_cons, List.length_cons,
    List.length_cons, hlen]
  constructor
  · rintro ⟨⟨-, r, hr⟩, hle⟩
    refine ⟨r, hr.symm, ?_⟩
    intro he hn
    rw [← hr, hn, if_pos he, List.append_nil] at hle
    omega
  · rintro ⟨r, hr, hne⟩
    refine ⟨⟨rfl, r, hr.symm⟩, ?_⟩
    rw [hr, List.length_append]
    split
    · have := List.length_pos_iff.2 (hne ‹_›)
      omega
    · omega

/-! ## What the path resolves to -/

/-- A path in the scope whose dot segments do not lead out of it resolves into
    the scope. -/
theorem pathInScope_removeDotSegments {path pre : String} {l l' : List Char}
    (hpath : path.toList = '/' :: l) (hpre : pre.toList = '/' :: l')
    (hdots : ∀ s ∈ segments pre.toList, ¬ Dot s) (hs : pathInScope path pre = true)
    (hstay : pre = "/" ∨ leavesScope path pre = false) :
    pathInScope (removeDotSegments path) pre = true := by
  obtain ⟨m, hm⟩ : ∃ m, (removeDotSegments path).toList = '/' :: m := by
    rw [toList_removeDotSegments hpath]
    obtain ⟨s, segs, he⟩ := List.exists_cons_of_ne_nil (resolve_ne_nil (segments_ne_nil _) [])
    exact ⟨_, by rw [he]; rfl⟩
  have hbase : ∀ s ∈ scopeBase pre, ¬ Dot s := by
    intro s hs
    unfold scopeBase at hs
    split at hs
    · exact hdots s (List.mem_of_mem_dropLast hs)
    · exact hdots s hs
  obtain ⟨r, hr, hne⟩ := (pathInScope_iff hpath hpre).1 hs
  rw [pathInScope_iff hm hpre, segments_removeDotSegments hpath, hr, resolve_append hbase,
    List.nil_append]
  rcases hstay with rfl | hstay
  · have hroot : scopeBase "/" = [] := by decide
    rw [hroot]
    exact ⟨_, rfl, fun he => resolve_ne_nil (hne he) _⟩
  · rw [leavesScope, hr, List.drop_left] at hstay
    obtain ⟨r', hr', hne'⟩ := resolve_of_not_climbs (scopeBase pre) [] hstay
    rw [List.append_nil] at hr'
    exact ⟨r', hr', fun he => hne' (.inl (hne he))⟩

/-- A coarse grant confines the paths that do not climb out of its prefix. -/
theorem coarse_scope_confines {X : Crates} {st : VerifierState} {now : Int64}
    {req : AuthorizeRequest} {c : Claims}
    (ha : (st.authorize X now req).1.decision = .allow) (hc : tokenClaims X st.key req = some c)
    (hpre : startsWithChar c.scope.pathPrefix '/' = true)
    (hdots : ∀ s ∈ segments c.scope.pathPrefix.toList, ¬ Dot s)
    (hpath : startsWithChar req.request.path '/' = true)
    (hstay : c.scope.pathPrefix = "/" ∨
      leavesScope req.request.path c.scope.pathPrefix = false) :
    pathInScope (removeDotSegments req.request.path) c.scope.pathPrefix = true := by
  obtain ⟨c', hp, -, hi, -⟩ := VerifierState.authorize_allow_iff.1 ha
  cases hc.symm.trans hp.claims
  simp only [startsWithChar, beq_iff_eq, List.head?_eq_some_iff] at hpre hpath
  obtain ⟨l', hpre⟩ := hpre
  obtain ⟨l, hpath⟩ := hpath
  exact pathInScope_removeDotSegments hpath hpre hdots hi.path hstay

namespace Driver

theorem Scenario.authorize_coarse {s : Scenario} (hc : s.claims = climbing.claims)
    (hp : pathInScope s.path goodScope.pathPrefix = true) :
    ((VerifierState.new key).authorize s.crates now s.wire).1.decision = .allow := by
  refine VerifierState.authorize_allow_iff.2 ⟨s.claims, s.principalBound (hc ▸ rfl)
    (hc ▸ by decide), by simp [VerifierState.new], ?_, by simp [VerifierState.new]⟩
  have hm : eqIgnoreAsciiCase goodScope.method "POST" = true := by decide
  have ha : authorityInScope "https" authority goodScope.authority = true := by decide
  rw [hc]
  refine ⟨?_, ?_, ?_, ?_, ?_, ?_⟩
  · simp [climbing, claimsFor]
  · simp [climbing, claimsFor]
  · rw [s.wire_request]
    exact hm
  · rw [s.wire_request]
    exact ha
  · rw [s.wire_request]
    exact hp
  · simp [climbing, claimsFor]

theorem goodScope_not_dot : ∀ s ∈ segments goodScope.pathPrefix.toList, ¬ Dot s := by
  decide

end Driver

/-- A path that enters a segment and leaves it again stays in the scope. -/
theorem coarse_scope_confines_wandering :
    pathInScope (removeDotSegments "/repos/acme/widgets/../issues") "/repos/acme/" = true := by
  have ha := Driver.Scenario.authorize_coarse (s := Driver.wandering) rfl (by decide)
  have hpath : Driver.wandering.wire.request.path = "/repos/acme/widgets/../issues" := by
    rw [Driver.wandering.wire_request]
    rfl
  have h := coarse_scope_confines ha Driver.wandering.tokenClaims_wire (by decide)
    Driver.goodScope_not_dot (by rw [hpath]; decide) (by rw [hpath]; exact .inr (by decide))
  rwa [hpath] at h

/-- The verifier allows `/repos/acme/../evil` under a grant for `/repos/acme/`,
    and it resolves to `/repos/evil`. -/
theorem not_coarse_scope_confines : ¬ ∀ (X : Crates) (st : VerifierState) (now : Int64)
    (req : AuthorizeRequest) (c : Claims),
    (st.authorize X now req).1.decision = .allow → tokenClaims X st.key req = some c →
    c.crh = none → startsWithChar c.scope.pathPrefix '/' = true →
    (∀ s ∈ segments c.scope.pathPrefix.toList, ¬ Dot s) →
    startsWithChar req.request.path '/' = true →
    pathInScope (removeDotSegments req.request.path) c.scope.pathPrefix = true := by
  intro h
  have ha := Driver.Scenario.authorize_coarse (s := Driver.climbing) rfl (by decide)
  have hpath : Driver.climbing.wire.request.path = "/repos/acme/../evil" := by
    rw [Driver.climbing.wire_request]
    rfl
  have hres : removeDotSegments "/repos/acme/../evil" = "/repos/evil" := by
    have hl : "/repos/acme/../evil".toList = '/' :: "repos/acme/../evil".toList := by decide
    rw [← String.toList_inj, toList_removeDotSegments hl]
    decide
  have hin := h _ _ _ _ _ ha Driver.climbing.tokenClaims_wire rfl (by decide)
    Driver.goodScope_not_dot (by rw [hpath]; decide)
  rw [hpath, hres] at hin
  exact absurd hin (by decide)

end ExtAuthz
