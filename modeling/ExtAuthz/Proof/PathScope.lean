/-
  The path scope of a coarse grant, in segments.

  `path_in_scope` compares the text of the paths.  With the empty path read as
  `/`, it says that the segments of the prefix come first (`path_scope`).
-/
import ExtAuthz.Demo.Verifier
import ExtAuthz.Lib.Split
import ExtAuthz.Proof.Canonical

namespace ExtAuthz

open Text Split

theorem stripPrefix_slash_iff {p q : String} :
    (match stripPrefix p q with
      | some rest => startsWithChar rest '/'
      | none => false) = true ↔ q.toList ++ ['/'] <+: p.toList := by
  cases hr : stripPrefix p q with
  | none =>
    refine iff_of_false Bool.false_ne_true ?_
    rintro ⟨m, hm⟩
    have hs : stripPrefix p q = some (String.ofList ('/' :: m)) :=
      stripPrefix_eq_some.2 (String.toList_inj.1 (by simp [← hm]))
    rw [hr] at hs
    cases hs
  | some rest =>
    simp only [startsWithChar_iff, stripPrefix_eq_some.1 hr, String.toList_append,
      List.prefix_append_right_inj]

/-- The check is the hierarchy of the segments. -/
theorem pathInScope_iff_below (path pre : String) : pathInScope path pre = true ↔
    Below '/' (pathOrRoot pre).toList (pathOrRoot path).toList := by
  have hdef : pathInScope path pre =
      if pathOrRoot pre = "/" then startsWithChar (pathOrRoot path) '/'
      else
        pathOrRoot path == pathOrRoot pre ||
          if endsWithChar (pathOrRoot pre) '/' then startsWith (pathOrRoot path) (pathOrRoot pre)
          else match stripPrefix (pathOrRoot path) (pathOrRoot pre) with
            | some rest => startsWithChar rest '/'
            | none => false := rfl
  rw [hdef, below_iff]
  generalize pathOrRoot path = p
  generalize pathOrRoot pre = q
  by_cases hq : q = "/"
  · subst hq
    have hlast : ("/").toList.getLast? = some '/' := by decide
    rw [if_pos rfl, if_pos hlast, startsWithChar_iff]
    rfl
  · rw [if_neg hq, Bool.or_eq_true, beq_iff_eq]
    by_cases he : endsWithChar q '/' = true
    · rw [if_pos he, if_pos (endsWithChar_iff.1 he), startsWith_iff, or_iff_right_of_imp]
      rintro rfl
      exact List.prefix_rfl
    · rw [if_neg he, if_neg fun h => he (endsWithChar_iff.2 h), stripPrefix_slash_iff,
        String.toList_inj]

theorem pathOrRoot_append {pre x : String} (hpre : pre ≠ "") :
    pathOrRoot (pre ++ x) = pathOrRoot pre ++ x := by
  have hne : pre ++ x ≠ "" := by simp [hpre]
  rw [pathOrRoot_of_ne hne, pathOrRoot_of_ne hpre]

theorem pathOrRoot_ne (path : String) : pathOrRoot path ≠ "" := by
  unfold pathOrRoot
  split_ifs with h
  · decide
  · exact h

theorem pathInScope_descendant (pre x : String) :
    pathInScope (if endsWithChar (pathOrRoot pre) '/' then pathOrRoot pre ++ x
      else pathOrRoot pre ++ "/" ++ x) pre = true := by
  have hq := pathOrRoot_ne pre
  rw [pathInScope_iff_below, below_iff]
  generalize pathOrRoot pre = q at hq ⊢
  by_cases he : endsWithChar q '/' = true
  · rw [if_pos he, if_pos (endsWithChar_iff.1 he), pathOrRoot_of_ne (by simp [hq])]
    simp
  · rw [if_neg he, if_neg fun h => he (endsWithChar_iff.2 h), pathOrRoot_of_ne (by simp [hq])]
    exact .inr ⟨x.toList, by simp⟩

/-- A longer last segment is another one. -/
theorem pathInScope_longer {pre x : String} (he : endsWithChar (pathOrRoot pre) '/' = false)
    (hx : x ≠ "") (hs : startsWithChar x '/' = false) : pathInScope (pre ++ x) pre = false := by
  have hpre : pre ≠ "" := by
    rintro rfl
    exact absurd he (by decide)
  rw [← Bool.not_eq_true, pathInScope_iff_below, pathOrRoot_append hpre, String.toList_append]
  refine not_below_append (fun h => ?_) (fun h => hx (String.toList_eq_nil_iff.1 h)) fun h => ?_
  · rw [endsWithChar_iff.2 h] at he
    cases he
  · rw [startsWithChar, h] at hs
    simp at hs

/-- **The path scope is prefix containment of segments**: the segments of the
    prefix come first, where a `/` at its end asks for one more.  So a longer
    last segment is out of scope, everything below is in scope, and scopes
    nest. -/
theorem path_scope :
    (∀ path pre, pathInScope path pre = true ↔
      let segments := (pathOrRoot path).toList.splitOn '/'
      let prefixed := (pathOrRoot pre).toList.splitOn '/'
      if endsWithChar (pathOrRoot pre) '/' then
        prefixed.dropLast <+: segments ∧ prefixed.length ≤ segments.length
      else prefixed <+: segments) ∧
    (∀ pre x, endsWithChar (pathOrRoot pre) '/' = false → x ≠ "" →
      startsWithChar x '/' = false → pathInScope (pre ++ x) pre = false) ∧
    (∀ pre x, pathInScope (if endsWithChar (pathOrRoot pre) '/' then pathOrRoot pre ++ x
      else pathOrRoot pre ++ "/" ++ x) pre = true) ∧
    ∀ path mid pre, pathInScope path mid = true → pathInScope mid pre = true →
      pathInScope path pre = true := by
  refine ⟨?_, fun pre x => pathInScope_longer, pathInScope_descendant, ?_⟩
  · intro path pre
    rw [pathInScope_iff_below, Below, base]
    by_cases he : endsWithChar (pathOrRoot pre) '/' = true
    · simp only [if_pos he, if_pos (endsWithChar_iff.1 he)]
    · simp only [if_neg he, if_neg fun h => he (endsWithChar_iff.2 h)]
      exact and_iff_left_of_imp fun hp => hp.length_le
  · intro path mid pre h h'
    rw [pathInScope_iff_below] at h h' ⊢
    exact h'.trans h

theorem path_scope_issue : pathInScope "/repos/acme/widgets/issues" "/repos" = true :=
  path_scope.2.2.2 _ "/repos/acme/" _ (by decide) (by decide)

end ExtAuthz
