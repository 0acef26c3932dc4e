/-
  DotSegments — `remove_dot_segments` of RFC 3986, section 5.2.4.

  `removeDotSegments` is the loop of the RFC on an input and an output buffer.
  On an absolute path it is a function on the list of segments
  (`segments_removeDotSegments`): `.` is dropped, `..` takes the last segment
  back, and either of them at the end leaves an empty segment.

  `climbs` says that the segments leave the place where they started; segments
  that do not are resolved below it (`resolve_of_not_climbs`).
-/
import Mathlib

namespace DotSegments

/-! ## The loop -/

/-- Remove the last segment and its preceding `/`, if any, from the output. -/
def removeLast (out : List Char) : List Char :=
  ((out.reverse.dropWhile (· ≠ '/')).drop 1).reverse

/-- One pass of the loop, with its cases in the order of the RFC. -/
def step (input out : List Char) : List Char × List Char :=
  match input with
  | '.' :: '.' :: '/' :: rest => (rest, out)
  | '.' :: '/' :: rest => (rest, out)
  | '/' :: '.' :: '/' :: rest => ('/' :: rest, out)
  | ['/', '.'] => (['/'], out)
  | '/' :: '.' :: '.' :: '/' :: rest => ('/' :: rest, removeLast out)
  | ['/', '.', '.'] => (['/'], removeLast out)
  | ['.'] => ([], out)
  | ['.', '.'] => ([], out)
  | c :: rest => (rest.dropWhile (· ≠ '/'), out ++ c :: rest.takeWhile (· ≠ '/'))
  | [] => ([], out)

theorem length_step_lt {input : List Char} (h : input ≠ []) (out : List Char) :
    (step input out).1.length < input.length := by
  have hd (l : List Char) : (l.dropWhile (· ≠ '/')).length ≤ l.length :=
    (List.dropWhile_sublist _).length_le
  unfold step
  split
  case h_9 c rest _ _ _ _ _ _ _ _ => exact Nat.lt_succ_of_le (hd rest)
  case h_10 => exact absurd rfl h
  all_goals
    simp only [List.length_cons, List.length_nil]
    omega

/-- While the input is not empty. -/
def loop (input out : List Char) : List Char :=
  if input = [] then out else loop (step input out).1 (step input out).2
termination_by input.length
decreasing_by exact length_step_lt ‹_› out

/-- The path without its dot segments. -/
def removeDotSegments (path : String) : String := String.ofList (loop path.toList [])

/-! ## Segments -/

/-- The segments of an absolute path. -/
def segments (path : List Char) : List (List Char) := path.tail.splitOn '/'

/-- The path with given segments. -/
def spell (segs : List (List Char)) : List Char := segs.flatMap ('/' :: ·)

@[simp] theorem spell_nil : spell [] = [] := rfl

@[simp] theorem spell_cons (s : List Char) (segs : List (List Char)) :
    spell (s :: segs) = '/' :: s ++ spell segs := rfl

@[simp] theorem spell_append (l r : List (List Char)) : spell (l ++ r) = spell l ++ spell r :=
  List.flatMap_append

theorem segments_ne_nil (path : List Char) : segments path ≠ [] :=
  List.splitOn_ne_nil _ _

theorem spell_eq : ∀ {segs : List (List Char)}, segs ≠ [] →
    spell segs = '/' :: ['/'].intercalate segs
  | [s], _ => by simp [List.intercalate]
  | s :: t :: segs, _ => by
    rw [spell_cons, spell_eq (List.cons_ne_nil t segs)]
    simp [List.intercalate]

theorem spell_segments (l : List Char) : spell (segments ('/' :: l)) = '/' :: l := by
  rw [spell_eq (segments_ne_nil _), segments, List.tail_cons, List.intercalate_splitOn]

/-- No segment contains a `/`. -/
def Clean (segs : List (List Char)) : Prop := ∀ s ∈ segs, '/' ∉ s

theorem clean_nil : Clean [] := by simp [Clean]

theorem clean_cons {s : List Char} {segs : List (List Char)} :
    Clean (s :: segs) ↔ '/' ∉ s ∧ Clean segs := by
  simp [Clean]

theorem Clean.append {l r : List (List Char)} (hl : Clean l) (hr : Clean r) : Clean (l ++ r) := by
  intro s hs
  rcases List.mem_append.1 hs with hs | hs
  · exact hl s hs
  · exact hr s hs

theorem Clean.concat {l : List (List Char)} {s : List Char} (hl : Clean l) (hs : '/' ∉ s) :
    Clean (l ++ [s]) :=
  hl.append (clean_cons.2 ⟨hs, clean_nil⟩)

theorem Clean.dropLast {l : List (List Char)} (h : Clean l) : Clean l.dropLast :=
  fun s hs => h s (List.mem_of_mem_dropLast hs)

theorem clean_segments (path : List Char) : Clean (segments path) := by
  unfold segments
  induction path.tail with
  | nil => simp [Clean]
  | cons c l ih =>
    intro s hs
    rw [List.splitOn_cons_eq_if_modifyHead] at hs
    by_cases hc : c = '/'
    · simp only [hc, beq_self_eq_true, if_true, List.mem_cons] at hs
      rcases hs with rfl | hs
      · simp
      · exact ih s hs
    · obtain ⟨t, segs, he⟩ := List.exists_cons_of_ne_nil (List.splitOn_ne_nil '/' l)
      simp only [beq_iff_eq, hc, if_false, he, List.modifyHead_cons, List.mem_cons] at hs
      rcases hs with rfl | hs
      · have := ih t (he ▸ List.mem_cons_self)
        simp [this, Ne.symm hc]
      · exact ih s (he ▸ List.mem_cons_of_mem t hs)

theorem segments_spell {segs : List (List Char)} (hne : segs ≠ []) (hc : Clean segs) :
    segments (spell segs) = segs := by
  rw [spell_eq hne, segments, List.tail_cons, List.splitOn_intercalate '/' hc hne]

/-! ## The loop on segments -/

/-- The dot segments, `.` and `..`. -/
def Dot (s : List Char) : Prop := s = ['.'] ∨ s = ['.', '.']

instance : DecidablePred Dot := fun _ => inferInstanceAs (Decidable (_ ∨ _))

/-- The segments that `rest` leaves on top of `stack`. -/
def resolve (stack : List (List Char)) : List (List Char) → List (List Char)
  | [] => stack
  | s :: rest =>
    if s = ['.'] then if rest = [] then stack ++ [[]] else resolve stack rest
    else if s = ['.', '.'] then
      if rest = [] then stack.dropLast ++ [[]] else resolve stack.dropLast rest
    else resolve (stack ++ [s]) rest

theorem removeLast_spell {stack : List (List Char)} (hc : Clean stack) :
    removeLast (spell stack) = spell stack.dropLast := by
  rcases List.eq_nil_or_concat stack with rfl | ⟨init, s, rfl⟩
  · rfl
  · have hs : ∀ c ∈ s.reverse, decide (c ≠ '/') = true := by
      intro c h
      rw [decide_eq_true_iff]
      rintro rfl
      exact hc s (by simp) (List.mem_reverse.1 h)
    rw [List.concat_eq_append, List.dropLast_concat, removeLast, spell_append]
    simp only [spell_cons, spell_nil, List.append_nil, List.reverse_append, List.reverse_cons,
      List.append_assoc]
    rw [List.dropWhile_append_of_pos hs]
    simp

theorem loop_cons (c : Char) (l out : List Char) :
    loop (c :: l) out = loop (step (c :: l) out).1 (step (c :: l) out).2 := by
  rw [loop, if_neg (List.cons_ne_nil c l)]

@[simp] theorem loop_nil (out : List Char) : loop [] out = out := by
  rw [loop, if_pos rfl]

theorem step_slash {l : List Char} (h : ¬ Dot (l.takeWhile (· ≠ '/'))) (out : List Char) :
    step ('/' :: l) out = (l.dropWhile (· ≠ '/'), out ++ '/' :: l.takeWhile (· ≠ '/')) := by
  unfold step
  split
  case h_9 heq => cases heq; rfl
  all_goals simp_all [Dot]

/-- A path of segments starts with a `/`, or it is empty. -/
theorem spell_cases (segs : List (List Char)) :
    segs = [] ∧ spell segs = [] ∨ segs ≠ [] ∧ ∃ l, spell segs = '/' :: l := by
  cases segs with
  | nil => exact .inl ⟨rfl, rfl⟩
  | cons s segs => exact .inr ⟨List.cons_ne_nil _ _, _, rfl⟩

/-- An ordinary segment is moved to the output. -/
theorem step_segment {s : List Char} (hs : '/' ∉ s) (hd : ¬ Dot s) (rest : List (List Char))
    (out : List Char) : step ('/' :: s ++ spell rest) out = (spell rest, out ++ '/' :: s) := by
  have hp : ∀ c ∈ s, decide (c ≠ '/') = true := by
    intro c h
    rw [decide_eq_true_iff]
    rintro rfl
    exact hs h
  have ht : (s ++ spell rest).takeWhile (· ≠ '/') = s := by
    rw [List.takeWhile_append_of_pos hp]
    rcases spell_cases rest with ⟨-, h⟩ | ⟨-, l, h⟩ <;> simp [h]
  have hw : (s ++ spell rest).dropWhile (· ≠ '/') = spell rest := by
    rw [List.dropWhile_append_of_pos hp]
    rcases spell_cases rest with ⟨-, h⟩ | ⟨-, l, h⟩ <;> simp [h]
  rw [List.cons_append, step_slash (ht.symm ▸ hd), ht, hw]

/-- A last dot segment leaves the directory where it leads. -/
theorem loop_last {s : List Char} (hd : Dot s) (stack : List (List Char)) (hc : Clean stack) :
    loop ('/' :: s) (spell stack) =
      spell ((if s = ['.'] then stack else stack.dropLast) ++ [[]]) := by
  have hslash (out : List Char) : loop ['/'] out = out ++ ['/'] := by
    rw [loop_cons, step_slash (by simp [Dot])]
    simp
  rcases hd with rfl | rfl
  · rw [loop_cons]
    simp only [step, hslash]
    simp
  · rw [loop_cons]
    simp only [step, hslash, removeLast_spell hc]
    simp

/-- Any other dot segment is dropped, with the segment that it takes back. -/
theorem loop_dot {s : List Char} (hd : Dot s) {rest : List (List Char)} (hr : rest ≠ [])
    (stack : List (List Char)) (hc : Clean stack) :
    loop ('/' :: s ++ spell rest) (spell stack) =
      loop (spell rest) (spell (if s = ['.'] then stack else stack.dropLast)) := by
  obtain ⟨l, hl⟩ : ∃ l, spell rest = '/' :: l := by
    rcases spell_cases rest with ⟨h, -⟩ | ⟨-, h⟩
    · exact absurd h hr
    · exact h
  rw [hl]
  rcases hd with rfl | rfl
  · rw [List.cons_append, loop_cons]
    rfl
  · rw [List.cons_append, loop_cons]
    simp [step, removeLast_spell hc]

/-- The loop of the RFC, on segments. -/
theorem loop_spell (segs : List (List Char)) : ∀ stack, Clean segs → Clean stack →
    loop (spell segs) (spell stack) = spell (resolve stack segs) := by
  induction segs with
  | nil => intro stack _ _; simp [resolve]
  | cons s rest ih =>
    intro stack hc hst
    obtain ⟨hs, hrest⟩ := clean_cons.1 hc
    by_cases hd : Dot s
    · have hst' : Clean (if s = ['.'] then stack else stack.dropLast) := by
        split
        · exact hst
        · exact hst.dropLast
      by_cases hr : rest = []
      · subst hr
        rw [spell_cons, spell_nil, List.append_nil, loop_last hd stack hst]
        rcases hd with rfl | rfl <;> rfl
      · rw [spell_cons, loop_dot hd hr stack hst, ih _ hrest hst']
        rcases hd with rfl | rfl <;> simp [resolve, hr]
    · have hstack : spell stack ++ '/' :: s = spell (stack ++ [s]) := by simp
      rw [spell_cons, List.cons_append, loop_cons, ← List.cons_append, step_segment hs hd, hstack,
        ih _ hrest (hst.concat hs), resolve]
      simp only [Dot, not_or] at hd
      rw [if_neg hd.1, if_neg hd.2]

theorem Clean.resolve {segs : List (List Char)} (hc : Clean segs) :
    ∀ {stack}, Clean stack → Clean (resolve stack segs) := by
  induction segs with
  | nil => exact fun {_} h => h
  | cons s rest ih =>
    intro stack hst
    obtain ⟨hs, hrest⟩ := clean_cons.1 hc
    unfold DotSegments.resolve
    split_ifs
    · exact hst.concat (by simp)
    · exact ih hrest hst
    · exact hst.dropLast.concat (by simp)
    · exact ih hrest hst.dropLast
    · exact ih hrest (hst.concat hs)

/-- A path does not resolve to nothing. -/
theorem resolve_ne_nil {segs : List (List Char)} (h : segs ≠ []) :
    ∀ stack, resolve stack segs ≠ [] := by
  induction segs with
  | nil => exact absurd rfl h
  | cons s rest ih =>
    intro stack
    unfold resolve
    split_ifs with h₁ h₂ h₃ h₄
    · simp
    · exact ih h₂ stack
    · simp
    · exact ih h₄ stack.dropLast
    · by_cases hr : rest = []
      · simp [hr, resolve]
      · exact ih hr (stack ++ [s])

/-- The result is the path of the resolved segments. -/
theorem toList_removeDotSegments {path : String} {l : List Char} (h : path.toList = '/' :: l) :
    (removeDotSegments path).toList = spell (resolve [] (segments path.toList)) := by
  have hl := loop_spell (segments path.toList) [] (clean_segments _) clean_nil
  rw [h, spell_segments, spell_nil] at hl
  rw [removeDotSegments, String.toList_ofList, h, hl]

theorem segments_removeDotSegments {path : String} {l : List Char} (h : path.toList = '/' :: l) :
    segments (removeDotSegments path).toList = resolve [] (segments path.toList) := by
  rw [toList_removeDotSegments h]
  exact segments_spell (resolve_ne_nil (segments_ne_nil _) _)
    ((clean_segments _).resolve clean_nil)

example : resolve [] (segments "/a/b/c/./../../g".toList) = segments "/a/g".toList := by decide

/-! ## Staying inside -/

/-- The segments climb above their start, from `depth` segments below it. -/
def climbs : ℕ → List (List Char) → Bool
  | _, [] => false
  | depth, s :: rest =>
    if s = ['.'] then climbs depth rest
    else if s = ['.', '.'] then
      match depth with
      | 0 => true
      | depth + 1 => climbs depth rest
    else climbs (depth + 1) rest

/-- Ordinary segments are resolved one by one. -/
theorem resolve_append {base : List (List Char)} (hb : ∀ s ∈ base, ¬ Dot s)
    (rest : List (List Char)) :
    ∀ stack, resolve stack (base ++ rest) = resolve (stack ++ base) rest := by
  induction base with
  | nil => simp
  | cons s base ih =>
    intro stack
    have hs := hb s List.mem_cons_self
    simp only [Dot, not_or] at hs
    rw [List.cons_append, resolve, if_neg hs.1, if_neg hs.2,
      ih (fun t ht => hb t (List.mem_cons_of_mem s ht)), List.append_assoc, List.singleton_append]

/-- Segments that do not climb above their start are resolved below it. -/
theorem resolve_of_not_climbs (base : List (List Char)) {rest : List (List Char)} :
    ∀ stack : List (List Char), climbs stack.length rest = false →
      ∃ r, resolve (base ++ stack) rest = base ++ r ∧ (rest ≠ [] ∨ stack ≠ [] → r ≠ []) := by
  induction rest with
  | nil => exact fun stack _ => ⟨stack, rfl, by simp⟩
  | cons s rest ih =>
    intro stack h
    unfold resolve
    unfold climbs at h
    split_ifs at h ⊢ with h₁ h₂ h₃ h₄
    · exact ⟨stack ++ [[]], by simp, by simp⟩
    · obtain ⟨r, hr, hne⟩ := ih stack h
      exact ⟨r, hr, fun _ => hne (.inl h₂)⟩
    · -- the segment that `..` takes back is one of `stack`
      have hst : stack ≠ [] := by
        rintro rfl
        simp at h
      exact ⟨stack.dropLast ++ [[]], by rw [List.dropLast_append_of_ne_nil hst]; simp, by simp⟩
    · have hst : stack ≠ [] := by
        rintro rfl
        simp at h
      obtain ⟨n, hn⟩ := Nat.exists_eq_succ_of_ne_zero (List.length_pos_iff.2 hst).ne'
      have hd : stack.dropLast.length = n := by simp [hn]
      simp only [hn, Nat.succ_eq_add_one] at h
      obtain ⟨r, hr, hne⟩ := ih stack.dropLast (hd ▸ h)
      rw [List.dropLast_append_of_ne_nil hst]
      exact ⟨r, hr, fun _ => hne (.inl h₄)⟩
    · obtain ⟨r, hr, hne⟩ := ih (stack ++ [s]) (by simpa using h)
      rw [List.append_assoc]
      exact ⟨r, hr, fun _ => hne (.inr (by simp))⟩

end DotSegments
