/-
  Text — the operations of Rust's `str` on `String`: the ASCII case maps, the
  tests for an affix, the splits, the replacement and the UTF-8 bytes.

  A `String` is a sequence of Unicode scalar values with its UTF-8 encoding,
  as a Rust `str` is.  The patterns used here are ASCII or whole strings, so
  that a test on the scalar values and the same test on the bytes agree.

  Later modules use only the characterizations: `stripSuffix_eq_some`,
  `startsWith_iff`, `splitOnce_eq_some`, `bytes_inj`, `lower_eq_iff_upper_eq` for
  the two case maps, and for the loop of `replace` what it does with a match
  (`replace_go_match`) and between matches (`replace_go_append`).
-/
import Mathlib

namespace Text

/-! ## Case -/

/-- The string with `A`-`Z` mapped to `a`-`z` (`str::to_ascii_lowercase`). -/
def toAsciiLowercase (s : String) : String := String.ofList (s.toList.map Char.toLower)

/-- The string with `a`-`z` mapped to `A`-`Z` (`str::to_ascii_uppercase`). -/
def toAsciiUppercase (s : String) : String := String.ofList (s.toList.map Char.toUpper)

/-- Equality up to ASCII case (`str::eq_ignore_ascii_case`). -/
def eqIgnoreAsciiCase (s t : String) : Bool := toAsciiLowercase s == toAsciiLowercase t

@[simp] theorem toList_toAsciiLowercase (s : String) :
    (toAsciiLowercase s).toList = s.toList.map Char.toLower := by
  simp [toAsciiLowercase]

@[simp] theorem toList_toAsciiUppercase (s : String) :
    (toAsciiUppercase s).toList = s.toList.map Char.toUpper := by
  simp [toAsciiUppercase]

@[simp] theorem toAsciiLowercase_idem (s : String) :
    toAsciiLowercase (toAsciiLowercase s) = toAsciiLowercase s := by
  apply String.toList_inj.1
  simp [Function.comp_def]

@[simp] theorem toAsciiLowercase_upper (s : String) :
    toAsciiLowercase (toAsciiUppercase s) = toAsciiLowercase s := by
  apply String.toList_inj.1
  simp [Function.comp_def]

@[simp] theorem toAsciiUppercase_lower (s : String) :
    toAsciiUppercase (toAsciiLowercase s) = toAsciiUppercase s := by
  apply String.toList_inj.1
  simp [Function.comp_def]

@[simp] theorem toAsciiUppercase_idem (s : String) :
    toAsciiUppercase (toAsciiUppercase s) = toAsciiUppercase s := by
  rw [← toAsciiUppercase_lower, toAsciiLowercase_upper, toAsciiUppercase_lower]

/-- Lowercasing gives a character that is no letter only for itself. -/
theorem toLower_eq_iff {c d : Char} (hd : d.isAlpha = false) : c.toLower = d ↔ c = d := by
  constructor
  · intro h
    have hc : c.isAlpha = false := by rw [← Char.isAlpha_toLower_eq_isAlpha, h, hd]
    simp only [Char.isAlpha, Bool.or_eq_false_iff] at hc
    rwa [Char.toLower_eq_of_not_isUpper (by simp [hc])] at h
  · rintro rfl
    simp only [Char.isAlpha, Bool.or_eq_false_iff] at hd
    exact Char.toLower_eq_of_not_isUpper (by simp [hd])

theorem isAlpha_of_isDigit {c : Char} (h : c.isDigit = true) : c.isAlpha = false := by
  simp only [Char.isDigit, Char.isAlpha, Char.isUpper, Char.isLower, Bool.and_eq_true,
    Bool.or_eq_false_iff, Bool.and_eq_false_iff, decide_eq_true_eq, decide_eq_false_iff_not,
    UInt32.le_iff_toNat_le] at h ⊢
  have h₀ : '9'.val.toNat < 'A'.val.toNat := by decide
  have h₁ : '9'.val.toNat < 'a'.val.toNat := by decide
  omega

theorem toAsciiLowercase_of_not_isUpper {s : String} (h : ∀ c ∈ s.toList, c.isUpper = false) :
    toAsciiLowercase s = s := by
  apply String.toList_inj.1
  rw [toList_toAsciiLowercase]
  exact List.map_congr_left (fun c hc => Char.toLower_eq_of_not_isUpper (by simp [h c hc]))
    |>.trans (List.map_id _)

theorem toAsciiLowercase_append (s t : String) :
    toAsciiLowercase (s ++ t) = toAsciiLowercase s ++ toAsciiLowercase t := by
  apply String.toList_inj.1
  simp

/-- The two case maps identify the same strings. -/
theorem lower_eq_iff_upper_eq {s t : String} :
    toAsciiLowercase s = toAsciiLowercase t ↔ toAsciiUppercase s = toAsciiUppercase t := by
  constructor
  · intro h
    rw [← toAsciiUppercase_lower s, h, toAsciiUppercase_lower]
  · intro h
    rw [← toAsciiLowercase_upper s, h, toAsciiLowercase_upper]

@[simp] theorem eqIgnoreAsciiCase_iff {s t : String} :
    eqIgnoreAsciiCase s t = true ↔ toAsciiLowercase s = toAsciiLowercase t := by
  simp [eqIgnoreAsciiCase]

/-! ## Affixes -/

/-- What follows the prefix `p`, if `s` has it (`str::strip_prefix`). -/
def stripPrefix (s p : String) : Option String :=
  (s.toList.dropPrefix? p.toList).map String.ofList

/-- What precedes the suffix `p`, if `s` has it (`str::strip_suffix`). -/
def stripSuffix (s p : String) : Option String :=
  (s.toList.dropSuffix? p.toList).map String.ofList

/-- The test for a prefix (`str::starts_with`). -/
def startsWith (s p : String) : Bool := p.toList.isPrefixOf s.toList

/-- The test for a first character (`str::starts_with` on a `char`). -/
def startsWithChar (s : String) (c : Char) : Bool := s.toList.head? == some c

/-- The test for a last character (`str::ends_with` on a `char`). -/
def endsWithChar (s : String) (c : Char) : Bool := s.toList.getLast? == some c

/-- The test for a character (`str::contains` on a `char`). -/
def contains (s : String) (c : Char) : Bool := s.toList.contains c

theorem stripPrefix_eq_some {s p r : String} : stripPrefix s p = some r ↔ s = p ++ r := by
  simp only [stripPrefix, Option.map_eq_some_iff, List.dropPrefix?_eq_some_iff, beq_iff_eq]
  constructor
  · rintro ⟨l, ⟨p', hs, rfl⟩, rfl⟩
    apply String.toList_inj.1
    simp [hs]
  · rintro rfl
    exact ⟨r.toList, ⟨p.toList, by simp, rfl⟩, by simp⟩

theorem stripSuffix_eq_some {s p r : String} : stripSuffix s p = some r ↔ s = r ++ p := by
  simp only [stripSuffix, Option.map_eq_some_iff, List.dropSuffix?_eq_some_iff, beq_iff_eq]
  constructor
  · rintro ⟨l, ⟨p', hs, rfl⟩, rfl⟩
    apply String.toList_inj.1
    simp [hs]
  · rintro rfl
    exact ⟨r.toList, ⟨p.toList, by simp, rfl⟩, by simp⟩

theorem stripSuffix_eq_none {s p : String} : stripSuffix s p = none ↔ ∀ r, s ≠ r ++ p := by
  rw [Option.eq_none_iff_forall_ne_some]
  exact forall_congr' fun r => not_congr stripSuffix_eq_some

@[simp] theorem contains_iff {s : String} {c : Char} : contains s c = true ↔ c ∈ s.toList := by
  simp [contains]

theorem startsWith_iff {s p : String} : startsWith s p = true ↔ p.toList <+: s.toList := by
  simp [startsWith]

theorem startsWithChar_iff {s : String} {c : Char} :
    startsWithChar s c = true ↔ [c] <+: s.toList := by
  rw [startsWithChar, beq_iff_eq, List.head?_eq_some_iff]
  exact exists_congr fun _ => eq_comm

theorem endsWithChar_iff {s : String} {c : Char} :
    endsWithChar s c = true ↔ s.toList.getLast? = some c := by
  rw [endsWithChar, beq_iff_eq]

/-! ## Splits -/

/-- The two sides of the first `c`, if there is one (`str::split_once`). -/
def splitOnce (s : String) (c : Char) : Option (String × String) :=
  match s.toList.dropWhile (· != c) with
  | [] => none
  | _ :: r => some (String.ofList (s.toList.takeWhile (· != c)), String.ofList r)

/-- The first piece between the `c`s (`str::split`, then `next`). -/
def splitNext (s : String) (c : Char) : String := String.ofList (s.toList.takeWhile (· != c))

/-- The last piece between the `c`s (`str::rsplit`, then `next`). -/
def rsplitNext (s : String) (c : Char) : String :=
  String.ofList (s.toList.reverse.takeWhile (· != c)).reverse

private theorem span_append {c : Char} {l r : List Char} (h : c ∉ l) :
    (l ++ c :: r).takeWhile (· != c) = l ∧ (l ++ c :: r).dropWhile (· != c) = c :: r := by
  induction l with
  | nil => simp
  | cons d l ih =>
    simp only [List.mem_cons, not_or] at h
    have hd : (d != c) = true := by simpa using fun e => h.1 e.symm
    simp [hd, ih h.2]

/-- A list is split at its first `c` in one way. -/
theorem split_first_inj {c : Char} {l l' r r' : List Char} (hl : c ∉ l) (hl' : c ∉ l')
    (h : l ++ c :: r = l' ++ c :: r') : l = l' ∧ r = r' := by
  obtain ⟨ht, hd⟩ := span_append (r := r) hl
  obtain ⟨ht', hd'⟩ := span_append (r := r') hl'
  rw [h] at ht hd
  have hr := hd.symm.trans hd'
  exact ⟨ht.symm.trans ht', by simpa using hr⟩

/-- A list is split at its last `c` in one way. -/
theorem split_last_inj {c : Char} {l l' r r' : List Char} (hr : c ∉ r) (hr' : c ∉ r')
    (h : l ++ c :: r = l' ++ c :: r') : l = l' ∧ r = r' := by
  have hrev := congrArg List.reverse h
  simp only [List.reverse_append, List.reverse_cons, List.append_assoc, List.singleton_append]
    at hrev
  obtain ⟨h₁, h₂⟩ := split_first_inj (by simpa using hr) (by simpa using hr') hrev
  exact ⟨List.reverse_inj.1 h₂, List.reverse_inj.1 h₁⟩

theorem splitOnce_eq_some {s a b : String} {c : Char} :
    splitOnce s c = some (a, b) ↔ s = a ++ String.singleton c ++ b ∧ c ∉ a.toList := by
  constructor
  · intro h
    unfold splitOnce at h
    split at h
    · cases h
    · rename_i d r hd
      have hdc : d = c := by
        have := List.head_dropWhile_not (· != c) (l := s.toList) (by simp [hd])
        simpa [hd] using this
      simp only [Option.some.injEq, Prod.mk.injEq] at h
      obtain ⟨rfl, rfl⟩ := h
      subst hdc
      refine ⟨String.toList_inj.1 ?_, ?_⟩
      · have := List.takeWhile_append_dropWhile (p := (· != d)) (l := s.toList)
        rw [hd] at this
        simp [this]
      · intro hm
        rw [String.toList_ofList] at hm
        simpa using List.mem_takeWhile_imp hm
  · rintro ⟨rfl, hc⟩
    have := span_append (r := b.toList) hc
    simp [splitOnce, this]

/-- What has no `c` is in the first piece. -/
private theorem takeWhile_append {c : Char} {l : List Char} (h : c ∉ l) (r : List Char) :
    (l ++ r).takeWhile (· != c) = l ++ r.takeWhile (· != c) := by
  refine List.takeWhile_append_of_pos fun d hd => ?_
  simpa using fun he : d = c => h (he ▸ hd)

private theorem takeWhile_eq_iff {c : Char} {l a : List Char} :
    l.takeWhile (· != c) = a ↔ c ∉ a ∧ (l = a ∨ ∃ r, l = a ++ c :: r) := by
  constructor
  · rintro rfl
    refine ⟨fun hm => by simpa using List.mem_takeWhile_imp hm, ?_⟩
    have hl := List.takeWhile_append_dropWhile (p := (· != c)) (l := l)
    cases hd : l.dropWhile (· != c) with
    | nil =>
      rw [hd, List.append_nil] at hl
      exact .inl hl.symm
    | cons d r =>
      have hdc := List.head_dropWhile_not (· != c) (l := l) (by simp [hd])
      simp only [hd, List.head_cons, bne_eq_false_iff_eq] at hdc
      rw [hd, hdc] at hl
      exact .inr ⟨r, hl.symm⟩
  · rintro ⟨ha, rfl | ⟨r, rfl⟩⟩
    · simpa using takeWhile_append ha []
    · simp [takeWhile_append ha]

theorem splitNext_eq_iff {s a : String} {c : Char} :
    splitNext s c = a ↔ c ∉ a.toList ∧ (s = a ∨ ∃ r, s = a ++ String.singleton c ++ r) := by
  rw [splitNext, ← String.toList_inj, String.toList_ofList, takeWhile_eq_iff]
  refine and_congr_right fun _ => or_congr String.toList_inj ⟨?_, ?_⟩
  · rintro ⟨r, hr⟩
    exact ⟨String.ofList r, String.toList_inj.1 (by simp [hr])⟩
  · rintro ⟨r, rfl⟩
    exact ⟨r.toList, by simp⟩

theorem rsplitNext_eq_iff {s b : String} {c : Char} :
    rsplitNext s c = b ↔ c ∉ b.toList ∧ (s = b ∨ ∃ r, s = r ++ String.singleton c ++ b) := by
  rw [rsplitNext, ← String.toList_inj, String.toList_ofList, List.reverse_eq_iff, takeWhile_eq_iff,
    List.mem_reverse, List.reverse_inj, String.toList_inj]
  refine and_congr_right fun _ => or_congr_right ⟨?_, ?_⟩
  · rintro ⟨r, hr⟩
    refine ⟨String.ofList r.reverse, String.toList_inj.1 ?_⟩
    rw [List.reverse_eq_iff] at hr
    simp [hr]
  · rintro ⟨r, rfl⟩
    exact ⟨r.toList.reverse, by simp⟩

/-- The first piece starts as the string does, or is empty. -/
theorem head?_splitNext {s : String} {c d : Char} :
    (splitNext s c).toList.head? = some d ↔ s.toList.head? = some d ∧ d ≠ c := by
  rw [splitNext, String.toList_ofList, List.head?_takeWhile, Option.filter_eq_some_iff, bne_iff_ne]

theorem splitNext_append {a : String} {c : Char} (h : c ∉ a.toList) (s : String) :
    splitNext (a ++ s) c = a ++ splitNext s c := by
  rw [splitNext, splitNext, String.toList_append, takeWhile_append h, String.ofList_append,
    String.ofList_toList]

/-! ## Replacement -/

/-- The loop of `replace`, where `n` more characters are those of a match. -/
def replace.go (p r : List Char) : ℕ → List Char → List Char
  | _, [] => []
  | n + 1, _ :: l => go p r n l
  | 0, c :: l => if p.isPrefixOf (c :: l) then r ++ go p r (p.length - 1) l else c :: go p r 0 l

/-- Every `p`, which is not empty, becomes `r` (`str::replace`). -/
def replace (s p r : String) : String := String.ofList (replace.go p.toList r.toList 0 s.toList)

theorem replace_go_skip {p r l : List Char} (a : List Char) :
    replace.go p r a.length (a ++ l) = replace.go p r 0 l := by
  induction a with
  | nil => rfl
  | cons c a ih => rw [List.length_cons, List.cons_append, replace.go, ih]

/-- A match becomes the replacement. -/
theorem replace_go_match {c : Char} {p r l : List Char} :
    replace.go (c :: p) r 0 (c :: p ++ l) = r ++ replace.go (c :: p) r 0 l := by
  have hp : (c :: p).isPrefixOf (c :: (p ++ l)) = true := by simp
  rw [List.cons_append, replace.go, if_pos hp, List.length_cons, Nat.add_sub_cancel,
    replace_go_skip]

theorem replace_go_cons {c : Char} {p r l : List Char} (h : p.isPrefixOf (c :: l) = false) :
    replace.go p r 0 (c :: l) = c :: replace.go p r 0 l := by
  rw [replace.go, h, if_neg Bool.false_ne_true]

/-- A text without the first character of the pattern stays. -/
theorem replace_go_append {c : Char} {p r l a : List Char} (h : c ∉ a) :
    replace.go (c :: p) r 0 (a ++ l) = a ++ replace.go (c :: p) r 0 l := by
  induction a with
  | nil => rfl
  | cons d a ih =>
    rw [List.mem_cons, not_or] at h
    have hp : ¬ (c :: p).isPrefixOf (d :: (a ++ l)) = true := by simp [h.1]
    rw [List.cons_append, replace.go, if_neg hp, ih h.2, List.cons_append]

/-! ## Bytes -/

/-- The UTF-8 encoding (`str::as_bytes`). -/
def bytes (s : String) : List UInt8 := s.toByteArray.data.toList

@[simp] theorem bytes_inj {s t : String} : bytes s = bytes t ↔ s = t := by
  constructor
  · intro h
    apply String.toByteArray_inj.1
    exact ByteArray.ext (Array.toList_inj.1 h)
  · rintro rfl
    rfl

theorem size_ofList (l : List Char) :
    (String.ofList l).utf8ByteSize = (l.map Char.utf8Size).sum := by
  induction l with
  | nil => rfl
  | cons c l ih =>
    rw [← List.singleton_append, String.ofList_append, String.utf8ByteSize_append, ih,
      ← String.singleton_eq_ofList, String.utf8ByteSize_singleton, List.singleton_append,
      List.map_cons, List.sum_cons]

@[simp] theorem length_bytes (s : String) : (bytes s).length = s.utf8ByteSize := rfl

/-! ## Sizes -/

theorem utf8Size_toUpper (c : Char) : c.toUpper.utf8Size = c.utf8Size := by
  unfold Char.toUpper
  split
  · rename_i h
    have hc : c.utf8Size = 1 := Char.utf8Size_eq_one_iff.2 (UInt32.le_trans h.2 (by decide))
    rw [hc, Char.utf8Size_eq_one_iff]
    show c.val + ('A'.val - 'a'.val) ≤ 127
    have h₁ := UInt32.le_iff_toNat_le.1 h.1
    have h₂ := UInt32.le_iff_toNat_le.1 h.2
    have ha : ('a'.val).toNat = 97 := rfl
    have hz : ('z'.val).toNat = 122 := rfl
    have hd : ('A'.val - 'a'.val).toNat = 4294967264 := by decide
    have hm : (127 : UInt32).toNat = 127 := rfl
    rw [UInt32.le_iff_toNat_le, UInt32.toNat_add]
    omega
  · rfl

theorem utf8Size_toLower (c : Char) : c.toLower.utf8Size = c.utf8Size := by
  unfold Char.toLower
  split
  · rename_i h
    have hc : c.utf8Size = 1 := Char.utf8Size_eq_one_iff.2 (UInt32.le_trans h.2 (by decide))
    rw [hc, Char.utf8Size_eq_one_iff]
    show c.val + ('a'.val - 'A'.val) ≤ 127
    have h₁ := UInt32.le_iff_toNat_le.1 h.1
    have h₂ := UInt32.le_iff_toNat_le.1 h.2
    have ha : ('A'.val).toNat = 65 := rfl
    have hz : ('Z'.val).toNat = 90 := rfl
    have hd : ('a'.val - 'A'.val).toNat = 32 := by decide
    have hm : (127 : UInt32).toNat = 127 := rfl
    rw [UInt32.le_iff_toNat_le, UInt32.toNat_add]
    omega
  · rfl

theorem size_eq_sum (s : String) : s.utf8ByteSize = (s.toList.map Char.utf8Size).sum := by
  rw [← size_ofList, String.ofList_toList]

/-- The case of a text does not change its size. -/
theorem size_toAsciiUppercase (s : String) : (toAsciiUppercase s).utf8ByteSize = s.utf8ByteSize := by
  rw [size_eq_sum, size_eq_sum s, toList_toAsciiUppercase, List.map_map]
  simp only [Function.comp_def, utf8Size_toUpper]

theorem size_toAsciiLowercase (s : String) : (toAsciiLowercase s).utf8ByteSize = s.utf8ByteSize := by
  rw [size_eq_sum, size_eq_sum s, toList_toAsciiLowercase, List.map_map]
  simp only [Function.comp_def, utf8Size_toLower]

end Text
