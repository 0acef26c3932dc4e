/-
  The target that an authority names: a host and a port.

  `normalize_authority` is a test on the text.  On a well-formed authority it
  lowercases the host and leaves out the default port
  (`normalizeAuthority_text`).  A text says which host and port it has
  (`Authority.text_inj`), so that two authorities are normalized alike exactly
  when they name the same target (`authority_target`).

  On any other text the test looks at the last character only, and strips the
  port from half a literal too (`normalizeAuthority_strips_iff`).
-/
import ExtAuthz.Demo.Verifier

namespace ExtAuthz

open Text

/-! ## Authorities as hosts and ports -/

/-- A host: a name or an address without colons and brackets, or a literal in
    brackets. -/
inductive IsHost : List Char → Prop
  | name {l} : l ≠ [] → (∀ c ∈ l, c ≠ ':' ∧ c ≠ '[' ∧ c ≠ ']') → IsHost l
  | literal {l} : (∀ c ∈ l, c ≠ '[' ∧ c ≠ ']') → IsHost ('[' :: (l ++ [']']))

/-- A well-formed authority. -/
structure Authority where
  host : String
  port : Option ℕ
  isHost : IsHost host.toList

/-- A port with its colon, in decimal without leading zeros. -/
def portText : Option ℕ → String
  | none => ""
  | some n => ":" ++ toString n

/-- The text of an authority. -/
def Authority.text (a : Authority) : String := a.host ++ portText a.port

/-- The default port of a lowercase scheme. -/
def defaultPort : String → Option ℕ
  | "https" => some 443
  | "http" => some 80
  | _ => none

/-- The explicit port, or that of the scheme. -/
def Authority.effectivePort (a : Authority) (scheme : String) : Option ℕ :=
  a.port.or (defaultPort scheme)

theorem defaultSuffix_eq (s : String) :
    defaultSuffix s = (defaultPort s).map fun n => ":" ++ toString n := by
  unfold defaultSuffix defaultPort
  split
  · rfl
  · rfl
  · simp_all

theorem isPort_toString (n : ℕ) : IsPort (toString n) := by
  intro c hc
  rw [Nat.toString_eq_ofList_toDigits, String.toList_ofList] at hc
  exact Nat.isDigit_of_mem_toDigits (by decide) (by decide) hc

theorem toString_inj {n m : ℕ} (h : toString n = toString m) : n = m := by
  rw [Nat.toString_eq_ofList_toDigits, Nat.toString_eq_ofList_toDigits, String.ofList_inj] at h
  rw [← @Nat.ofDigitChars_ten_toDigits n, h, Nat.ofDigitChars_ten_toDigits]

theorem IsHost.ne_append_port {l x : List Char} (h : IsHost l) (n : ℕ) :
    l ≠ x ++ ':' :: (toString n).toList := by
  cases h with
  | name _ hc =>
    rintro rfl
    exact (hc ':' (by simp)).1 rfl
  | literal =>
    intro hl
    have hlast := congrArg List.getLast? hl
    rw [← List.cons_append, List.getLast?_concat,
      List.getLast?_append_of_ne_nil _ (List.cons_ne_nil _ _)] at hlast
    rcases List.mem_cons.1 (List.mem_of_getLast? hlast.symm) with hm | hm
    · exact absurd hm (by decide)
    · exact absurd (isPort_toString n _ hm) (by decide)

theorem text_inj {h h' : String} {p p' : Option ℕ} (hh : IsHost h.toList) (hh' : IsHost h'.toList)
    (he : h ++ portText p = h' ++ portText p') : h = h' ∧ p = p' := by
  have hl := congrArg String.toList he
  cases p with
  | none =>
    cases p' with
    | none => exact ⟨by simpa [portText] using he, rfl⟩
    | some n => exact absurd (by simpa [portText] using hl) (hh.ne_append_port n)
  | some m =>
    cases p' with
    | none => exact absurd (by simpa [portText] using hl.symm) (hh'.ne_append_port m)
    | some n =>
      simp only [portText, String.toList_append] at hl
      obtain ⟨h₁, h₂⟩ := split_last_inj (isPort_toString m).colon_notMem
        (isPort_toString n).colon_notMem hl
      exact ⟨String.toList_inj.1 h₁, by rw [toString_inj (String.toList_inj.1 h₂)]⟩

/-! ## Case -/

theorem isHost_map_toLower_iff {l : List Char} : IsHost (l.map Char.toLower) ↔ IsHost l := by
  have hcolon (c : Char) : c.toLower = ':' ↔ c = ':' := toLower_eq_iff (by decide)
  have hopen (c : Char) : c.toLower = '[' ↔ c = '[' := toLower_eq_iff (by decide)
  have hclose (c : Char) : c.toLower = ']' ↔ c = ']' := toLower_eq_iff (by decide)
  constructor
  · intro h
    generalize hm : l.map Char.toLower = m at h
    cases h with
    | name hne hc =>
      refine .name ?_ ?_
      · rintro rfl
        exact hne hm.symm
      · intro c hcl
        have := hc c.toLower (hm ▸ List.mem_map_of_mem hcl)
        rwa [ne_eq, ne_eq, ne_eq, hcolon, hopen, hclose] at this
    | @literal inner hc =>
      obtain ⟨c, r, rfl, h₁, h₂⟩ := List.map_eq_cons_iff.1 hm
      obtain ⟨r', t, rfl, h₃, h₄⟩ := List.map_eq_append_iff.1 h₂
      obtain ⟨d, rfl, h₅⟩ := List.map_eq_singleton_iff.1 h₄
      rw [hopen] at h₁
      rw [hclose] at h₅
      subst h₁ h₅
      refine .literal ?_
      intro c hcl
      have := hc c.toLower (h₃ ▸ List.mem_map_of_mem hcl)
      rwa [ne_eq, ne_eq, hopen, hclose] at this
  · intro h
    cases h with
    | name hne hc =>
      refine .name (by simpa using hne) ?_
      intro d hd
      obtain ⟨c, hcl, rfl⟩ := List.mem_map.1 hd
      rw [ne_eq, ne_eq, ne_eq, hcolon, hopen, hclose]
      exact hc c hcl
    | literal hc =>
      rw [List.map_cons, List.map_append]
      refine .literal ?_
      intro d hd
      obtain ⟨c, hcl, rfl⟩ := List.mem_map.1 hd
      rw [ne_eq, ne_eq, hopen, hclose]
      exact hc c hcl

theorem isHost_lower_iff {h : String} : IsHost (toAsciiLowercase h).toList ↔ IsHost h.toList := by
  rw [toList_toAsciiLowercase, isHost_map_toLower_iff]

@[simp] theorem lower_portText (p : Option ℕ) : toAsciiLowercase (portText p) = portText p := by
  cases p with
  | none => rfl
  | some n =>
    rw [portText, toAsciiLowercase_append, (isPort_toString n).lower]
    rfl

theorem eq_portText_of_lower {x : String} {p : Option ℕ}
    (h : toAsciiLowercase x = portText p) : x = portText p := by
  have hport : ∀ d ∈ (portText p).toList, d.isAlpha = false := by
    intro d hd
    cases p with
    | none => cases hd
    | some n =>
      rw [portText, String.toList_append, List.mem_append] at hd
      rcases hd with hd | hd
      · rw [List.mem_singleton.1 hd]
        decide
      · exact isAlpha_of_isDigit (isPort_toString n d hd)
  rw [← h, toAsciiLowercase_of_not_isUpper]
  intro c hc
  have hl : c.toLower ∈ (portText p).toList := by
    rw [← h, toList_toAsciiLowercase]
    exact List.mem_map_of_mem hc
  have ha := hport _ hl
  rw [Char.isAlpha_toLower_eq_isAlpha] at ha
  simp only [Char.isAlpha, Bool.or_eq_false_iff] at ha
  exact ha.1

/-- What is an authority in lowercase is one. -/
theorem exists_authority_of_lower {t h : String} {p : Option ℕ} (hh : IsHost h.toList)
    (ht : toAsciiLowercase t = h ++ portText p) : ∃ b : Authority, b.text = t := by
  have hl := congrArg String.toList ht
  rw [toList_toAsciiLowercase, String.toList_append] at hl
  obtain ⟨l, r, htl, hlh, hrp⟩ := List.map_eq_append_iff.1 hl
  have hport : String.ofList r = portText p := by
    refine eq_portText_of_lower (String.toList_inj.1 ?_)
    rw [toList_toAsciiLowercase, String.toList_ofList, hrp]
  refine ⟨⟨String.ofList l, p, ?_⟩, ?_⟩
  · rwa [String.toList_ofList, ← isHost_map_toLower_iff, hlh]
  · rw [Authority.text, ← hport, ← String.ofList_append, ← htl, String.ofList_toList]

/-! ## Normalization -/

theorem wellFormedHost_of_isHost {h : String} (hh : IsHost h.toList) : wellFormedHost h = true := by
  rw [wellFormedHost_iff, ne_eq, ← String.toList_eq_nil_iff]
  generalize h.toList = l at hh
  cases hh with
  | name hne hc => exact ⟨hne, .inr fun hm => (hc _ hm).1 rfl⟩
  | literal =>
    refine ⟨List.cons_ne_nil _ _, .inl ?_⟩
    rw [← List.cons_append, List.getLast?_concat]

/-- What a default port can be stripped from does not end with a port. -/
theorem ne_append_port_of_wellFormedHost {h x : String} (hw : wellFormedHost h = true) (n : ℕ) :
    h ≠ x ++ portText (some n) := by
  rintro rfl
  have hcolon : ':' ∈ (x ++ portText (some n)).toList := by simp [portText]
  have hlast := (wellFormedHost_iff.1 hw).2.resolve_right (not_not.2 hcolon)
  have hne : (portText (some n)).toList ≠ [] := by simp [portText]
  rw [String.toList_append, List.getLast?_append_of_ne_nil _ hne, portText,
    String.toList_append] at hlast
  rcases List.mem_append.1 (List.mem_of_getLast? hlast) with hm | hm
  · exact absurd (List.mem_singleton.1 hm) (by decide)
  · exact absurd (isPort_toString n _ hm) (by decide)

/-- On a well-formed authority: the host in lowercase, and a port other than the
    default. -/
theorem normalizeAuthority_text (s : String) (a : Authority) : normalizeAuthority s a.text =
    toAsciiLowercase a.host ++ portText (if a.port = defaultPort s then none else a.port) := by
  have hh := isHost_lower_iff.2 a.isHost
  have hl : toAsciiLowercase a.text = toAsciiLowercase a.host ++ portText a.port := by
    rw [Authority.text, toAsciiLowercase_append, lower_portText]
  cases hp : a.port with
  | none =>
    rw [hp] at hl
    rw [ite_self]
    rcases normalizeAuthority_cases s a.text with ⟨suffix, h, hs, ha, -, -⟩ | ⟨hn, -⟩
    · rw [defaultSuffix_eq] at hs
      obtain ⟨n, -, rfl⟩ := Option.map_eq_some_iff.1 hs
      have he := congrArg String.toList (hl.symm.trans ha)
      exact absurd (by simpa [portText] using he) (hh.ne_append_port n)
    · rw [hn, hl]
  | some n =>
    rw [hp] at hl
    by_cases hd : some n = defaultPort s
    · rw [if_pos hd, portText, String.append_empty]
      have hs : defaultSuffix s = some (portText (some n)) := by
        rw [defaultSuffix_eq, ← hd]
        rfl
      exact normalizeAuthority_of_defaultSuffix hs hl (wellFormedHost_of_isHost hh)
    · rw [if_neg hd, Authority.text, hp]
      have hs : defaultSuffix s ≠ some (":" ++ toString n) := by
        rw [defaultSuffix_eq]
        intro hm
        obtain ⟨m, hm, he⟩ := Option.map_eq_some_iff.1 hm
        rw [hm, toString_inj ((String.append_right_inj ":").1 he)] at hd
        exact hd rfl
      have hk := @normalizeAuthority_keeps_port s a.host _ (isPort_toString n) hs
      rwa [String.append_assoc, String.append_assoc] at hk

/-- Authorities that are normalized alike name one target. -/
theorem normalizeAuthority_text_eq_iff (s : String) (a b : Authority) :
    normalizeAuthority s a.text = normalizeAuthority s b.text ↔
      eqIgnoreAsciiCase a.host b.host = true ∧ a.effectivePort s = b.effectivePort s := by
  have hport (p q d : Option ℕ) : ((if p = d then none else p) = if q = d then none else q) ↔
      p.or d = q.or d := by
    cases p <;> cases q <;> cases d <;> grind
  rw [normalizeAuthority_text, normalizeAuthority_text, eqIgnoreAsciiCase_iff,
    Authority.effectivePort, Authority.effectivePort, ← hport]
  constructor
  · exact text_inj (isHost_lower_iff.2 a.isHost) (isHost_lower_iff.2 b.isHost)
  · rintro ⟨hh, hp⟩
    rw [hh, hp]

theorem normalizeAuthority_idem (s a : String) :
    normalizeAuthority s (normalizeAuthority s a) = normalizeAuthority s a := by
  rcases normalizeAuthority_cases s a with ⟨suffix, h, hs, ha, hw, hn⟩ | ⟨hn, -⟩
  · rw [defaultSuffix_eq] at hs
    obtain ⟨n, hd, rfl⟩ := Option.map_eq_some_iff.1 hs
    have hlower : toAsciiLowercase h = h := by
      have hl := toAsciiLowercase_idem a
      rw [ha, toAsciiLowercase_append] at hl
      have hp : toAsciiLowercase (":" ++ toString n) = ":" ++ toString n := lower_portText (some n)
      rwa [hp, String.append_left_inj] at hl
    rw [hn]
    -- the host has no port left to strip
    rcases normalizeAuthority_cases s h with ⟨suffix', h', hs', ha', -, -⟩ | ⟨hn', -⟩
    · rw [defaultSuffix_eq, hd] at hs'
      cases hs'
      rw [hlower] at ha'
      exact absurd ha' (ne_append_port_of_wellFormedHost hw n)
    · rw [hn', hlower]
  · rw [hn, normalizeAuthority_lower_congr (toAsciiLowercase_idem a), hn]

theorem exists_authority_of_normalize {s t : String} {a : Authority}
    (h : normalizeAuthority s a.text = normalizeAuthority s t) : ∃ b : Authority, b.text = t := by
  have hh := isHost_lower_iff.2 a.isHost
  rw [normalizeAuthority_text] at h
  generalize (if a.port = defaultPort s then none else a.port) = p at h
  rcases normalizeAuthority_cases s t with ⟨suffix, u, hs, ht, hw, hn⟩ | ⟨hn, -⟩
  · rw [hn] at h
    cases p with
    | none =>
      rw [defaultSuffix_eq] at hs
      obtain ⟨n, -, rfl⟩ := Option.map_eq_some_iff.1 hs
      rw [← h, portText, String.append_empty] at ht
      exact exists_authority_of_lower (p := some n) hh ht
    | some m => exact absurd h.symm (ne_append_port_of_wellFormedHost hw m)
  · rw [hn] at h
    exact exists_authority_of_lower hh h.symm

/-- **Authorities name targets**: under `https` and `http`, authorities are
    normalized alike exactly when they have the same host, up to case, and the
    same effective port; under other schemes, when they are equal up to case.
    Normalizing is idempotent, and the scope test accepts a well-formed authority
    only for the host and the effective port of the scope. -/
theorem authority_target :
    (∀ (scheme : String) (a b : Authority), scheme = "https" ∨ scheme = "http" →
      (normalizeAuthority scheme a.text = normalizeAuthority scheme b.text ↔
        eqIgnoreAsciiCase a.host b.host = true ∧
          a.effectivePort scheme = b.effectivePort scheme)) ∧
    (∀ scheme a b : String, scheme ≠ "https" → scheme ≠ "http" →
      (normalizeAuthority scheme a = normalizeAuthority scheme b ↔
        eqIgnoreAsciiCase a b = true)) ∧
    (∀ scheme a : String, normalizeAuthority scheme (normalizeAuthority scheme a) =
      normalizeAuthority scheme a) ∧
    ∀ (scheme scope : String) (a : Authority), authorityInScope scheme a.text scope = true →
      ∃ b : Authority, b.text = scope ∧ eqIgnoreAsciiCase a.host b.host = true ∧
        a.effectivePort (toAsciiLowercase scheme) = b.effectivePort (toAsciiLowercase scheme) := by
  refine ⟨fun scheme a b _ => normalizeAuthority_text_eq_iff scheme a b, ?_,
    normalizeAuthority_idem, ?_⟩
  · intro scheme a b h₁ h₂
    have hs : defaultSuffix scheme = none := by
      unfold defaultSuffix
      split
      · exact absurd rfl h₁
      · exact absurd rfl h₂
      · rfl
    simp [normalizeAuthority, hs]
  · intro scheme scope a h
    rw [authorityInScope, beq_iff_eq] at h
    obtain ⟨b, rfl⟩ := exists_authority_of_normalize h
    exact ⟨b, rfl, (normalizeAuthority_text_eq_iff _ a b).1 h⟩

/-- A literal with `:443` inside, with and without its port. -/
theorem authority_target_literal :
    normalizeAuthority "https" "[2001:DB8::443]:443" =
      normalizeAuthority "https" "[2001:db8::443]" := by
  have hhost (l : List Char) (h : l.all fun c => c ≠ '[' ∧ c ≠ ']') :
      IsHost ('[' :: (l ++ [']'])) :=
    .literal fun c hc => by simpa using List.all_eq_true.1 h c hc
  have hcase : eqIgnoreAsciiCase "[2001:DB8::443]" "[2001:db8::443]" = true := by decide
  exact (authority_target.1 "https"
    ⟨"[2001:DB8::443]", some 443, hhost "2001:DB8::443".toList (by decide)⟩
    ⟨"[2001:db8::443]", none, hhost "2001:db8::443".toList (by decide)⟩ (.inl rfl)).2
    ⟨hcase, rfl⟩

/-! ## What is stripped -/

/-- The authority is `host` with the default port of the scheme. -/
def HasDefaultPort (scheme authority host : String) : Prop :=
  (scheme = "https" ∧ toAsciiLowercase authority = host ++ ":443") ∨
    (scheme = "http" ∧ toAsciiLowercase authority = host ++ ":80")

/-- A host without a colon, or a literal in brackets. -/
inductive Strippable (host : String) : Prop
  | name : host ≠ "" → ':' ∉ host.toList → Strippable host
  | literal : startsWithChar host '[' = true → endsWithChar host ']' = true → Strippable host

/-- A text with a colon that closes a bracket at its end and does not start with
    one. -/
structure HalfBracketed (host : String) : Prop where
  colon : ':' ∈ host.toList
  closed : endsWithChar host ']' = true
  notOpened : startsWithChar host '[' = false

/-- The test on the last character takes half a literal for a host. -/
theorem wellFormedHost_iff_strippable {h : String} :
    wellFormedHost h = true ↔ Strippable h ∨ HalfBracketed h := by
  rw [wellFormedHost_iff, ← endsWithChar_iff]
  constructor
  · rintro ⟨hne, hw⟩
    by_cases hc : ':' ∈ h.toList
    · have he := hw.resolve_right (not_not.2 hc)
      cases ho : startsWithChar h '[' with
      | true => exact .inl (.literal ho he)
      | false => exact .inr ⟨hc, he, ho⟩
    · exact .inl (.name hne hc)
  · have hne (he : endsWithChar h ']' = true) : h ≠ "" := by
      rintro rfl
      cases he
    rintro ((⟨hn, hc⟩ | ⟨-, he⟩) | ⟨-, he, -⟩)
    · exact ⟨hn, .inr hc⟩
    · exact ⟨hne he, .inl he⟩
    · exact ⟨hne he, .inl he⟩

theorem HalfBracketed.not_strippable {h : String} (hh : HalfBracketed h) : ¬ Strippable h := by
  rintro (⟨-, hc⟩ | ⟨ho, -⟩)
  · exact hc hh.colon
  · rw [hh.notOpened] at ho
    cases ho

theorem hasDefaultPort_iff {s a h : String} : HasDefaultPort s a h ↔
    ∃ suffix, defaultSuffix s = some suffix ∧ toAsciiLowercase a = h ++ suffix := by
  simp only [HasDefaultPort, defaultSuffix_eq_some]
  constructor
  · rintro (⟨hs, ha⟩ | ⟨hs, ha⟩)
    · exact ⟨_, .inl ⟨hs, rfl⟩, ha⟩
    · exact ⟨_, .inr ⟨hs, rfl⟩, ha⟩
  · rintro ⟨_, ⟨hs, rfl⟩ | ⟨hs, rfl⟩, ha⟩
    · exact .inl ⟨hs, ha⟩
    · exact .inr ⟨hs, ha⟩

theorem HasDefaultPort.unique {s a h h' : String} (hd : HasDefaultPort s a h)
    (hd' : HasDefaultPort s a h') : h = h' := by
  obtain ⟨suffix, hs, ha⟩ := hasDefaultPort_iff.1 hd
  obtain ⟨suffix', hs', ha'⟩ := hasDefaultPort_iff.1 hd'
  rw [hs] at hs'
  cases hs'
  exact (String.append_left_inj suffix).1 (ha.symm.trans ha')

theorem HasDefaultPort.ne_lower {s a h : String} (hd : HasDefaultPort s a h) :
    h ≠ toAsciiLowercase a := by
  rintro rfl
  rcases hd with ⟨-, ha⟩ | ⟨-, ha⟩
  · have hl := congrArg String.toList ha
    simp at hl
  · have hl := congrArg String.toList ha
    simp at hl

theorem normalizeAuthority_of_hasDefaultPort {s a h : String} (hd : HasDefaultPort s a h)
    (hw : wellFormedHost h = true) : normalizeAuthority s a = h := by
  obtain ⟨suffix, hs, ha⟩ := hasDefaultPort_iff.1 hd
  exact normalizeAuthority_of_defaultSuffix hs ha hw

/-- What the authority loses is the default port of what counts as a host. -/
theorem normalizeAuthority_ne_lower_iff {s a : String} :
    normalizeAuthority s a ≠ toAsciiLowercase a ↔
      ∃ h, HasDefaultPort s a h ∧ wellFormedHost h = true := by
  constructor
  · intro hne
    rcases normalizeAuthority_cases s a with ⟨suffix, h, hs, ha, hw, -⟩ | ⟨hn, -⟩
    · exact ⟨h, hasDefaultPort_iff.2 ⟨suffix, hs, ha⟩, hw⟩
    · exact absurd hn hne
  · rintro ⟨h, hd, hw⟩
    rw [normalizeAuthority_of_hasDefaultPort hd hw]
    exact hd.ne_lower

/-- **What is stripped**: the default port is taken from a host without a colon and
    from a literal in brackets, and everything else is left as it is but for its
    case, unless half a literal has the default port. -/
theorem normalizeAuthority_strips_iff (s a : String) :
    ((normalizeAuthority s a ≠ toAsciiLowercase a ↔
        ∃ h, HasDefaultPort s a h ∧ Strippable h) ∧
      ∀ h, HasDefaultPort s a h → Strippable h → normalizeAuthority s a = h) ↔
    ¬ ∃ h, HasDefaultPort s a h ∧ HalfBracketed h := by
  constructor
  · rintro ⟨hiff, -⟩ ⟨h, hd, hh⟩
    have hne := normalizeAuthority_ne_lower_iff.2 ⟨h, hd, wellFormedHost_iff_strippable.2 (.inr hh)⟩
    obtain ⟨h', hd', hs⟩ := hiff.1 hne
    exact hh.not_strippable (hd.unique hd' ▸ hs)
  · intro hn
    refine ⟨?_, ?_⟩
    · rw [normalizeAuthority_ne_lower_iff]
      refine exists_congr fun h => and_congr_right fun hd => ?_
      rw [wellFormedHost_iff_strippable]
      exact or_iff_left fun hh => hn ⟨h, hd, hh⟩
    · intro h hd hs
      exact normalizeAuthority_of_hasDefaultPort hd (wellFormedHost_iff_strippable.2 (.inl hs))

/-- An address with half its brackets is stripped, and counts as the one without
    the port. -/
theorem not_normalizeAuthority_strips :
    normalizeAuthority "https" "2001:db8::1]:443" ≠ toAsciiLowercase "2001:db8::1]:443" ∧
      (¬ ∃ h, HasDefaultPort "https" "2001:db8::1]:443" h ∧ Strippable h) ∧
      normalizeAuthority "https" "2001:db8::1]:443" = normalizeAuthority "https" "2001:db8::1]" := by
  refine ⟨by decide, ?_, by decide⟩
  rintro ⟨h, hd, hs⟩
  have hh : HasDefaultPort "https" "2001:db8::1]:443" "2001:db8::1]" := .inl ⟨rfl, by decide⟩
  have hb : HalfBracketed "2001:db8::1]" := ⟨by decide, by decide, by decide⟩
  exact hb.not_strippable (hh.unique hd ▸ hs)

end ExtAuthz
