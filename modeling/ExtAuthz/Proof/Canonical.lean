/-
  Canonical requests: what `crh_v1` binds, and that it binds it without
  ambiguity.

  `CanonicalRequestParts.canonical` is the meaning of the parts, the request
  with the spellings of one target identified.  The byte string that is hashed
  is the domain separator followed by the length-prefixed fields of the
  canonical request (`crhPreimage_eq`), so that it determines the canonical
  request, and nothing else (`crhPreimage_eq_iff`).
-/
import ExtAuthz.Core.Hash

namespace ExtAuthz

open Text LengthPrefix

namespace CanonicalRequestParts

/-- The canonical request: method in uppercase, scheme and authority in
    lowercase, without the default port, and the empty path read as `/`. -/
def canonical (p : CanonicalRequestParts) : CanonicalRequestParts where
  method := toAsciiUppercase p.method
  scheme := toAsciiLowercase p.scheme
  authority := normalizeAuthority (toAsciiLowercase p.scheme) p.authority
  path := pathOrRoot p.path
  query := p.query
  bodySha256 := p.bodySha256

/-- The fields in the order of the layout, as bytes. -/
def fields (p : CanonicalRequestParts) : List (List UInt8) :=
  [bytes p.method, bytes p.scheme, bytes p.authority, bytes p.path, bytes p.query,
    p.bodySha256.toList]

/-- The precondition of `put`: every normalized field fits a `u32` length. -/
def Fits (p : CanonicalRequestParts) : Prop :=
  ∀ f ∈ p.canonical.fields, f.length ≤ 2 ^ 32 - 1

instance (p : CanonicalRequestParts) : Decidable p.Fits :=
  inferInstanceAs (Decidable (∀ f ∈ p.canonical.fields, f.length ≤ 2 ^ 32 - 1))

theorem fields_inj {p q : CanonicalRequestParts} : p.fields = q.fields ↔ p = q := by
  constructor
  · intro h
    obtain ⟨m, s, a, pa, qu, b⟩ := p
    obtain ⟨m', s', a', pa', qu', b'⟩ := q
    simp only [fields, List.cons.injEq, bytes_inj, and_true, Vector.toList_inj] at h
    obtain ⟨rfl, rfl, rfl, rfl, rfl, rfl⟩ := h
    rfl
  · rintro rfl
    rfl

theorem Fits.lt {p : CanonicalRequestParts} (h : p.Fits) :
    ∀ f ∈ p.canonical.fields, f.length < 2 ^ 32 := by
  intro f hf
  have := h f hf
  omega

end CanonicalRequestParts

open CanonicalRequestParts

theorem crhPreimage_eq (p : CanonicalRequestParts) :
    crhPreimage p = crhDomain ++ encode p.canonical.fields := by
  simp [crhPreimage, put_eq, fields, canonical]

theorem crhPreimage_congr {p q : CanonicalRequestParts} (h : p.canonical = q.canonical) :
    crhPreimage p = crhPreimage q := by
  rw [crhPreimage_eq, crhPreimage_eq, h]

theorem canonical_of_isPrefix {p q : CanonicalRequestParts} (hp : p.Fits) (hq : q.Fits)
    (h : crhPreimage p <+: crhPreimage q) : p.canonical = q.canonical := by
  rw [crhPreimage_eq, crhPreimage_eq, List.prefix_append_right_inj] at h
  exact fields_inj.1 (encode_of_isPrefix (by simp [fields]) hp.lt hq.lt h)

/-- The hashed bytes determine the canonical request. -/
theorem crhPreimage_eq_iff {p q : CanonicalRequestParts} (hp : p.Fits) (hq : q.Fits) :
    crhPreimage p = crhPreimage q ↔ p.canonical = q.canonical := by
  refine ⟨fun h => canonical_of_isPrefix hp hq ?_, crhPreimage_congr⟩
  rw [h]

/-! ## What the hash separates -/

/-- Some bytes `w` moved across the boundary of two neighbouring fields. -/
inductive Shifted : CanonicalRequestParts → CanonicalRequestParts → Prop
  | methodScheme (p : CanonicalRequestParts) (m w s : String) : w ≠ "" →
      Shifted { p with method := m ++ w, scheme := s } { p with method := m, scheme := w ++ s }
  | schemeAuthority (p : CanonicalRequestParts) (s w a : String) : w ≠ "" →
      Shifted { p with scheme := s ++ w, authority := a } { p with scheme := s, authority := w ++ a }
  | authorityPath (p : CanonicalRequestParts) (a w b : String) : w ≠ "" →
      Shifted { p with authority := a ++ w, path := b } { p with authority := a, path := w ++ b }
  | pathQuery (p : CanonicalRequestParts) (b w q : String) : w ≠ "" →
      Shifted { p with path := b ++ w, query := q } { p with path := b, query := w ++ q }

theorem pathOrRoot_of_ne {path : String} (h : path ≠ "") : pathOrRoot path = path := by
  simp [pathOrRoot, h]

/-- The one path that `pathOrRoot` identifies with another is `/`, with the
    empty one. -/
theorem pathOrRoot_append_eq {w b : String} (hw : w ≠ "") (h : pathOrRoot b = pathOrRoot (w ++ b)) :
    b = "" ∧ w = "/" := by
  have hwb : w ++ b ≠ "" := by simp [String.append_eq_empty_iff, hw]
  rw [pathOrRoot_of_ne hwb] at h
  by_cases hb : b = ""
  · subst hb
    simpa [pathOrRoot, eq_comm] using h
  · rw [pathOrRoot_of_ne hb] at h
    have := congrArg (fun s => s.toList.length) h
    simp [hw] at this

theorem normalizeAuthority_slash (s a : String) :
    normalizeAuthority s (a ++ "/") = toAsciiLowercase a ++ "/" := by
  have hl : toAsciiLowercase (a ++ "/") = toAsciiLowercase a ++ "/" := by
    rw [toAsciiLowercase_append]
    rfl
  rcases normalizeAuthority_cases s (a ++ "/") with ⟨suffix, host, hs, ha, -, -⟩ | h
  · have he := congrArg (List.getLast? ∘ String.toList) (hl.symm.trans ha)
    rcases defaultSuffix_eq_some.1 hs with ⟨-, rfl⟩ | ⟨-, rfl⟩ <;> simp at he
  · rw [h.1, hl]

/-- Moving bytes across a boundary changes the canonical request. -/
theorem Shifted.canonical_ne {p q : CanonicalRequestParts} (h : Shifted p q) :
    p.canonical ≠ q.canonical := by
  intro he
  cases h with
  | methodScheme p m w s hw =>
    have hm := congrArg (fun c => c.method.toList.length) he
    simp [canonical, hw] at hm
  | schemeAuthority p s w a hw =>
    have hs := congrArg (fun c => c.scheme.toList.length) he
    simp [canonical, hw] at hs
  | authorityPath p a w b hw =>
    have hb := congrArg path he
    simp only [canonical] at hb
    obtain ⟨-, rfl⟩ := pathOrRoot_append_eq hw hb
    have ha := congrArg authority he
    simp only [canonical] at ha
    obtain ⟨r, hr⟩ := normalizeAuthority_isPrefix (toAsciiLowercase p.scheme) a
    rw [normalizeAuthority_slash, hr] at ha
    have := congrArg (fun s => s.toList.length) ha
    simp at this
  | pathQuery p b w q hw =>
    have hq := congrArg (fun c => c.query.toList.length) he
    simp [canonical, hw] at hq

/-- The authority `host`, or `host` with a port other than `port`. -/
def OtherPort (host port authority : String) : Prop :=
  authority = host ∨ ∃ port', IsPort port' ∧ port' ≠ port ∧ authority = host ++ ":" ++ port'

/-- Changing or dropping a port that is not the default one changes the
    canonical request. -/
theorem canonical_ne_of_otherPort {p q : CanonicalRequestParts} {host port : String}
    (hport : IsPort port) (hp : p.authority = host ++ ":" ++ port)
    (hd : defaultSuffix (toAsciiLowercase p.scheme) ≠ some (":" ++ port))
    (hq : OtherPort host port q.authority) : p.canonical ≠ q.canonical := by
  intro he
  have hs := congrArg scheme he
  have ha := congrArg authority he
  simp only [canonical] at hs ha
  rw [hp, normalizeAuthority_keeps_port hport hd, ← hs] at ha
  rcases hq with hq | ⟨port', hport', hne, hq⟩
  · obtain ⟨r, hr⟩ := normalizeAuthority_isPrefix (toAsciiLowercase p.scheme) q.authority
    have := congrArg (fun s => s.toList.length) hr
    rw [← ha] at this
    simp [hq] at this
  · have hl : toAsciiLowercase q.authority = toAsciiLowercase host ++ ":" ++ port' := by
      rw [hq, toAsciiLowercase_append, toAsciiLowercase_append, hport'.lower]
      rfl
    rcases normalizeAuthority_cases (toAsciiLowercase p.scheme) q.authority with
      ⟨suffix, host', hs', hq', -, hn⟩ | ⟨hn, -⟩
    · -- a stripped port would be a second one behind `port`
      obtain ⟨dport, rfl, -⟩ := defaultSuffix_port hs'
      rw [hl, ← hn, ← ha] at hq'
      have hc := congrArg String.toList hq'
      simp only [String.toList_append, List.append_assoc, List.append_cancel_left_eq] at hc
      exact hport'.colon_notMem (by rw [hc]; simp)
    · rw [hn, hl] at ha
      exact hne (by simpa using ha.symm)

/-- **Unambiguity of `crh_v1`**: the hashed bytes are equal exactly for equal
    canonical requests, none is a proper prefix of another, and they change
    with every change of the fields that is not a respelling. -/
theorem crhPreimage_unambiguous {p q : CanonicalRequestParts} (hp : p.Fits) (hq : q.Fits) :
    (crhPreimage p = crhPreimage q ↔ p.canonical = q.canonical) ∧
    ¬ (crhPreimage p <+: crhPreimage q ∧ crhPreimage p ≠ crhPreimage q) ∧
    (Shifted p q → crhPreimage p ≠ crhPreimage q) ∧
    (q.query ≠ p.query → crhPreimage p ≠ crhPreimage q) ∧
    (p.path ≠ "" → q.path ≠ "" → q.path ≠ p.path → crhPreimage p ≠ crhPreimage q) ∧
    ∀ host port, IsPort port → p.authority = host ++ ":" ++ port →
      defaultSuffix (toAsciiLowercase p.scheme) ≠ some (":" ++ port) →
      OtherPort host port q.authority → crhPreimage p ≠ crhPreimage q := by
  have hiff := crhPreimage_eq_iff hp hq
  refine ⟨hiff, ?_, ?_, ?_, ?_, ?_⟩
  · rintro ⟨hpre, hne⟩
    exact hne (hiff.2 (canonical_of_isPrefix hp hq hpre))
  · intro hs
    rw [ne_eq, hiff]
    exact hs.canonical_ne
  · intro hne he
    exact hne (congrArg query (hiff.1 he)).symm
  · intro hpe hqe hne he
    have := congrArg path (hiff.1 he)
    simp only [canonical, pathOrRoot_of_ne hpe, pathOrRoot_of_ne hqe] at this
    exact hne this.symm
  · intro host port hport ha hd ho
    rw [ne_eq, hiff]
    exact canonical_ne_of_otherPort hport ha hd ho

/-- SHA-256 of the empty body. -/
def emptyBodySha256 : Digest :=
  #v[0xe3, 0xb0, 0xc4, 0x42, 0x98, 0xfc, 0x1c, 0x14, 0x9a, 0xfb, 0xf4, 0xc8, 0x99, 0x6f, 0xb9, 0x24,
    0x27, 0xae, 0x41, 0xe4, 0x64, 0x9b, 0x93, 0x4c, 0xa4, 0x95, 0x99, 0x1b, 0x78, 0x52, 0xb8, 0x55]

theorem crhPreimage_unambiguous_boundary :
    crhPreimage ⟨"GET", "https", "example.com", "/ab", "c=1", emptyBodySha256⟩ ≠
      crhPreimage ⟨"GET", "https", "example.com", "/a", "bc=1", emptyBodySha256⟩ :=
  (crhPreimage_unambiguous (by decide) (by decide)).2.2.1
    (.pathQuery ⟨"GET", "https", "example.com", "", "", emptyBodySha256⟩ "/a" "b" "c=1" (by decide))

end ExtAuthz
