/-
  `crh_v1`, the canonical request hash (`ext-authz-core/src/hash.rs`).

  SHA-256 is a parameter of the model: `canonicalRequestHash` is the digest of
  `crhPreimage`, the bytes that the source feeds to the hasher, in order.

  `normalizeAuthority_cases` says all that `normalizeAuthority` can do; the
  proofs about authorities use it and not the definition.
-/
import ExtAuthz.Lib.Text
import ExtAuthz.Lib.LengthPrefix

namespace ExtAuthz

open Text LengthPrefix

/-- A SHA-256 or HMAC-SHA256 output (`[u8; 32]`). -/
abbrev Digest := Vector UInt8 32

/-- Domain separator for `crh_v1`, NUL-terminated. -/
def crhDomain : List UInt8 := bytes "openshell-crh-v1" ++ [0]

/-- The pieces of a request that participate in `crh_v1`. -/
structure CanonicalRequestParts where
  /-- HTTP method as seen by the proxy (any case). -/
  method : String
  /-- URL scheme (any case). -/
  scheme : String
  /-- `host[:port]` as forwarded (any case). -/
  authority : String
  /-- Path exactly as forwarded.  Empty means `/`. -/
  path : String
  /-- What follows the `?`, exactly as forwarded; empty if none. -/
  query : String
  /-- SHA-256 of the request body. -/
  bodySha256 : Digest
  deriving DecidableEq

/-! ## Authorities -/

/-- The suffix that spells the default port of a lowercase scheme. -/
def defaultSuffix : String → Option String
  | "https" => some ":443"
  | "http" => some ":80"
  | _ => none

theorem defaultSuffix_eq_some {s x : String} :
    defaultSuffix s = some x ↔ (s = "https" ∧ x = ":443") ∨ (s = "http" ∧ x = ":80") := by
  unfold defaultSuffix
  split <;> simp_all [eq_comm]

/-- What `normalize_authority` takes for a host: not empty, and either ending
    in `]` or without a colon. -/
def wellFormedHost (host : String) : Bool :=
  host ≠ "" && (endsWithChar host ']' || !contains host ':')

theorem wellFormedHost_iff {host : String} : wellFormedHost host = true ↔
    host ≠ "" ∧ (host.toList.getLast? = some ']' ∨ ':' ∉ host.toList) := by
  simp [wellFormedHost, endsWithChar_iff, ← contains_iff]

/-- Lowercase the authority and strip the scheme's default port, where what
    remains is a host. -/
def normalizeAuthority (schemeLower authority : String) : String :=
  let a := toAsciiLowercase authority
  match defaultSuffix schemeLower with
  | none => a
  | some suffix =>
    match stripSuffix a suffix with
    | some host => if wellFormedHost host then host else a
    | none => a

/-- The two outcomes of `normalizeAuthority`: a default port stripped from a
    host, or the lowercase authority when there is none to strip. -/
theorem normalizeAuthority_cases (s a : String) :
    (∃ suffix host, defaultSuffix s = some suffix ∧ toAsciiLowercase a = host ++ suffix ∧
      wellFormedHost host = true ∧ normalizeAuthority s a = host) ∨
    (normalizeAuthority s a = toAsciiLowercase a ∧
      ∀ suffix host, defaultSuffix s = some suffix → toAsciiLowercase a = host ++ suffix →
        wellFormedHost host = false) := by
  unfold normalizeAuthority
  generalize defaultSuffix s = d
  cases d with
  | none => simp
  | some suffix =>
    cases hp : stripSuffix (toAsciiLowercase a) suffix with
    | none =>
      refine Or.inr ⟨by simp [hp], ?_⟩
      intro suffix' host h he
      cases h
      exact absurd he (stripSuffix_eq_none.1 hp host)
    | some host =>
      have he := stripSuffix_eq_some.1 hp
      by_cases hw : wellFormedHost host = true
      · exact Or.inl ⟨suffix, host, rfl, he, hw, by simp [hp, hw]⟩
      · refine Or.inr ⟨by simp [hp, hw], ?_⟩
        intro suffix' host' h he'
        cases h
        have : host' = host := by simpa using he'.symm.trans he
        rw [this]
        simpa using hw

/-- What is stripped is at the end. -/
theorem normalizeAuthority_isPrefix (s a : String) :
    ∃ r, toAsciiLowercase a = normalizeAuthority s a ++ r := by
  rcases normalizeAuthority_cases s a with ⟨suffix, host, -, ha, -, hn⟩ | ⟨hn, -⟩
  · exact ⟨suffix, by rw [hn, ha]⟩
  · exact ⟨"", by rw [hn, String.append_empty]⟩

theorem normalizeAuthority_of_defaultSuffix {s a suffix host : String}
    (hs : defaultSuffix s = some suffix) (ha : toAsciiLowercase a = host ++ suffix)
    (hw : wellFormedHost host = true) : normalizeAuthority s a = host := by
  rcases normalizeAuthority_cases s a with ⟨suffix', host', hs', ha', -, hn⟩ | ⟨-, hno⟩
  · rw [hs] at hs'
    cases hs'
    rw [hn]
    simpa using ha'.symm.trans ha
  · rw [hno suffix host hs ha] at hw
    cases hw

/-- Letter case does not matter to `normalizeAuthority`. -/
theorem normalizeAuthority_lower_congr {s a b : String}
    (h : toAsciiLowercase a = toAsciiLowercase b) :
    normalizeAuthority s a = normalizeAuthority s b := by
  unfold normalizeAuthority
  rw [h]

/-- Decimal digits, as a port is spelled. -/
def IsPort (port : String) : Prop := ∀ c ∈ port.toList, c.isDigit = true

theorem IsPort.colon_notMem {port : String} (h : IsPort port) : ':' ∉ port.toList :=
  fun hm => absurd (h _ hm) (by decide)

theorem IsPort.lower {port : String} (h : IsPort port) : toAsciiLowercase port = port := by
  refine toAsciiLowercase_of_not_isUpper fun c hc => ?_
  have ha := isAlpha_of_isDigit (h c hc)
  simp only [Char.isAlpha, Bool.or_eq_false_iff] at ha
  exact ha.1

/-- The port of a default suffix. -/
theorem defaultSuffix_port {s suffix : String} (h : defaultSuffix s = some suffix) :
    ∃ port, suffix = ":" ++ port ∧ IsPort port := by
  rcases defaultSuffix_eq_some.1 h with ⟨-, rfl⟩ | ⟨-, rfl⟩
  · exact ⟨"443", rfl, by simp [IsPort]⟩
  · exact ⟨"80", rfl, by simp [IsPort]⟩

/-- A port other than the scheme's default is kept. -/
theorem normalizeAuthority_keeps_port {s host port : String} (hp : IsPort port)
    (hd : defaultSuffix s ≠ some (":" ++ port)) :
    normalizeAuthority s (host ++ ":" ++ port) = toAsciiLowercase host ++ ":" ++ port := by
  have hl : toAsciiLowercase (host ++ ":" ++ port) = toAsciiLowercase host ++ ":" ++ port := by
    rw [toAsciiLowercase_append, toAsciiLowercase_append, hp.lower]
    rfl
  rcases normalizeAuthority_cases s (host ++ ":" ++ port) with ⟨suffix, host', hs, ha, -, -⟩ | h
  · obtain ⟨port', rfl, hp'⟩ := defaultSuffix_port hs
    have he := congrArg String.toList (hl.symm.trans ha)
    simp only [String.toList_append, List.append_assoc] at he
    obtain ⟨-, hpp⟩ := split_last_inj hp.colon_notMem hp'.colon_notMem he
    exact absurd hs (String.toList_inj.1 hpp ▸ hd)
  · rw [h.1, hl]

/-! ## The hash -/

/-- Append a length-prefixed field: `u32_be(len) || bytes`. -/
def put (h bs : List UInt8) : List UInt8 := h ++ u32be bs.length ++ bs

theorem put_eq (h bs : List UInt8) : put h bs = h ++ field bs := by
  simp [put, field]

/-- A path, the empty one read as `/`. -/
def pathOrRoot (path : String) : String := if path = "" then "/" else path

/-- The bytes that `canonical_request_hash` feeds to SHA-256. -/
def crhPreimage (p : CanonicalRequestParts) : List UInt8 :=
  let h := crhDomain
  let h := put h (bytes (toAsciiUppercase p.method))
  let scheme := toAsciiLowercase p.scheme
  let h := put h (bytes scheme)
  let h := put h (bytes (normalizeAuthority scheme p.authority))
  let h := put h (bytes (pathOrRoot p.path))
  let h := put h (bytes p.query)
  put h p.bodySha256.toList

/-- Compute `crh_v1` over the canonical parts. -/
def canonicalRequestHash (sha256 : List UInt8 → Digest) (p : CanonicalRequestParts) : Digest :=
  sha256 (crhPreimage p)

example : normalizeAuthority "https" "2001:db8::443" = "2001:db8::443" := by decide

end ExtAuthz
