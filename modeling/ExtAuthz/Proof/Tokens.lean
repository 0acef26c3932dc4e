/-
  The tokens that are accepted.

  A body of signed claims has one accepted token, `signed` (`verify_eq_ok_iff`);
  a text of the right form with another signature is a bad signature
  (`verify_eq_badSignature_iff`), and everything else is malformed
  (`verify_eq_malformed_iff`).  No accepted token continues another one
  (`eq_empty_of_verify_append`).

  Minted tokens are read back, whatever the claims are (`mint_roundtrip`).
-/
import ExtAuthz.Demo.Driver
import ExtAuthz.Lib.JsonText

namespace ExtAuthz

open Text Json

/-- The token of a signed body. -/
def signed (X : Crates) (key body : List UInt8) : String :=
  Base64Url.encode body ++ "." ++ Base64Url.encode (X.hmacSha256 key body).toList

section
variable {X : Crates} {key body : List UInt8} {token : String} {c : Claims}

/-! ## What the verification answers -/

theorem splitOnce_decode_iff {sig : List UInt8} :
    (∃ bBody bSig, splitOnce token '.' = some (bBody, bSig) ∧
        Base64Url.decode bBody = some body ∧ Base64Url.decode bSig = some sig) ↔
      token = Base64Url.encode body ++ "." ++ Base64Url.encode sig := by
  constructor
  · rintro ⟨bBody, bSig, hs, hb, hsig⟩
    obtain ⟨rfl, -⟩ := splitOnce_eq_some.1 hs
    rw [Base64Url.decode_eq_some.1 hb, Base64Url.decode_eq_some.1 hsig]
    rfl
  · rintro rfl
    exact ⟨_, _, splitOnce_eq_some.2 ⟨rfl, Base64Url.dot_notMem_encode _⟩,
      Base64Url.decode_encode _, Base64Url.decode_encode _⟩

theorem verify_encode (X : Crates) (key body sig : List UInt8) :
    verify X (Base64Url.encode body ++ "." ++ Base64Url.encode sig) key =
      if sig = (X.hmacSha256 key body).toList then
        match (X.fromSlice body).bind Claims.fromJson with
        | some c => .ok c
        | none => .error .malformed
      else .error .badSignature := by
  have hs : splitOnce (Base64Url.encode body ++ "." ++ Base64Url.encode sig) '.' =
      some (Base64Url.encode body, Base64Url.encode sig) :=
    splitOnce_eq_some.2 ⟨rfl, Base64Url.dot_notMem_encode _⟩
  cases hc : (X.fromSlice body).bind Claims.fromJson with
  | none => simp [verify, hs, hc, Base64Url.decode_encode]
  | some c => simp [verify, hs, hc, Base64Url.decode_encode]

theorem verify_of_ne_encode
    (h : ∀ body sig, token ≠ Base64Url.encode body ++ "." ++ Base64Url.encode sig) :
    verify X token key = .error .malformed := by
  unfold verify
  cases hs : splitOnce token '.' with
  | none => rfl
  | some p =>
    obtain ⟨bBody, bSig⟩ := p
    cases hb : Base64Url.decode bBody with
    | none => simp only [hb]
    | some body =>
      cases hsig : Base64Url.decode bSig with
      | none => simp only [hb, hsig]
      | some sig => exact absurd (splitOnce_decode_iff.1 ⟨_, _, hs, hb, hsig⟩) (h body sig)

theorem verify_signed : verify X (signed X key body) key =
    match (X.fromSlice body).bind Claims.fromJson with
    | some c => .ok c
    | none => .error .malformed := by
  rw [signed, verify_encode, if_pos rfl]

theorem verify_eq_ok_iff : verify X token key = .ok c ↔
    ∃ body, token = signed X key body ∧ (X.fromSlice body).bind Claims.fromJson = some c := by
  constructor
  · intro h
    obtain ⟨bBody, bSig, body, hs, hb, hsig, hc⟩ := verify_eq_ok.1 h
    exact ⟨body, splitOnce_decode_iff.1 ⟨_, _, hs, hb, hsig⟩, hc⟩
  · rintro ⟨body, rfl, hc⟩
    rw [verify_signed, hc]

theorem verify_eq_badSignature_iff : verify X token key = .error .badSignature ↔
    ∃ body sig, token = Base64Url.encode body ++ "." ++ Base64Url.encode sig ∧
      sig ≠ (X.hmacSha256 key body).toList := by
  constructor
  · intro h
    by_contra hn
    push Not at hn
    by_cases he : ∃ body sig, token = Base64Url.encode body ++ "." ++ Base64Url.encode sig
    · obtain ⟨body, sig, ht⟩ := he
      rw [ht, verify_encode, if_pos (hn body sig ht)] at h
      cases hc : (X.fromSlice body).bind Claims.fromJson with
      | none => rw [hc] at h; cases h
      | some c => rw [hc] at h; cases h
    · push Not at he
      rw [verify_of_ne_encode he] at h
      cases h
  · rintro ⟨body, sig, rfl, hne⟩
    rw [verify_encode, if_neg hne]

/-- Malformed is what is not of the form, and a signed body that is not claims. -/
theorem verify_eq_malformed_iff : verify X token key = .error .malformed ↔
    (∀ body sig, token ≠ Base64Url.encode body ++ "." ++ Base64Url.encode sig) ∨
      ∃ body, token = signed X key body ∧ (X.fromSlice body).bind Claims.fromJson = none := by
  constructor
  · intro h
    by_contra hn
    rw [not_or] at hn
    obtain ⟨he, hs⟩ := hn
    push Not at he hs
    obtain ⟨body, sig, rfl⟩ := he
    by_cases hsig : sig = (X.hmacSha256 key body).toList
    · subst hsig
      obtain ⟨c, hc⟩ := Option.ne_none_iff_exists'.1 (hs body rfl)
      rw [verify_encode, if_pos rfl, hc] at h
      cases h
    · rw [verify_encode, if_neg hsig] at h
      cases h
  · rintro (h | ⟨body, rfl, hc⟩)
    · exact verify_of_ne_encode h
    · rw [verify_signed, hc]

/-! ## One spelling -/

/-- A dot after a base64 text separates it from the rest. -/
theorem encode_dot_inj {a a' : List UInt8} {r r' : String}
    (h : Base64Url.encode a ++ "." ++ r = Base64Url.encode a' ++ "." ++ r') : a = a' ∧ r = r' := by
  have hl := congrArg String.toList h
  simp only [String.toList_append, List.append_assoc] at hl
  obtain ⟨ha, hr⟩ := split_first_inj (Base64Url.dot_notMem_encode a)
    (Base64Url.dot_notMem_encode a') hl
  exact ⟨Base64Url.encode_inj.1 (String.toList_inj.1 ha), String.toList_inj.1 hr⟩

/-- The token of a body does not continue to the token of a body. -/
theorem eq_empty_of_signed_append {body' : List UInt8} {x : String}
    (h : signed X key body ++ x = signed X key body') : x = "" := by
  rw [signed, signed, String.append_assoc] at h
  obtain ⟨rfl, hr⟩ := encode_dot_inj h
  have hl := congrArg (fun s => s.toList.length) hr
  simp only [String.toList_append, List.length_append, Nat.add_eq_left] at hl
  exact String.toList_eq_nil_iff.1 (List.length_eq_zero_iff.1 hl)

/-- Nothing that starts with an accepted token, and is longer, is accepted. -/
theorem eq_empty_of_verify_append {x : String} {c' : Claims} (h : verify X token key = .ok c)
    (hx : verify X (token ++ x) key = .ok c') : x = "" := by
  obtain ⟨body, rfl, -⟩ := verify_eq_ok_iff.1 h
  obtain ⟨body', he, -⟩ := verify_eq_ok_iff.1 hx
  exact eq_empty_of_signed_append he

theorem count_dot_signed : (signed X key body).toList.count '.' = 1 := by
  have h₁ := List.count_eq_zero.2 (Base64Url.dot_notMem_encode body)
  have h₂ := List.count_eq_zero.2
    (Base64Url.dot_notMem_encode (X.hmacSha256 key body).toList)
  simp only [signed, String.toList_append, List.count_append, h₁, h₂]
  rfl

theorem sides_of_verify {bBody bSig : String} (h : verify X (bBody ++ "." ++ bSig) key = .ok c) :
    ∃ body, bBody = Base64Url.encode body ∧
      bSig = Base64Url.encode (X.hmacSha256 key body).toList := by
  obtain ⟨body, he, -⟩ := verify_eq_ok_iff.1 h
  have hcount := congrArg (fun s => s.toList.count '.') he
  simp only [count_dot_signed, String.toList_append, List.count_append] at hcount
  have hdot : (".").toList.count '.' = 1 := rfl
  have hb : '.' ∉ bBody.toList := List.count_eq_zero.1 (by omega)
  rw [signed, ← String.toList_inj] at he
  simp only [String.toList_append, List.append_assoc] at he
  obtain ⟨ha, hr⟩ := split_first_inj hb (Base64Url.dot_notMem_encode body) he
  exact ⟨body, String.toList_inj.1 ha, String.toList_inj.1 hr⟩

end

/-- **Canonical tokens**: what is accepted is the token of a signed body that is
    claims, and what the two errors mean.  An accepted token has one dot, is not
    the beginning of another accepted token, and is the only one for its body:
    also when a reader of base64 takes other texts than the canonical one for
    the same bytes, no other body half and no other signature half is accepted. -/
theorem verify_canonical (X : Crates) (key : List UInt8) :
    (∀ token c, verify X token key = .ok c ↔
      ∃ body, token = signed X key body ∧ (X.fromSlice body).bind Claims.fromJson = some c) ∧
    (∀ token, verify X token key = .error .badSignature ↔
      ∃ body sig, token = Base64Url.encode body ++ "." ++ Base64Url.encode sig ∧
        sig ≠ (X.hmacSha256 key body).toList) ∧
    (∀ token, verify X token key = .error .malformed ↔
      (∀ body sig, token ≠ Base64Url.encode body ++ "." ++ Base64Url.encode sig) ∨
        ∃ body, token = signed X key body ∧ (X.fromSlice body).bind Claims.fromJson = none) ∧
    (∀ token c, verify X token key = .ok c → token.toList.count '.' = 1) ∧
    (∀ token x c c', verify X token key = .ok c → verify X (token ++ x) key = .ok c' → x = "") ∧
    ∀ read : String → List UInt8, (∀ body, read (Base64Url.encode body) = body) →
      ∀ bBody bSig bBody' bSig' c c', verify X (bBody ++ "." ++ bSig) key = .ok c →
        verify X (bBody' ++ "." ++ bSig') key = .ok c' → read bBody = read bBody' →
        bBody = bBody' ∧ bSig = bSig' := by
  refine ⟨fun token c => verify_eq_ok_iff, fun token => verify_eq_badSignature_iff,
    fun token => verify_eq_malformed_iff, ?_, ?_, ?_⟩
  · intro token c h
    obtain ⟨body, rfl, -⟩ := verify_eq_ok_iff.1 h
    exact count_dot_signed
  · intro token x c c' h hx
    exact eq_empty_of_verify_append h hx
  · intro read hread bBody bSig bBody' bSig' c c' h h' he
    obtain ⟨body, rfl, rfl⟩ := sides_of_verify h
    obtain ⟨body', rfl, rfl⟩ := sides_of_verify h'
    rw [hread, hread] at he
    subst he
    exact ⟨rfl, rfl⟩

/-- The token of the happy path is accepted, and not with padding. -/
theorem verify_canonical_happy : Driver.happy.token =
      signed Driver.happy.crates Driver.key (bytes (claimsBytes Driver.happy.claims)) ∧
    ∀ c, verify Driver.happy.crates (Driver.happy.token ++ "=") Driver.key ≠ .ok c := by
  refine ⟨rfl, ?_⟩
  intro c hc
  obtain ⟨-, -, -, -, hprefix, -⟩ := verify_canonical Driver.happy.crates Driver.key
  have h := hprefix _ "=" _ c Driver.happy.verify_token hc
  exact absurd h (by decide)

/-! ## Minting -/

theorem Claims.plain_toJson (c : Claims) : c.toJson.Plain 128 := by
  have hn : InRange c.expUnixMs.toInt :=
    ⟨c.expUnixMs.le_toInt, by have := c.expUnixMs.toInt_lt; omega⟩
  have hs : c.scope.toJson.Plain 127 := plain_ofFields (by simp [Scope.toFields, Plain])
  have ho (o : Option String) (depth : ℕ) : ∀ v, o.map Json.str = some v → v.Plain depth := by
    cases o <;> simp [Plain]
  refine plain_ofFields ?_
  simp only [toFields, List.forall_mem_cons, Option.mem_def, Option.some.injEq, forall_eq']
  exact ⟨trivial, trivial, ho _ _, ho _ _, hs, ho _ _, hn, by simp⟩

theorem render_toJson_inj {c c' : Claims} (h : claimsBytes c = claimsBytes c') : c = c' := by
  have hc := parse_render c.plain_toJson
  have hc' := parse_render c'.plain_toJson
  rw [claimsBytes, claimsBytes] at h
  rw [h] at hc
  have hj := Option.some.inj (hc.symm.trans hc')
  exact Option.some.inj ((Claims.fromJson_toJson c).symm.trans (hj ▸ Claims.fromJson_toJson c'))

/-- Under a JSON reader that gets back what was written, every minted token is. -/
theorem verify_mint_of_reads {X : Crates} (key : List UInt8)
    (hX : ∀ j : Json, j.Plain 128 → X.fromSlice (bytes j.render) = some j) (c : Claims) :
    verify X (mint X c key) key = .ok c :=
  verify_mint key (hX _ c.plain_toJson)

/-- **Minting**: where the JSON reader gets back what was written, a minted token
    is read back, whatever the claims are.  Different claims have different
    tokens. -/
theorem mint_roundtrip (X : Crates) (key : List UInt8) :
    ((∀ j : Json, j.Plain 128 → X.fromSlice (bytes j.render) = some j) →
      ∀ c, verify X (mint X c key) key = .ok c) ∧
    Function.Injective fun c => mint X c key := by
  refine ⟨verify_mint_of_reads key, ?_⟩
  intro c c' h
  obtain ⟨hbody, -⟩ := encode_dot_inj h
  exact render_toJson_inj (bytes_inj.1 hbody)

/-- Claims with a nonce that needs escapes and an empty option, under the JSON
    reader of the library. -/
theorem mint_roundtrip_escapes :
    let X := { Driver.happy.crates with fromSlice := parse }
    let c := { Driver.happy.claims with jti := "\"a\\b.\n\"", onBehalfOf := some "" }
    verify X (mint X c Driver.key) Driver.key = .ok c := by
  intro X c
  exact (mint_roundtrip X Driver.key).1 (fun _ => parse_render) c

end ExtAuthz
