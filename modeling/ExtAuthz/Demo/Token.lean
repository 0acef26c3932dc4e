/-
  The per-action token of the demo (`ext-authz-demo/src/token.rs`): signed
  claims, `base64url(claims_json) "." base64url(HMAC-SHA256(claims_json))`.

  `verify_eq_ok` says which strings are accepted, and `verify_mint` that minted
  tokens are, where the JSON parser reads back what the writer wrote.
-/
import ExtAuthz.Core.Hash
import ExtAuthz.Lib.Base64Url
import ExtAuthz.Lib.Json

namespace ExtAuthz

open Text Json

/-- The external functions that the two parties share. -/
structure Crates where
  sha256 : List UInt8 → Digest
  /-- Key, then message. -/
  hmacSha256 : List UInt8 → List UInt8 → Digest
  /-- `serde_json::from_slice`, into a document. -/
  fromSlice : List UInt8 → Option Json
  /-- How `serde_json` reads a `Value`. -/
  values : ValueReader

/-- Coarse scope grant: the method, the authority, and the paths under a prefix. -/
structure Scope where
  method : String
  authority : String
  pathPrefix : String
  deriving DecidableEq

/-- What a token says. -/
structure Claims where
  /-- Single-use nonce. -/
  jti : String
  /-- The durable agent principal the token was minted for. -/
  agentId : String
  /-- The human the agent acts for. -/
  onBehalfOf : Option String
  /-- The acting sandbox must start with this selector. -/
  workloadSelector : Option String
  scope : Scope
  /-- The `crh_v1` that the token authorizes; a coarse grant has none. -/
  crh : Option String
  expUnixMs : Int64
  deriving DecidableEq

/-! ## JSON -/

namespace Scope

/-- The members of a scope. -/
def names : List String := ["method", "authority", "path_prefix"]

/-- The members with their values. -/
def toFields (s : Scope) : List (String × Option Json) :=
  [("method", some (.str s.method)), ("authority", some (.str s.authority)),
    ("path_prefix", some (.str s.pathPrefix))]

/-- A scope as it is written. -/
def toJson (s : Scope) : Json := ofFields s.toFields

/-- `deny_unknown_fields`. -/
def fromJson (j : Json) : Option Scope := do
  let fs ← readFields true names j
  return {
    method := ← required fs "method" readStr
    authority := ← required fs "authority" readStr
    pathPrefix := ← required fs "path_prefix" readStr }

theorem names_nodup : names.Nodup := by simp [names]

@[simp] theorem fromJson_toJson (s : Scope) : fromJson s.toJson = some s := by
  have hk : s.toFields.map Prod.fst = names := rfl
  have hn : (s.toFields.map Prod.fst).Nodup := hk ▸ names_nodup
  rw [fromJson, toJson, readFields_ofFields hk names_nodup]
  simp only [Option.bind_eq_bind, Option.bind_some, required, member_present hn]
  simp [toFields, member]

end Scope

namespace Claims

/-- The members of the claims. -/
def names : List String :=
  ["jti", "agent_id", "on_behalf_of", "workload_selector", "scope", "crh", "exp_unix_ms"]

/-- The members that are written: an absent `Option` is not. -/
def toFields (c : Claims) : List (String × Option Json) :=
  [("jti", some (.str c.jti)), ("agent_id", some (.str c.agentId)),
    ("on_behalf_of", c.onBehalfOf.map .str), ("workload_selector", c.workloadSelector.map .str),
    ("scope", some c.scope.toJson), ("crh", c.crh.map .str),
    ("exp_unix_ms", some (.num c.expUnixMs.toInt))]

/-- The claims as they are written. -/
def toJson (c : Claims) : Json := ofFields c.toFields

/-- `deny_unknown_fields`; the `Option` fields have a default. -/
def fromJson (j : Json) : Option Claims := do
  let fs ← readFields true names j
  return {
    jti := ← required fs "jti" readStr
    agentId := ← required fs "agent_id" readStr
    onBehalfOf := ← nullable fs "on_behalf_of" readStr
    workloadSelector := ← nullable fs "workload_selector" readStr
    scope := ← required fs "scope" Scope.fromJson
    crh := ← nullable fs "crh" readStr
    expUnixMs := ← required fs "exp_unix_ms" readInt64 }

theorem names_nodup : names.Nodup := by simp [names]

@[simp] theorem fromJson_toJson (c : Claims) : fromJson c.toJson = some c := by
  have hk : c.toFields.map Prod.fst = names := rfl
  have hn : (c.toFields.map Prod.fst).Nodup := hk ▸ names_nodup
  rw [fromJson, toJson, readFields_ofFields hk names_nodup]
  simp only [Option.bind_eq_bind, Option.bind_some, required, nullable, member_present hn]
  simp [toFields, member]

end Claims

/-! ## Tokens -/

/-- The text that is signed. -/
def claimsBytes (c : Claims) : String := c.toJson.render

/-- Mint a token. -/
def mint (X : Crates) (c : Claims) (key : List UInt8) : String :=
  let body := bytes (claimsBytes c)
  Base64Url.encode body ++ "." ++ Base64Url.encode (X.hmacSha256 key body).toList

theorem size_mint_le (X : Crates) (c : Claims) (key : List UInt8) :
    (mint X c key).utf8ByteSize ≤ 2 * c.toJson.sizeBound + 65 := by
  have h₁ := Base64Url.size_encode_le (bytes (claimsBytes c))
  have h₂ := Base64Url.size_encode_le (X.hmacSha256 key (bytes (claimsBytes c))).toList
  have h₃ := size_le_sizeBound c.toJson
  have hd : (".").utf8ByteSize = 1 := rfl
  rw [length_bytes] at h₁
  rw [Vector.length_toList] at h₂
  simp only [size] at h₃
  simp only [claimsBytes] at h₁ h₂
  simp only [mint, claimsBytes, String.utf8ByteSize_append, hd]
  omega

/-- Why a token is not accepted. -/
inductive VerifyError where
  | malformed
  | badSignature
  deriving DecidableEq

/-- Check the signature, then decode the claims. -/
def verify (X : Crates) (token : String) (key : List UInt8) : Except VerifyError Claims :=
  match splitOnce token '.' with
  | none => .error .malformed
  | some (bBody, bSig) =>
    match Base64Url.decode bBody with
    | none => .error .malformed
    | some body =>
      match Base64Url.decode bSig with
      | none => .error .malformed
      | some sig =>
        if sig = (X.hmacSha256 key body).toList then
          match (X.fromSlice body).bind Claims.fromJson with
          | some c => .ok c
          | none => .error .malformed
        else .error .badSignature

/-- The accepted tokens, before the base64 is looked at. -/
theorem verify_eq_ok {X : Crates} {token : String} {key : List UInt8} {c : Claims} :
    verify X token key = .ok c ↔ ∃ bBody bSig body, splitOnce token '.' = some (bBody, bSig) ∧
      Base64Url.decode bBody = some body ∧
      Base64Url.decode bSig = some (X.hmacSha256 key body).toList ∧
      (X.fromSlice body).bind Claims.fromJson = some c := by
  constructor
  · intro h
    unfold verify at h
    split at h <;> try cases h
    rename_i bBody bSig hs
    split at h <;> try cases h
    rename_i body hb
    split at h <;> try cases h
    rename_i sig hsig
    split_ifs at h with hm
    split at h <;> cases h
    rename_i hc
    exact ⟨bBody, bSig, body, hs, hb, hm ▸ hsig, hc⟩
  · rintro ⟨bBody, bSig, body, hs, hb, hsig, hc⟩
    simp [verify, hs, hb, hsig, hc]

/-- Minted tokens are accepted. -/
theorem verify_mint {X : Crates} {c : Claims} (key : List UInt8)
    (h : X.fromSlice (bytes (claimsBytes c)) = some c.toJson) :
    verify X (mint X c key) key = .ok c :=
  verify_eq_ok.2 ⟨_, _, _,
    splitOnce_eq_some.2 ⟨rfl, Base64Url.dot_notMem_encode _⟩,
    Base64Url.decode_encode _, Base64Url.decode_encode _, by simp [h]⟩

end ExtAuthz
