/-
  The operator-facing configuration (`ext-authz-core/src/config.rs`).

  `mode` and `fail` are independent: the first says whether verdicts block, the
  second what happens without a verdict.

  `ExtAuthzConfig.fromJson` reads a configuration from a document, with the
  defaults of the members that are missing.
-/
import ExtAuthz.Lib.Json

namespace ExtAuthz

open Text Json

/-- Whether verdicts block. -/
inductive Mode where
  | enforce
  | observe
  deriving DecidableEq

/-- What happens without a verdict. -/
inductive FailPolicy where
  | closed
  | «open»
  deriving DecidableEq

/-- The configuration of one middleware. -/
structure ExtAuthzConfig where
  verifierUrl : String
  mode : Mode
  fail : FailPolicy
  /-- End-to-end budget for the round trip to the verifier. -/
  timeoutMs : UInt64
  /-- Request header with the per-action credential. -/
  tokenHeader : String
  /-- Further request headers that the verifier gets. -/
  forwardHeaders : List String
  /-- Strip the token header before the request egresses. -/
  stripTokenHeader : Bool
  /-- Largest body that is buffered and hashed. -/
  maxBodyBytes : ℕ
  deriving DecidableEq

/-- Default header with the per-action credential, on both sides of the wire. -/
def defaultTokenHeader : String := "x-hawcx-haap-token"

namespace ExtAuthzConfig

/-- The configuration with the defaults of its fields. -/
def default (verifierUrl : String) : ExtAuthzConfig where
  verifierUrl
  mode := .enforce
  fail := .closed
  timeoutMs := 100
  tokenHeader := defaultTokenHeader
  forwardHeaders := []
  stripTokenHeader := true
  maxBodyBytes := 1024 * 1024

/-- Lowercase the header names, once, at load time. -/
def normalized (cfg : ExtAuthzConfig) : ExtAuthzConfig :=
  { cfg with
    tokenHeader := toAsciiLowercase cfg.tokenHeader
    forwardHeaders := cfg.forwardHeaders.map toAsciiLowercase }

@[simp] theorem normalized_normalized (cfg : ExtAuthzConfig) :
    cfg.normalized.normalized = cfg.normalized := by
  simp [normalized, Function.comp_def]

end ExtAuthzConfig

theorem toAsciiLowercase_defaultTokenHeader :
    toAsciiLowercase defaultTokenHeader = defaultTokenHeader :=
  toAsciiLowercase_of_not_isUpper (by simp [defaultTokenHeader])

/-! ## JSON -/

namespace Mode

/-- A mode as it is written: `rename_all = "snake_case"`. -/
def toJson : Mode → Json
  | enforce => .str "enforce"
  | observe => .str "observe"

/-- The mode of a name. -/
def ofName : String → Option Mode
  | "enforce" => some enforce
  | "observe" => some observe
  | _ => none

/-- A mode as it is read. -/
def fromJson : Json → Option Mode := readVariant ofName

@[simp] theorem fromJson_toJson (m : Mode) : fromJson m.toJson = some m := by
  cases m <;> rfl

end Mode

namespace FailPolicy

/-- A policy as it is written: `rename_all = "snake_case"`. -/
def toJson : FailPolicy → Json
  | closed => .str "closed"
  | «open» => .str "open"

/-- The policy of a name. -/
def ofName : String → Option FailPolicy
  | "closed" => some closed
  | "open" => some «open»
  | _ => none

/-- A policy as it is read. -/
def fromJson : Json → Option FailPolicy := readVariant ofName

@[simp] theorem fromJson_toJson (f : FailPolicy) : fromJson f.toJson = some f := by
  cases f <;> rfl

end FailPolicy

/-- Verdicts block. -/
def dMode : Mode := .enforce

/-- Without a verdict there is a denial. -/
def dFail : FailPolicy := .closed

/-- The budget of a round trip, in milliseconds. -/
def dTimeoutMs : UInt64 := 100

/-- The header of the wire contract. -/
def dTokenHeader : String := defaultTokenHeader

/-- The token header is stripped. -/
def dTrue : Bool := true

/-- One mebibyte. -/
def dMaxBody : ℕ := 1024 * 1024

namespace ExtAuthzConfig

/-- The members of a configuration. -/
def names : List String :=
  ["verifier_url", "mode", "fail", "timeout_ms", "token_header", "forward_headers",
    "strip_token_header", "max_body_bytes"]

/-- The members with their values. -/
def toFields (cfg : ExtAuthzConfig) : List (String × Option Json) :=
  [("verifier_url", some (.str cfg.verifierUrl)), ("mode", some cfg.mode.toJson),
    ("fail", some cfg.fail.toJson), ("timeout_ms", some (.num cfg.timeoutMs.toNat)),
    ("token_header", some (.str cfg.tokenHeader)),
    ("forward_headers", some (.arr (cfg.forwardHeaders.map .str))),
    ("strip_token_header", some (.bool cfg.stripTokenHeader)),
    ("max_body_bytes", some (.num cfg.maxBodyBytes))]

/-- The fields, from the members that were read: all but the URL have a default. -/
def ofMembers (fs : List (String × Json)) : Option ExtAuthzConfig := do
  return {
    verifierUrl := ← required fs "verifier_url" readStr
    mode := ← withDefault fs "mode" dMode Mode.fromJson
    fail := ← withDefault fs "fail" dFail FailPolicy.fromJson
    timeoutMs := ← withDefault fs "timeout_ms" dTimeoutMs readUInt64
    tokenHeader := ← withDefault fs "token_header" dTokenHeader readStr
    forwardHeaders := ← withDefault fs "forward_headers" [] (readVec readStr)
    stripTokenHeader := ← withDefault fs "strip_token_header" dTrue readBool
    maxBodyBytes := ← withDefault fs "max_body_bytes" dMaxBody readUSize }

/-- A configuration as it is read: unknown members are ignored. -/
def fromJson (j : Json) : Option ExtAuthzConfig := (readFields false names j).bind ofMembers

theorem names_nodup : names.Nodup := by simp [names]

end ExtAuthzConfig

end ExtAuthz
