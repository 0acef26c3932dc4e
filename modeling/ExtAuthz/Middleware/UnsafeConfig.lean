/-
  The warnings at construction (`ext-authz-middleware/src/lib.rs`): security
  defaults that a configuration inverts are logged, and accepted.
-/
import ExtAuthz.Core.Config
import ExtAuthz.Lib.Ipv4

namespace ExtAuthz

open Text

/-- The host that is read from an authority without its userinfo. -/
def plaintextHost (authority : String) : String :=
  match stripPrefix authority "[" with
  | some afterBracket => splitNext afterBracket ']'  -- [ipv6]:port
  | none => splitNext authority ':'  -- host:port

theorem plaintextHost_bracket (s : String) : plaintextHost ("[" ++ s) = splitNext s ']' := by
  rw [plaintextHost, stripPrefix_eq_some.2 rfl]

/-- By parsing, not by prefix: `127.evil.com` is no loopback host. -/
def isLoopbackHost (host : String) : Bool :=
  host == "localhost" || host == "::1" || (Ipv4Addr.parse host).any Ipv4Addr.isLoopback

/-- The check that a verifier URL is plaintext `http://` to a non-loopback host.
    A host that it cannot classify counts as non-loopback. -/
def isPlaintextNonLoopback (url : String) : Bool :=
  match stripPrefix url "http://" with
  | some rest =>
    let authority := splitNext rest '/'
    let authority := rsplitNext authority '@'
    !isLoopbackHost (plaintextHost authority)
  | none => false  -- https://, unix socket, etc.

/-- A logged warning, with its fields. -/
structure Warning where
  fields : List (String × String)
  message : String
  deriving DecidableEq

/-- The token is sent in the clear. -/
def plaintextWarning (verifierUrl : String) : Warning where
  fields := [("verifier_url", verifierUrl)]
  message := "ext-authz verifier_url is plaintext http:// on a non-loopback host: the " ++
    "per-action credential crosses this link in the clear and any peer that can " ++
    "occupy the address can forge ALLOWs. Use a unix socket or mTLS."

/-- The token is sent upstream. -/
def stripTokenHeaderWarning : Warning where
  fields := []
  message := "ext-authz strip_token_header=false: the per-action credential will be " ++
    "forwarded to the upstream destination."

/-- The warnings about a configuration, in the order they are logged. -/
def warnOnUnsafeConfig (cfg : ExtAuthzConfig) : List Warning :=
  (if isPlaintextNonLoopback cfg.verifierUrl then [plaintextWarning cfg.verifierUrl] else []) ++
    if cfg.stripTokenHeader then [] else [stripTokenHeaderWarning]

/-- The URL is warned about when the check says so, whatever the other fields. -/
theorem plaintextWarning_mem_iff {cfg : ExtAuthzConfig} :
    plaintextWarning cfg.verifierUrl ∈ warnOnUnsafeConfig cfg ↔
      isPlaintextNonLoopback cfg.verifierUrl = true := by
  have hne : plaintextWarning cfg.verifierUrl ≠ stripTokenHeaderWarning := by
    intro he
    exact List.cons_ne_nil _ _ (congrArg Warning.fields he)
  unfold warnOnUnsafeConfig
  split_ifs with h₁ h₂ <;> simp_all

theorem isPlaintextNonLoopback_eq_true {url : String} :
    isPlaintextNonLoopback url = true ↔ ∃ rest, url = "http://" ++ rest ∧
      isLoopbackHost (plaintextHost (rsplitNext (splitNext rest '/') '@')) = false := by
  unfold isPlaintextNonLoopback
  constructor
  · intro h
    split at h
    · rename_i rest hs
      exact ⟨rest, stripPrefix_eq_some.1 hs, by simpa using h⟩
    · cases h
  · rintro ⟨rest, hs, h⟩
    rw [stripPrefix_eq_some.2 hs]
    simpa using h

end ExtAuthz
