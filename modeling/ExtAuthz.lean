import ExtAuthz.Lib.Text
import ExtAuthz.Lib.LengthPrefix
import ExtAuthz.Lib.Hex
import ExtAuthz.Lib.Base64Url
import ExtAuthz.Lib.Json
import ExtAuthz.Lib.JsonText
import ExtAuthz.Lib.JsonSize
import ExtAuthz.Lib.Interleave
import ExtAuthz.Lib.Sequential
import ExtAuthz.Lib.Helping
import ExtAuthz.Lib.DotSegments
import ExtAuthz.Lib.Split
import ExtAuthz.Lib.Ipv4
import ExtAuthz.Lib.Uri
import ExtAuthz.Core.Hash
import ExtAuthz.Core.Config
import ExtAuthz.Core.Types
import ExtAuthz.Middleware.Evaluate
import ExtAuthz.Middleware.UnsafeConfig
import ExtAuthz.Demo.Token
import ExtAuthz.Demo.Verifier
import ExtAuthz.Demo.Server
import ExtAuthz.Demo.Network
import ExtAuthz.Demo.Link
import ExtAuthz.Demo.Driver
import ExtAuthz.Demo.Scenarios
import ExtAuthz.Proof.Canonical
import ExtAuthz.Proof.Policy
import ExtAuthz.Proof.Wire
import ExtAuthz.Proof.Verdict
import ExtAuthz.Proof.EndToEnd
import ExtAuthz.Proof.PathScope
import ExtAuthz.Proof.Authority
import ExtAuthz.Proof.Scope
import ExtAuthz.Proof.Handlers
import ExtAuthz.Proof.Revocation
import ExtAuthz.Proof.Linearizable
import ExtAuthz.Proof.SingleUse
import ExtAuthz.Proof.History
import ExtAuthz.Proof.Tokens
import ExtAuthz.Proof.Audit
import ExtAuthz.Proof.Contract
import ExtAuthz.Proof.Plaintext
import ExtAuthz.Proof.Descriptor
import ExtAuthz.Proof.Trail
import ExtAuthz.Proof.Responses
import ExtAuthz.Proof.Answers
import ExtAuthz.Proof.Explained
import ExtAuthz.Proof.Atomic
import ExtAuthz.Proof.Link
import ExtAuthz.Proof.Loading
import ExtAuthz.Proof.Reason
import ExtAuthz.Proof.Limit
import ExtAuthz.Proof.Suite
