/-
  Middlewares and a verifier on an unreliable network.

  Any number of evaluations, of any middlewares, send their requests to one
  verifier, which also serves requests of others.  A request may be lost, may
  arrive late, and may arrive more than once; every arrival starts a handler.
  An evaluation ends with the response to its own request, or with a failure of
  any kind.
-/
import ExtAuthz.Demo.Server

namespace ExtAuthz

open Interleave

/-- A call of `evaluate`, with its result when it has returned. -/
structure EvaluateCall where
  middleware : ExtAuthzMiddleware
  readings : Readings
  ctx : RequestContext
  req : EgressRequest
  result : Option (Decision × AuditEvent)

/-- The request to the verifier, unless the call is denied locally. -/
def EvaluateCall.sent (X : Crates) (call : EvaluateCall) : Option AuthorizeRequest :=
  match call.middleware.prepare X.sha256 call.readings call.ctx call.req with
  | .error _ => none
  | .ok (_, wire) => some wire

/-- What a call sends carries the token of its request. -/
theorem EvaluateCall.sent_eq_some {X : Crates} {call : EvaluateCall} {wire : AuthorizeRequest} :
    call.sent X = some wire ↔
      ∃ token, headerValues call.req.headers call.middleware.cfg.tokenHeader = [token] ∧
        call.req.body.length ≤ call.middleware.cfg.maxBodyBytes ∧
        call.middleware.wire X.sha256 call.readings call.ctx call.req token = wire := by
  simp only [← findTokenHeader_eq_one]
  unfold EvaluateCall.sent ExtAuthzMiddleware.prepare
  cases findTokenHeader call.req.headers call.middleware.cfg.tokenHeader with
  | none => simp
  | many => simp
  | one token =>
    by_cases hb : call.req.body.length > call.middleware.cfg.maxBodyBytes
    · simp [hb, not_le.2 hb]
    · simp [hb, not_lt.1 hb]

/-- The result of a call that gets `reply`. -/
def EvaluateCall.run (X : Crates) (call : EvaluateCall) (reply : Reply) : Decision × AuditEvent :=
  call.middleware.evaluate X.sha256 call.readings (fun _ => reply) call.ctx call.req

/-- The handlers of the verifier, the calls, and for each handler the call that
    sent its request, if it was one of these. -/
structure Network where
  verifier : VerifierConfig
  calls : ℕ → Option EvaluateCall
  sender : ℕ → Option ℕ

namespace Network

/-- A verifier and nothing else. -/
def init (st : VerifierState) : Network := ⟨.init st, fun _ => none, fun _ => none⟩

/-- What the call `j` may get: a failure, or the response of a handler of its own
    request. -/
inductive Hears (X : Crates) (N : Network) (j : ℕ) : Reply → Prop
  | failure {reply : Reply} : reply.outcome.isVerdict = false → Hears X N j reply
  | response (i) {c : VerifierCall} {v : AuthorizeResponse} : N.sender i = some j →
      N.verifier.threads i = some ⟨c, .done (.verdict v), true⟩ →
      Hears X N j (.response .ok (AuthorizeResponse.decode X.values v.toJson))

/-- What may happen next, for any call, in any order. -/
inductive Step (X : Crates) (key : List UInt8) : Network → Network → Prop
  | enter {N} (j call) : N.calls j = none → call.result = none →
      Step X key N { N with calls := Function.update N.calls j (some call) }
  /-- The request of a call arrives. -/
  | arrive {N call wire req C} (i j now) : N.calls j = some call → call.sent X = some wire →
      extractRequest wire.toJson = .ok req →
      Interleave.Step (ExtAuthz.verifier X key) N.verifier (.start i (.authorize now req)) C →
      Step X key N { N with verifier := C, sender := Function.update N.sender i (some j) }
  /-- Any step of a handler, and the start of a handler for others. -/
  | handle {N e C} : Interleave.Step (ExtAuthz.verifier X key) N.verifier e C →
      Step X key N { N with verifier := C }
  | leave {N reply} (j call) : N.calls j = some call → call.result = none → N.Hears X j reply →
      Step X key N { N with
        calls := Function.update N.calls j (some { call with result := some (call.run X reply) }) }

/-- The networks that a new verifier comes to. -/
inductive Reachable (X : Crates) (key : List UInt8) : Network → Prop
  | init : Reachable X key (.init (.new key))
  | step {N N'} : Reachable X key N → Step X key N N' → Reachable X key N'

end Network

end ExtAuthz
