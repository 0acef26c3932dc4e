/-
  The network of `ExtAuthz.Demo.Network` with the bytes that cross it.

  A call that enters sends the bytes of its request, and a handler that has
  finished sends the bytes of its response.  What was sent may arrive late, more
  than once, or never.  The verifier reads a request from any bytes that arrive,
  also from those of others, and a call reads its verdict from the bytes of a
  response with the status 200.

  The readers of the two sides are parameters (`Decoders`).  What is known of them
  is what they read from the text of a document (`Decoders.Lossless`), and nothing
  about other bytes.
-/
import ExtAuthz.Demo.Network
import ExtAuthz.Lib.JsonText

namespace ExtAuthz

open Interleave

/-- `serde_json::to_vec`. -/
def toVec (j : Json) : List UInt8 := Text.bytes j.render

/-- How the two sides read the bytes of a body. -/
structure Decoders where
  /-- The extractor `Json<AuthorizeRequest>`. -/
  request : List UInt8 → Option AuthorizeRequest
  /-- `Response::json::<AuthorizeResponse>`. -/
  response : List UInt8 → Except ReqwestError AuthorizeResponse

/-- The text of a document that has fewer than 128 nested arrays and objects, no
    float, and the integers of 64 bits only, is read as the document is. -/
structure Decoders.Lossless (X : Crates) (D : Decoders) : Prop where
  request : ∀ j : Json, j.Plain 128 → D.request (toVec j) = AuthorizeRequest.fromJson j
  response : ∀ j : Json, j.Plain 128 →
    D.response (toVec j) = AuthorizeResponse.decode X.values j

/-- The request in a body, behind `DefaultBodyLimit`. -/
def readRequest (D : Decoders) (body : List UInt8) : Option AuthorizeRequest :=
  if body.length > maxAuthorizeBodyBytes then none else D.request body

/-- A response with the status 200. -/
def Reply.ofBody (D : Decoders) (body : List UInt8) : Reply := .response .ok (D.response body)

/-- The body that the call `j` sends, unless it is denied locally. -/
def EvaluateCall.posted (X : Crates) (j : ℕ) (call : EvaluateCall) : List (ℕ × List UInt8) :=
  ((call.sent X).map fun wire => (j, toVec wire.toJson)).toList

/-- The network, and the bytes that were sent to the verifier and to the calls,
    with the number of the call. -/
structure Link where
  net : Network
  requests : List (ℕ × List UInt8)
  responses : List (ℕ × List UInt8)

namespace Link

/-- A verifier and nothing else. -/
def init (st : VerifierState) : Link := ⟨.init st, [], []⟩

/-- The verifier goes on. -/
def withVerifier (L : Link) (C : VerifierConfig) : Link :=
  { L with net := { L.net with verifier := C } }

/-- The call `j` becomes `call`. -/
def withCall (L : Link) (j : ℕ) (call : EvaluateCall) : Link :=
  { L with net := { L.net with calls := Function.update L.net.calls j (some call) } }

/-- A step of the network, by the bytes that it takes. -/
inductive Step (X : Crates) (D : Decoders) (key : List UInt8) : Link → Link → Prop
  | enter {L} (j call) : L.net.calls j = none → call.result = none →
      Step X D key L { L.withCall j call with requests := call.posted X j ++ L.requests }
  | deliver {L body req C} (i j now) : (j, body) ∈ L.requests → readRequest D body = some req →
      Interleave.Step (verifier X key) L.net.verifier (.start i (.authorize now req)) C →
      Step X D key L { L with
        net := { L.net with verifier := C, sender := Function.update L.net.sender i (some j) } }
  /-- A request of others. -/
  | other {L req C} (i now body) : readRequest D body = some req →
      Interleave.Step (verifier X key) L.net.verifier (.start i (.authorize now req)) C →
      Step X D key L (L.withVerifier C)
  | revoke {L C} (i a) : Interleave.Step (verifier X key) L.net.verifier (.start i (.revoke a)) C →
      Step X D key L (L.withVerifier C)
  /-- A handler that has started goes on. -/
  | run {L e C} : (∀ i c, e ≠ .start i c) →
      Interleave.Step (verifier X key) L.net.verifier e C → Step X D key L (L.withVerifier C)
  | respond {L c v} (i j) : L.net.sender i = some j →
      L.net.verifier.threads i = some ⟨c, .done (.verdict v), true⟩ →
      Step X D key L { L with responses := (j, toVec v.toJson) :: L.responses }
  | hear {L body} (j call) : (j, body) ∈ L.responses → L.net.calls j = some call →
      call.result = none →
      Step X D key L (L.withCall j { call with result := some (call.run X (.ofBody D body)) })
  /-- A call fails: it was denied locally, its connection broke, it ran out of
      time, or it got another status. -/
  | fail {L reply} (j call) : L.net.calls j = some call → call.result = none →
      reply.outcome.isVerdict = false →
      Step X D key L (L.withCall j { call with result := some (call.run X reply) })

/-- The links that a new verifier comes to. -/
inductive Reachable (X : Crates) (D : Decoders) (key : List UInt8) : Link → Prop
  | init : Reachable X D key (.init (.new key))
  | step {L L'} : Reachable X D key L → Step X D key L L' → Reachable X D key L'

end Link

end ExtAuthz
