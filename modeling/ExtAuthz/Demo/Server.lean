/-
  The HTTP side of the reference verifier: the route `/v1/authorize` behind
  `DefaultBodyLimit`, the route of revocations, and what the middleware makes of
  the responses.

  A body is a JSON document here, measured as its compact text.  A body over
  the limit and one that is no `AuthorizeRequest` are answered by the extractor,
  without running `authorize`.
-/
import ExtAuthz.Demo.Verifier
import ExtAuthz.Middleware.Evaluate

namespace ExtAuthz

open Json

/-- The extractor `Json<AuthorizeRequest>`, or the status it rejects with. -/
def extractRequest (body : Json) : Except StatusCode AuthorizeRequest :=
  if body.size > maxAuthorizeBodyBytes then .error ⟨413, "Payload Too Large"⟩
  else match AuthorizeRequest.fromJson body with
    | none => .error ⟨422, "Unprocessable Entity"⟩
    | some req => .ok req

/-- A `POST` to `/v1/authorize`, with the clock reading that the handler takes.
    A rejection has plain text for its body. -/
def VerifierState.post (X : Crates) (st : VerifierState) (now : Int64) (body : Json) :
    Reply × VerifierState :=
  match extractRequest body with
  | .error status => (.response status (.error .decode), st)
  | .ok req =>
    let (v, st) := st.authorize X now req
    (.response .ok (AuthorizeResponse.decode X.values v.toJson), st)

/-- The routes of a `POST` (`router`). -/
inductive Route where
  | authorize
  | revoke (agentId : String)
  deriving DecidableEq

/-- A `POST` to a route. -/
def VerifierState.serve (X : Crates) (st : VerifierState) (now : Int64) (body : Json) :
    Route → Reply × VerifierState
  | .authorize => st.post X now body
  | .revoke a => (.response ⟨204, "No Content"⟩ (.error .decode), st.revokeAgent a)

/-- The size of a request on the wire fits the limit of the verifier. -/
def AuthorizeRequest.FitsLimit (req : AuthorizeRequest) : Prop :=
  req.toJson.size ≤ maxAuthorizeBodyBytes

/-- The handler runs on the request that was sent. -/
theorem extractRequest_toJson {req : AuthorizeRequest} (h : req.FitsLimit) :
    extractRequest req.toJson = .ok req := by
  rw [extractRequest, if_neg (not_lt.2 h), AuthorizeRequest.fromJson_toJson]

theorem extractRequest_of_not_fitsLimit {req : AuthorizeRequest} (h : ¬ req.FitsLimit) :
    extractRequest req.toJson = .error ⟨413, "Payload Too Large"⟩ := by
  rw [extractRequest, if_pos (not_le.1 h)]

theorem eq_of_extractRequest {req req' : AuthorizeRequest}
    (h : extractRequest req.toJson = .ok req') : req' = req := by
  by_cases hs : req.FitsLimit
  · rw [extractRequest_toJson hs] at h
    cases h
    rfl
  · rw [extractRequest_of_not_fitsLimit hs] at h
    cases h

/-- A long query is enough to miss the limit. -/
theorem AuthorizeRequest.FitsLimit.query_le {req : AuthorizeRequest} (h : req.FitsLimit) :
    req.request.query.utf8ByteSize + 2 ≤ maxAuthorizeBodyBytes := by
  have h₁ := le_size_str req.request.query
  have h₂ : (Json.str req.request.query).size ≤ req.request.toJson.size :=
    size_le_ofFields (k := "query") (by simp [RequestDescriptor.toFields])
  have h₃ : req.request.toJson.size ≤ req.toJson.size :=
    size_le_ofFields (k := "request") (by simp [AuthorizeRequest.toFields])
  exact (h₁.trans h₂).trans (h₃.trans h)

/-! ## Responses -/

theorem lossless_deny (code msg : String) : (deny code msg).Lossless := by
  rintro _ ⟨⟩
  exact ⟨Value.object_ne_null _, Value.verbatim_object (by decide) (by
    simpa using Value.verbatim_str "demo")⟩

theorem lossless_allow (c : Claims) : (allow c).Lossless := by
  rintro _ ⟨⟩
  refine ⟨Value.object_ne_null _, Value.verbatim_object (by simp [rawToken]) ?_⟩
  have hscope : (Value.object [("method", .str c.scope.method),
      ("authority", .str c.scope.authority)]).json.Verbatim :=
    Value.verbatim_object (by simp [rawToken]) (by
      simpa using ⟨Value.verbatim_str c.scope.method, Value.verbatim_str c.scope.authority⟩)
  simp only [List.forall_mem_cons]
  exact ⟨Value.verbatim_str _, Value.verbatim_str _, Value.verbatim_str _,
    Value.verbatim_ofOption _, hscope, by simp⟩

/-- The responses of the reference verifier are read back. -/
theorem lossless_authorize (X : Crates) (st : VerifierState) (now : Int64)
    (req : AuthorizeRequest) : (st.authorize X now req).1.Lossless := by
  rcases VerifierState.authorize_response X st now req with ⟨code, msg, h⟩ | ⟨c, h⟩
  · exact h ▸ lossless_deny code msg
  · exact h ▸ lossless_allow c

/-- The middleware reads the response of `authorize` as it was given. -/
theorem outcome_post {X : Crates} {st : VerifierState} {now : Int64} {req : AuthorizeRequest}
    (h : req.FitsLimit) :
    (st.post X now req.toJson).1.outcome = .verdict (st.authorize X now req).1 := by
  rw [VerifierState.post, extractRequest_toJson h]
  simp [Reply.outcome, StatusCode.ok,
    AuthorizeResponse.decode_toJson _ (lossless_authorize X st now req)]

/-- A request over the limit is a failure of the verifier, to the middleware. -/
theorem outcome_post_of_not_fitsLimit {X : Crates} {st : VerifierState} {now : Int64}
    {req : AuthorizeRequest} (h : ¬ req.FitsLimit) :
    (st.post X now req.toJson).1.outcome = .malformed "http status 413 Payload Too Large" := by
  have hd : "http status " ++ StatusCode.display ⟨413, "Payload Too Large"⟩ =
      "http status 413 Payload Too Large" := by decide
  rw [VerifierState.post, extractRequest_of_not_fitsLimit h]
  simp [Reply.outcome, hd]

end ExtAuthz
